import Conform.Value.Basic
import Conform.Number.Shortest
import Conform.Text.Quoted
import Conform.Json.Integer

namespace Conform.Json

def escapeChar (c : Char) : List Char :=
  if c == '"' then ['\\', '"']
  else if c == '\\' then ['\\', '\\']
  else if c == '\n' then ['\\', 'n']
  else if c == '\r' then ['\\', 'r']
  else if c == '\t' then ['\\', 't']
  else if c == '\x08' then ['\\', 'b']
  else if c == '\x0c' then ['\\', 'f']
  else if c.toNat < 0x20 then '\\' :: 'u' :: Text.hexDigits 4 c.toNat
  else [c]

def stringChars (cs : List Char) : List Char := '"' :: cs.flatMap escapeChar ++ ['"']

def floatChars : Binary64 → List Char
  | .nan _ => "NaN".toList
  | .infinite false => "Infinity".toList
  | .infinite true => "-Infinity".toList
  | x => x.chars

def commaJoin : List (List Char) → List Char
  | [] => []
  | [t] => t
  | t :: ts => t ++ ',' :: commaJoin ts

def keyChars? : Value → Option (List Char)
  | .str s => some s.toList
  | .int n => intChars? n
  | .float x => some (floatChars x)
  | .bool true => some "true".toList
  | .bool false => some "false".toList
  | .null => some "null".toList
  | _ => none

/-- What comes of writing a value: how deep the writing has gone into it, and the text, unless
something has no JSON form. -/
structure Writing (α : Type) where
  depth : Nat
  text? : Option α

namespace Writing

def ofText? (text? : Option α) : Writing α := ⟨0, text?⟩

def inside (w : Writing α) : Writing α := ⟨w.depth + 1, w.text?⟩

def map (f : α → β) (w : Writing α) : Writing β := ⟨w.depth, w.text?.map f⟩

def andThen (w : Writing α) (f : α → Writing β) : Writing β :=
  match w.text? with
  | some a => ⟨max w.depth (f a).depth, (f a).text?⟩
  | none => ⟨w.depth, none⟩

end Writing

open Writing in
mutual

/-- Writes a value, given the writings of the nodes that it refers to, which depend on the nodes that
it lies in. -/
def writeVia (refer : List Nat → Nat → Writing (List Char)) (around : List Nat) :
    Value → Writing (List Char)
  | .undefined => (ofText? (some "null".toList)).inside
  | .null => ofText? (some "null".toList)
  | .bool true => ofText? (some "true".toList)
  | .bool false => ofText? (some "false".toList)
  | .int n => ofText? (intChars? n)
  | .float x => ofText? (some (floatChars x))
  | .str s => ofText? (some (stringChars s.toList))
  | .list xs => (writeItemsVia refer around xs).inside.map fun ts => '[' :: commaJoin ts ++ [']']
  | .tuple xs => (writeItemsVia refer around xs).inside.map fun ts => '[' :: commaJoin ts ++ [']']
  | .dict es =>
    (writeMembersVia refer around es).inside.map fun ts => '\x7b' :: commaJoin ts ++ ['\x7d']
  | .cyclic _ nodes n =>
    Nat.repeat (fun refer around n =>
      if n ∈ around then (ofText? none).inside else writeNodeVia refer (n :: around) nodes n)
      (nodes.length + 1) (fun _ _ => ofText? none) [] n
  | .again n => refer around n
  | _ => (ofText? none).inside
termination_by structural v => v

def writeItemsVia (refer : List Nat → Nat → Writing (List Char)) (around : List Nat) :
    List Value → Writing (List (List Char))
  | [] => ofText? (some [])
  | x :: xs =>
    (writeVia refer around x).andThen fun t => (writeItemsVia refer around xs).map (t :: ·)
termination_by structural xs => xs

def writeMembersVia (refer : List Nat → Nat → Writing (List Char)) (around : List Nat) :
    List (Value × Value) → Writing (List (List Char))
  | [] => ofText? (some [])
  | (k, v) :: es =>
    (ofText? (keyChars? k)).andThen fun key => (writeVia refer around v).andThen fun t =>
      (writeMembersVia refer around es).map ((stringChars key ++ ':' :: t) :: ·)
termination_by structural es => es

def writeNodeVia (refer : List Nat → Nat → Writing (List Char)) (around : List Nat) :
    List Value → Nat → Writing (List Char)
  | [], _ => ofText? none
  | v :: _, 0 => if v.isContainer then writeVia refer around v else ofText? none
  | _ :: vs, n + 1 => writeNodeVia refer around vs n
termination_by structural vs => vs

end

def write (v : Value) : Writing (List Char) := writeVia (fun _ _ => .ofText? none) [] v

def chars? (v : Value) : Option (List Char) := (write v).text?

def room : Nat := 10000

end Conform.Json
