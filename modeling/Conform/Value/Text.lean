import Conform.Value.Basic
import Conform.Number.Shortest
import Conform.Text.Quoted
import Conform.Json.Integer

namespace Conform

def zoneLiteral (seconds : Int) : String :=
  if seconds = 0 then "datetime.timezone.utc"
  else
    let days := if seconds < 0 then "days=-1, " else ""
    let rest := "seconds=" ++ toString (seconds % 86400)
    "datetime.timezone(datetime.timedelta(" ++ days ++ rest ++ "))"

namespace DateTime

def literal (t : DateTime) : String :=
  let parts := [t.date.year, t.date.month, t.date.day, t.hour, t.minute]
  let late := if t.microsecond = 0 then (if t.second = 0 then [] else [t.second])
    else [t.second, t.microsecond]
  let zone := (t.offset.map fun seconds => "tzinfo=" ++ zoneLiteral seconds).toList
  "datetime.datetime(" ++ ", ".intercalate ((parts ++ late).map toString ++ zone) ++ ")"

end DateTime

def Date.literal (d : Date) : String :=
  "datetime.date(" ++ ", ".intercalate ([d.year, d.month, d.day].map toString) ++ ")"

namespace Value

def dots : Kind → String
  | .list => "[...]"
  | .tuple => "(...)"
  | .dict => "\x7b...\x7d"
  | .view => "mappingproxy(\x7b...\x7d)"
  | _ => "..."

mutual

def literalVia (refer : List Nat → Nat → String) (around : List Nat) : Value → String
  | .undefined => "UNDEFINED"
  | .null => "None"
  | .bool true => "True"
  | .bool false => "False"
  | .int n => toString n
  | .float x => x.text
  | .decimal x => "Decimal(" ++ Text.quoted x.text ++ ")"
  | .str s => Text.quoted s
  | .bytes bs => Text.quotedBytes bs
  | .date d => d.literal
  | .datetime t => t.literal
  | .object type _ => "<" ++ type ++ " object>"
  | .list xs => "[" ++ ", ".intercalate (literalsVia refer around xs) ++ "]"
  | .tuple [x] => "(" ++ literalVia refer around x ++ ",)"
  | .tuple xs => "(" ++ ", ".intercalate (literalsVia refer around xs) ++ ")"
  | .set [] => "set()"
  | .set xs => "\x7b" ++ ", ".intercalate (literalsVia refer around xs) ++ "\x7d"
  | .dict es => "\x7b" ++ ", ".intercalate (entryLiteralsVia refer around es) ++ "\x7d"
  | .view es =>
    "mappingproxy(\x7b" ++ ", ".intercalate (entryLiteralsVia refer around es) ++ "\x7d)"
  | .mapping type .. => "<" ++ type ++ " object>"
  | .record type fs =>
    type ++ "(" ++ ", ".intercalate (fieldLiteralsVia refer around fs) ++ ")"
  | .cyclic i nodes n =>
    Nat.repeat (fun refer around n =>
      if n ∈ around then dots (cyclic i nodes n).kind
      else nodeLiteralVia refer (n :: around) nodes n) (nodes.length + 1) (fun _ _ => "...") [] n
  | .again n => refer around n
termination_by structural v => v

def literalsVia (refer : List Nat → Nat → String) (around : List Nat) :
    List Value → List String
  | [] => []
  | x :: xs => literalVia refer around x :: literalsVia refer around xs
termination_by structural vs => vs

def entryLiteralsVia (refer : List Nat → Nat → String) (around : List Nat) :
    List (Value × Value) → List String
  | [] => []
  | (k, v) :: es =>
    (literalVia refer around k ++ ": " ++ literalVia refer around v) ::
      entryLiteralsVia refer around es
termination_by structural es => es

def fieldLiteralsVia (refer : List Nat → Nat → String) (around : List Nat) :
    List (String × Value) → List String
  | [] => []
  | (k, v) :: fs => (k ++ "=" ++ literalVia refer around v) :: fieldLiteralsVia refer around fs
termination_by structural fs => fs

def nodeLiteralVia (refer : List Nat → Nat → String) (around : List Nat) :
    List Value → Nat → String
  | [], _ => "..."
  | v :: _, 0 => literalVia refer around v
  | _ :: vs, n + 1 => nodeLiteralVia refer around vs n
termination_by structural vs => vs

end

def literal (v : Value) : String := literalVia (fun _ _ => "...") [] v

/-- A text stands for itself, a time is written with a space between its day and its hour, a record
without its name, a view as the dict behind it. All else is written as its literal. -/
def text : Value → String
  | .str s => s
  | .undefined => "Undefined.UNDEFINED"
  | .decimal x => x.text
  | .date d => d.text
  | .datetime t => t.textWith " "
  | .record _ fs => " ".intercalate (fieldLiteralsVia (fun _ _ => "...") [] fs)
  | .view es => literal (.dict es)
  | v => v.literal

mutual

def hasText : Value → Bool
  | .int n => (Nat.toDigits 10 n.natAbs).length ≤ Json.maxDigits
  | .list xs => haveTexts xs
  | .tuple xs => haveTexts xs
  | .set xs => haveTexts xs
  | .dict es => entriesHaveTexts es
  | .view es => entriesHaveTexts es
  | .record _ fs => fieldsHaveTexts fs
  | .cyclic _ nodes _ => haveTexts nodes
  | _ => true
termination_by structural v => v

def haveTexts : List Value → Bool
  | [] => true
  | x :: xs => hasText x && haveTexts xs
termination_by structural vs => vs

def entriesHaveTexts : List (Value × Value) → Bool
  | [] => true
  | (k, v) :: es => hasText k && hasText v && entriesHaveTexts es
termination_by structural es => es

def fieldsHaveTexts : List (String × Value) → Bool
  | [] => true
  | (_, v) :: fs => hasText v && fieldsHaveTexts fs
termination_by structural fs => fs

end

def text? (v : Value) : Option String := if v.hasText then some v.text else none

end Value

end Conform
