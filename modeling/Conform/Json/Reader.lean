import Conform.Value.Table
import Conform.Json.Integer

/-!
JSON text read into values. Numbers without a point and an exponent are integers, the names of the
infinite numbers and of the number that is none are accepted, and of two members with one name the
first gives the place and the last the value.
-/

namespace Conform.Json

inductive ReadError
  | malformed
  | integerTooLong
  deriving DecidableEq, Repr

def isBlank (c : Char) : Bool := c == ' ' || c == '\t' || c == '\n' || c == '\r'

def skipBlanks (cs : List Char) : List Char := cs.dropWhile isBlank

def hexValue? (c : Char) : Option Nat :=
  if c.isDigit then some (c.toNat - 48)
  else if 'a' ≤ c && c ≤ 'f' then some (c.toNat - 87)
  else if 'A' ≤ c && c ≤ 'F' then some (c.toNat - 55)
  else none

def hexUnit? (a b c d : Char) : Option Nat := do
  let high := (← hexValue? a) * 16 + (← hexValue? b)
  let low := (← hexValue? c) * 16 + (← hexValue? d)
  return high * 256 + low

def isHighSurrogate (n : Nat) : Bool := 0xD800 ≤ n && n < 0xDC00

def isLowSurrogate (n : Nat) : Bool := 0xDC00 ≤ n && n < 0xE000

def unitChar (n : Nat) : Char :=
  -- a surrogate that stands alone is no character
  if isHighSurrogate n || isLowSurrogate n then Char.ofNat 0xFFFD else Char.ofNat n

def pairChar (high low : Nat) : Char :=
  Char.ofNat (0x10000 + (high - 0xD800) * 0x400 + (low - 0xDC00))

def ofUnits : List Nat → List Char
  | high :: low :: rest =>
    if isHighSurrogate high && isLowSurrogate low then pairChar high low :: ofUnits rest
    else unitChar high :: ofUnits (low :: rest)
  | [n] => [unitChar n]
  | [] => []

def unescape? (c : Char) : Option Char :=
  if c == '"' || c == '\\' || c == '/' then some c
  else if c == 'n' then some '\n'
  else if c == 'r' then some '\r'
  else if c == 't' then some '\t'
  else if c == 'b' then some '\x08'
  else if c == 'f' then some '\x0c'
  else none

def stringUnits : List Char → Option (List Nat × List Char)
  | [] => none
  | '"' :: rest => some ([], rest)
  | '\\' :: 'u' :: a :: b :: c :: d :: rest => do
    let n ← hexUnit? a b c d
    let (ns, tail) ← stringUnits rest
    return (n :: ns, tail)
  | '\\' :: c :: rest => do
    let c ← unescape? c
    let (ns, tail) ← stringUnits rest
    return (c.toNat :: ns, tail)
  | c :: rest =>
    if c == '\\' || c.toNat < 0x20 then none
    else do
      let (ns, tail) ← stringUnits rest
      return (c.toNat :: ns, tail)
termination_by structural cs => cs

def string (cs : List Char) : Except ReadError (String × List Char) :=
  match stringUnits cs with
  | some (units, rest) => .ok (String.ofList (ofUnits units), rest)
  | none => .error .malformed

def wholeDigits : List Char → List Char × List Char
  | '0' :: rest => (['0'], rest)
  | cs => cs.span Char.isDigit

def fractionDigits : List Char → List Char × List Char
  | '.' :: rest =>
    match rest.span Char.isDigit with
    | ([], _) => ([], '.' :: rest)
    | (ds, rest') => (ds, rest')
  | cs => ([], cs)

def exponentSign : List Char → Bool × List Char
  | '-' :: cs => (true, cs)
  | '+' :: cs => (false, cs)
  | cs => (false, cs)

def exponentPart : List Char → Option Int × List Char
  | [] => (none, [])
  | c :: rest =>
    if c == 'e' || c == 'E' then
      let (negative, unsigned) := exponentSign rest
      match unsigned.span Char.isDigit with
      | ([], _) => (none, c :: rest)
      | (ds, rest') =>
        let n : Int := Nat.ofDigitChars 10 ds 0
        (some (if negative then -n else n), rest')
    else (none, c :: rest)

def magnitude (negative : Bool) (cs : List Char) : Except ReadError (Value × List Char) :=
  let (whole, afterWhole) := wholeDigits cs
  if whole.isEmpty then .error .malformed
  else
    let (fraction, afterFraction) := fractionDigits afterWhole
    let (exponent, rest) := exponentPart afterFraction
    if fraction.isEmpty && exponent.isNone then
      if maxDigits < whole.length then .error .integerTooLong
      else
        let n : Int := Nat.ofDigitChars 10 whole 0
        .ok (.int (if negative then -n else n), rest)
    else
      let digits := Nat.ofDigitChars 10 (whole ++ fraction) 0
      .ok (.float (.ofDecimal negative digits (exponent.getD 0 - fraction.length)), rest)

def nanIdentity : Identity := .given 0

def scalar : List Char → Except ReadError (Value × List Char)
  | 'n' :: 'u' :: 'l' :: 'l' :: rest => .ok (.null, rest)
  | 't' :: 'r' :: 'u' :: 'e' :: rest => .ok (.bool true, rest)
  | 'f' :: 'a' :: 'l' :: 's' :: 'e' :: rest => .ok (.bool false, rest)
  | 'N' :: 'a' :: 'N' :: rest => .ok (.float (.nan nanIdentity), rest)
  | 'I' :: 'n' :: 'f' :: 'i' :: 'n' :: 'i' :: 't' :: 'y' :: rest =>
    .ok (.float (.infinite false), rest)
  | '-' :: 'I' :: 'n' :: 'f' :: 'i' :: 'n' :: 'i' :: 't' :: 'y' :: rest =>
    .ok (.float (.infinite true), rest)
  | '-' :: cs => magnitude true cs
  | cs => magnitude false cs

def memberName : List Char → Except ReadError (String × List Char)
  | '"' :: cs => do
    let (name, rest) ← string cs
    match skipBlanks rest with
    | ':' :: rest => .ok (name, skipBlanks rest)
    | _ => .error .malformed
  | _ => .error .malformed

mutual

/-- A value at the start of the text. Every call lowers the bound, and none is made without a
character read since the call before the last. -/
def value : Nat → List Char → Except ReadError (Value × List Char)
  | 0, _ => .error .malformed
  | n + 1, cs =>
    match cs with
    | '"' :: rest => do
      let (s, rest) ← string rest
      return (.str s, rest)
    | '[' :: rest =>
      match skipBlanks rest with
      | ']' :: rest => .ok (.list [], rest)
      | rest => do
        let (xs, rest) ← items n rest
        return (.list xs, rest)
    | '\x7b' :: rest =>
      match skipBlanks rest with
      | '\x7d' :: rest => .ok (.dict [], rest)
      | rest => do
        let (es, rest) ← members n rest
        return (.dict (Table.ofPairs es), rest)
    | cs => scalar cs

def items : Nat → List Char → Except ReadError (List Value × List Char)
  | 0, _ => .error .malformed
  | n + 1, cs => do
    let (x, rest) ← value n cs
    match skipBlanks rest with
    | ',' :: rest =>
      let (xs, rest) ← items n (skipBlanks rest)
      return (x :: xs, rest)
    | ']' :: rest => return ([x], rest)
    | _ => .error .malformed

def members : Nat → List Char → Except ReadError (List (Value × Value) × List Char)
  | 0, _ => .error .malformed
  | n + 1, cs => do
    let (name, rest) ← memberName cs
    let (v, rest) ← value n rest
    match skipBlanks rest with
    | ',' :: rest =>
      let (es, rest) ← members n (skipBlanks rest)
      return ((.str name, v) :: es, rest)
    | '\x7d' :: rest => return ([(.str name, v)], rest)
    | _ => .error .malformed

end

def read (cs : List Char) : Except ReadError Value := do
  let (v, rest) ← value (2 * cs.length + 2) (skipBlanks cs)
  if (skipBlanks rest).isEmpty then return v else .error .malformed

def ofText (s : String) : Except ReadError Value := read s.toList

end Conform.Json
