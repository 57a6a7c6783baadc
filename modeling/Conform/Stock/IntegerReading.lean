import Conform.Value.Basic

namespace Conform.IntegerReading

inductive IntegerError
  | notInteger
  | fractional
  | infinite
  | unreadable
  | tooLong
  deriving DecidableEq, Repr

def IntegerError.message : IntegerError → String
  | .notInteger => "Input should be a valid integer"
  | .fractional => "Input should be a valid integer, got a number with a fractional part"
  | .infinite => "Input should be a finite number"
  | .unreadable => "Input should be a valid integer, unable to parse string as an integer"
  | .tooLong => "Unable to parse input string as an integer, exceeded maximum size"

def isBlank (c : Char) : Bool :=
  let n := c.toNat
  (9 ≤ n && n ≤ 13) || n = 0x20 || n = 0x85 || n = 0xA0 || n = 0x1680 || (0x2000 ≤ n && n ≤ 0x200A)
    || n = 0x2028 || n = 0x2029 || n = 0x202F || n = 0x205F || n = 0x3000

def trim (cs : List Char) : List Char :=
  ((cs.dropWhile isBlank).reverse.dropWhile isBlank).reverse

/-- The text after a leading zero, without the zeros and underscores that follow. The last of them
is kept where no other digit or sign comes next. -/
def dropZeros (last : Char) : List Char → Option (List Char)
  | [] => some [last]
  | c :: cs =>
    if c == '0' || c == '_' then dropZeros c cs
    else if c.isDigit || c == '-' then some (c :: cs)
    else if c == '.' then some (last :: c :: cs)
    else none

def withoutZeros? : List Char → Option (List Char)
  | [] => none
  | c :: cs => if c == '0' then dropZeros c cs else if c.isDigit then some (c :: cs) else none

def withoutPadding? : List Char → Option (List Char)
  | '+' :: cs => withoutZeros? cs
  | '-' :: cs => (withoutZeros? cs).map ('-' :: ·)
  | cs => withoutZeros? cs

def dropZeroFraction (cs : List Char) : List Char :=
  match cs.span (· != '.') with
  | (whole, _ :: z :: zs) => if (z :: zs).all (· == '0') then whole else cs
  | _ => cs

def hasDoubleUnderscore : List Char → Bool
  | '_' :: '_' :: _ => true
  | _ :: cs => hasDoubleUnderscore cs
  | [] => false

def dropUnderscores (cs : List Char) : List Char :=
  if cs.head? == some '_' || cs.getLast? == some '_' || hasDoubleUnderscore cs then cs
  else cs.filter (· != '_')

def plain? (cs : List Char) : Option (List Char) :=
  (withoutPadding? (trim cs)).map fun ds => dropUnderscores (dropZeroFraction ds)

def takeMinus : List Char → Bool × List Char
  | '-' :: cs => (true, cs)
  | cs => (false, cs)

def maxDigits : Nat := 4300

def readPlain (cs : List Char) : Except IntegerError Int :=
  let (negative, unsigned) := takeMinus cs
  let (digits, rest) := unsigned.span Char.isDigit
  if digits.isEmpty || (digits.head? == some '0' && 1 < digits.length) then .error .unreadable
  else if maxDigits < digits.length then .error .tooLong
  else if rest.isEmpty then
    let n : Int := Nat.ofDigitChars 10 digits 0
    .ok (if negative then -n else n)
  else .error .unreadable

def integerOfChars (cs : List Char) : Except IntegerError Int :=
  match readPlain cs with
  | .error .unreadable =>
    match (plain? cs).map readPlain with
    | some (.ok n) => .ok n
    | _ => .error .unreadable
  | r => r

def floatBound : Nat := Nat.pow 2 63

def integerOfFloat (x : Binary64) : Except IntegerError Int :=
  match x, x.toInt? with
  | .finite .., none => .error .fractional
  | _, none => .error .infinite
  | _, some n => if n.natAbs < floatBound then .ok n else .error .tooLong

def integerOfDecimal (x : Decimal) : Except IntegerError Int :=
  match x, x.toInt? with
  | .finite .., none => .error .fractional
  | _, none => .error .infinite
  | _, some n => .ok n

def textOf? (bytes : List UInt8) : Option String := String.fromUTF8? ⟨bytes.toArray⟩

def integerOf : Value → Except IntegerError Int
  | .bool b => .ok (if b then 1 else 0)
  | .int n => .ok n
  | .float x => integerOfFloat x
  | .decimal x => integerOfDecimal x
  | .str s => integerOfChars s.toList
  | .bytes bs =>
    match textOf? bs with
    | some s => integerOfChars s.toList
    | none => .error .unreadable
  | _ => .error .notInteger

end Conform.IntegerReading
