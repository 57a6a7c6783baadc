import Conform.Number.Binary64

/-!
The text of a binary floating point number: the fewest digits that read back to it, and how they
are laid out.
-/

namespace Conform.Binary64

/-- The decimal with its last digit at `place` that reads back to a positive number, the nearer one
where both neighbours do. -/
def decimalAt? (mantissa : Nat) (exponent place : Int) : Option (Nat × Int) :=
  let q : Rat := mantissa * 2 ^ exponent / 10 ^ place
  let low := q.floor.toNat
  let readsBack (digits : Nat) : Bool :=
    ofDecimal false digits place = .finite false mantissa exponent
  match readsBack low, readsBack (low + 1) with
  | true, true => some (roundHalfEven q, place)
  | true, false => some (low, place)
  | false, true => some (low + 1, place)
  | false, false => none

def leadingPlace (q : Rat) : Int :=
  -- no positive number lies below `10 ^ -350`
  (Nat.toDigits 10 (q * Rat.pow 10 350).floor.toNat).length - 351

def shortest (mantissa : Nat) (exponent : Int) : Nat × Int :=
  let lead := leadingPlace (mantissa * 2 ^ exponent)
  let found := (List.range 17).findSome? fun (n : Nat) => decimalAt? mantissa exponent (lead - n)
  found.getD (mantissa, exponent)

def isPositional (lead : Int) : Bool := -4 ≤ lead && lead < 16

def exponentText (e : Int) : List Char :=
  let digits := Nat.toDigits 10 e.natAbs
  (if e < 0 then '-' else '+') :: (if digits.length < 2 then '0' :: digits else digits)

def layout (digits : List Char) (lead : Int) : List Char :=
  if isPositional lead then
    if lead < 0 then
      '0' :: '.' :: List.replicate (-lead - 1).toNat '0' ++ digits
    else
      let whole := lead.toNat + 1
      let padded := digits ++ List.replicate (whole - digits.length) '0'
      let rest := padded.drop whole
      padded.take whole ++ '.' :: (if rest.isEmpty then ['0'] else rest)
  else
    match digits with
    | [] => []
    | [d] => d :: 'e' :: exponentText lead
    | d :: ds => d :: '.' :: ds ++ 'e' :: exponentText lead

def dropTrailingZeros (digits : List Char) : List Char :=
  (digits.reverse.dropWhile (· == '0')).reverse

def magnitudeText (mantissa : Nat) (exponent : Int) : List Char :=
  if mantissa = 0 then ['0', '.', '0']
  else
    let (digits, place) := shortest mantissa exponent
    let all := Nat.toDigits 10 digits
    layout (dropTrailingZeros all) (all.length + place - 1)

def chars : Binary64 → List Char
  | .nan _ => ['n', 'a', 'n']
  | .infinite false => ['i', 'n', 'f']
  | .infinite true => ['-', 'i', 'n', 'f']
  | .finite false m e => magnitudeText m e
  | .finite true m e => '-' :: magnitudeText m e

def text (x : Binary64) : String := String.ofList x.chars

end Conform.Binary64
