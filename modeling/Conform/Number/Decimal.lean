import Conform.Number.Binary64

namespace Conform

structure NotANumber where
  negative : Bool
  signaling : Bool
  payload : Nat
  identity : Identity
  deriving DecidableEq, Repr, Inhabited

inductive Decimal
  | nan (n : NotANumber)
  | infinite (negative : Bool)
  | finite (negative : Bool) (coefficient : Nat) (exponent : Int)
  deriving DecidableEq, Repr, Inhabited

namespace Decimal

def precision : Nat := 28

def greatestPlace : Int := 999999

def leastExponent : Int := -999999 - precision + 1

def ofInt (n : Int) : Decimal := .finite (n < 0) n.natAbs 0

def isSignaling : Decimal → Bool
  | .nan n => n.signaling
  | _ => false

def isZero : Decimal → Bool
  | .finite _ 0 _ => true
  | _ => false

def isPositive : Decimal → Bool
  | .finite false (_ + 1) _ => true
  | .infinite false => true
  | _ => false

def place (coefficient : Nat) (exponent : Int) : Int :=
  (Nat.toDigits 10 coefficient).length + exponent - 1

def stripZeros (coefficient : Nat) (exponent : Int) : Nat × Int :=
  if _h : coefficient ≠ 0 ∧ coefficient % 10 = 0 then stripZeros (coefficient / 10) (exponent + 1)
  else (coefficient, exponent)
termination_by coefficient
decreasing_by omega

def normal : Decimal → Decimal
  | .finite negative c e =>
    if c = 0 then .finite false 0 0
    else
      let (c, e) := stripZeros c e
      .finite negative c e
  | x => x

def ofBinary64 : Binary64 → Decimal
  | .nan i => .nan ⟨false, false, 0, i⟩
  | .infinite s => .infinite s
  | .finite s m e =>
    if e < 0 then .finite s (m * Nat.pow 5 (-e).toNat) e
    else .finite s (m * Nat.pow 2 e.toNat) 0

def toInt? (x : Decimal) : Option Int :=
  match x.normal with
  | .finite negative c e =>
    if e < 0 then none
    else
      let n : Int := (c * Nat.pow 10 e.toNat : Nat)
      some (if negative then -n else n)
  | _ => none

/-- Shortens the coefficient of a result to the precision, or further if its exponent is too low, a
half going to the even neighbour. What is less than half of the least number becomes zero, and what
is greater than every sum is `none`. -/
def round? (negative : Bool) (coefficient : Nat) (exponent : Int) : Option Decimal :=
  let least := max (place coefficient exponent - precision + 1) leastExponent
  if coefficient = 0 then
    some (.finite negative 0 (max leastExponent (min exponent greatestPlace)))
  else if place coefficient exponent < leastExponent - 1 then
    some (.finite negative 0 leastExponent)
  else
    let (c, e) :=
      if least ≤ exponent then (coefficient, exponent)
      else
        let c := roundHalfEven (coefficient / Rat.pow 10 (least - exponent).toNat)
        if c = Nat.pow 10 precision then (Nat.pow 10 (precision - 1), least + 1) else (c, least)
    if greatestPlace < place c e then none else some (.finite negative c e)

def isSmallDouble (n : Nat) : Bool := n % 2 = 0 && n / 2 < Nat.pow 10 precision

/-- Whether the number is a multiple of two. A quotient by two of more digits than the precision
counts as none, and a remainder too small for a result as zero. -/
def isEven (x : Decimal) : Bool :=
  match x.normal with
  | .finite negative c e =>
    if e < 0 then (round? negative c e).any isZero
    else e ≤ precision && isSmallDouble (c * Nat.pow 10 e.toNat)
  | _ => false

inductive SumError
  | signaling
  | opposite
  | tooGreat
  deriving DecidableEq, Repr

def ofSum (zeroSign : Bool) (coefficient exponent : Int) : Except SumError Decimal :=
  let negative := if coefficient = 0 then zeroSign else coefficient < 0
  match round? negative coefficient.natAbs exponent with
  | some x => .ok x
  | none => .error .tooGreat

def addOrdered (c₁ e₁ c₂ e₂ : Int) : Except SumError Decimal :=
  -- a summand below all digits that are kept counts by its sign only
  let floor := e₁ + min (-1) (place c₁.natAbs 0 - precision - 1)
  let (c₂, e₂) := if place c₂.natAbs e₂ < floor then (c₂.sign, floor) else (c₂, e₂)
  ofSum false (c₁ * Int.pow 10 (e₁ - e₂).toNat + c₂) e₂

def addZero (c e zero : Int) : Except SumError Decimal :=
  let target := max (min e zero) (e - precision - 1)
  ofSum false (c * Int.pow 10 (e - target).toNat) target

def addFinite (s₁ : Bool) (c₁ : Nat) (e₁ : Int) (s₂ : Bool) (c₂ : Nat) (e₂ : Int) :
    Except SumError Decimal :=
  let signed (s : Bool) (c : Nat) : Int := if s then -c else c
  if c₁ = 0 && c₂ = 0 then ofSum (s₁ && s₂) 0 (min e₁ e₂)
  else if c₁ = 0 then addZero (signed s₂ c₂) e₂ e₁
  else if c₂ = 0 then addZero (signed s₁ c₁) e₁ e₂
  else if e₁ < e₂ then addOrdered (signed s₂ c₂) e₂ (signed s₁ c₁) e₁
  else addOrdered (signed s₁ c₁) e₁ (signed s₂ c₂) e₂

def ofNaN (n : NotANumber) : Decimal :=
  .nan { n with payload := n.payload % Nat.pow 10 precision, identity := .copied n.identity none }

def add : Decimal → Decimal → Except SumError Decimal
  | .finite s₁ c₁ e₁, .finite s₂ c₂ e₂ => addFinite s₁ c₁ e₁ s₂ c₂ e₂
  | .nan m, .nan n => if m.signaling || n.signaling then .error .signaling else .ok (ofNaN m)
  | .nan n, _ => if n.signaling then .error .signaling else .ok (ofNaN n)
  | _, .nan n => if n.signaling then .error .signaling else .ok (ofNaN n)
  | .infinite s, .infinite t => if s = t then .ok (.infinite s) else .error .opposite
  | .infinite s, _ => .ok (.infinite s)
  | _, .infinite t => .ok (.infinite t)

def withPoint (digits : List Char) (whole : Int) : List Char :=
  if whole ≤ 0 then '0' :: '.' :: List.replicate (-whole).toNat '0' ++ digits
  else if (digits.length : Int) ≤ whole then
    digits ++ List.replicate (whole.toNat - digits.length) '0'
  else digits.take whole.toNat ++ '.' :: digits.drop whole.toNat

def magnitudeText (coefficient : Nat) (exponent : Int) : List Char :=
  let digits := Nat.toDigits 10 coefficient
  let left : Int := digits.length + exponent
  if exponent ≤ 0 && -6 < left then withPoint digits left
  else
    let e := left - 1
    withPoint digits 1 ++ 'E' :: (if e < 0 then '-' else '+') :: Nat.toDigits 10 e.natAbs

def nanChars (n : NotANumber) : List Char :=
  let sign := if n.negative then ['-'] else []
  let name := if n.signaling then "sNaN".toList else "NaN".toList
  sign ++ name ++ if n.payload = 0 then [] else Nat.toDigits 10 n.payload

def chars : Decimal → List Char
  | .nan n => nanChars n
  | .infinite false => "Infinity".toList
  | .infinite true => "-Infinity".toList
  | .finite false c e => magnitudeText c e
  | .finite true c e => '-' :: magnitudeText c e

def text (x : Decimal) : String := String.ofList x.chars

end Decimal

end Conform
