import Conform.Identity

/-!
Binary floating point numbers of 64 bits, held exactly: a finite number is its sign, its mantissa
and its exponent of two. All computing is done with rationals, and rounding happens in one place,
`Binary64.ofMagnitude`.
-/

namespace Conform

inductive Binary64
  | nan (identity : Identity)
  | infinite (negative : Bool)
  | finite (negative : Bool) (mantissa : Nat) (exponent : Int)
  deriving DecidableEq, Repr, Inhabited

def roundHalfEven (q : Rat) : Nat :=
  let num := q.num.natAbs
  let low := num / q.den
  let twice := 2 * (num % q.den)
  if twice < q.den then low
  else if q.den < twice then low + 1
  else if low % 2 = 0 then low else low + 1

namespace Binary64

def leastExponent : Int := -1074

def greatestExponent : Int := 971

def zero (negative : Bool) : Binary64 := .finite negative 0 leastExponent

def pack (negative : Bool) (mantissa : Nat) (exponent : Int) : Binary64 :=
  let (m, e) :=
    if mantissa = Nat.pow 2 53 then (Nat.pow 2 52, exponent + 1) else (mantissa, exponent)
  if greatestExponent < e then .infinite negative else .finite negative m e

def exponentFor (q : Rat) : Int :=
  let guess : Int := (q.num.natAbs.log2 : Int) - q.den.log2 - 52
  max (if q < 2 ^ (guess + 52) then guess - 1 else guess) leastExponent

def ofMagnitude (negative : Bool) (q : Rat) : Binary64 :=
  if q = 0 then zero negative
  else pack negative (roundHalfEven (q / 2 ^ exponentFor q)) (exponentFor q)

def ofRat (q : Rat) : Binary64 := ofMagnitude (q < 0) q.abs

/-- The number nearest to `digits * 10 ^ exponent`. The bounds on the leading digit's place only
spare the arithmetic where the answer is infinite or zero anyway. -/
def ofDecimal (negative : Bool) (digits : Nat) (exponent : Int) : Binary64 :=
  let place : Int := (Nat.toDigits 10 digits).length + exponent
  if digits = 0 || place < -400 then zero negative
  else if 400 < place then .infinite negative
  else ofMagnitude negative (digits * 10 ^ exponent)

def ofInt? (n : Int) : Option Binary64 :=
  match ofRat n with
  | .infinite _ => none
  | x => some x

def toRat? : Binary64 → Option Rat
  | .finite s m e => some (if s then -(m * 2 ^ e) else m * 2 ^ e)
  | _ => none

def isZero : Binary64 → Bool
  | .finite _ 0 _ => true
  | _ => false

def isPositive : Binary64 → Bool
  | .finite false (_ + 1) _ => true
  | .infinite false => true
  | _ => false

def toInt? (x : Binary64) : Option Int :=
  match x.toRat? with
  | some q => if q.den = 1 then some q.num else none
  | none => none

def isEven (x : Binary64) : Bool :=
  match x.toInt? with
  | some n => n % 2 = 0
  | none => false

protected def add : Binary64 → Binary64 → Binary64
  | .finite true 0 _, .finite true 0 _ => zero true
  | x@(.finite ..), y@(.finite ..) => ofRat (x.toRat?.getD 0 + y.toRat?.getD 0)
  | .nan i, _ => .nan (.copied i none)
  | _, .nan i => .nan (.copied i none)
  | .infinite s, .infinite t => if s = t then .infinite s else .nan (.made none)
  | .infinite s, _ => .infinite s
  | _, .infinite t => .infinite t

instance : Add Binary64 := ⟨Binary64.add⟩

end Binary64

end Conform
