import Conform.Value.Number

namespace Conform

def hashModulus : Nat := Nat.pow 2 61 - 1

def powResidue (base exponent : Nat) : Nat :=
  if exponent = 0 then 1
  else
    let half := powResidue base (exponent / 2)
    let square := half * half % hashModulus
    if exponent % 2 = 0 then square else square * base % hashModulus
termination_by exponent

def tenResidue (exponent : Int) : Nat :=
  -- the modulus is a prime, so that this power of ten is its inverse
  let base := if exponent < 0 then powResidue 10 (hashModulus - 2) else 10
  powResidue base exponent.natAbs

def Decimal.hash? : Decimal → Option Int
  | .nan _ => none
  | .infinite negative => some (if negative then -314159 else 314159)
  | .finite negative c e =>
    let residue : Int := (c * tenResidue e % hashModulus : Nat)
    let signed := if negative then -residue else residue
    some (if signed = -1 then -2 else signed)

def mixHashes (hashes : List UInt64) : UInt64 :=
  let start : UInt64 := 2870177450012600261
  let mixed := hashes.foldl (fun (acc h : UInt64) =>
    let sum := acc + h * 14029467366897019727
    (sum <<< 31 ||| sum >>> 33) * 11400714785074694791) start
  let closed := mixed + (UInt64.ofNat hashes.length ^^^ (start ^^^ 3527539))
  if closed = UInt64.ofInt (-1) then 1546275796 else closed

namespace Value

mutual

def hash? : Value → Option UInt64
  | .tuple xs => (hashes? xs).map mixHashes
  | v => (v.number?.bind fun n => n.toDecimal.hash?).map UInt64.ofInt
termination_by structural v => v

def hashes? : List Value → Option (List UInt64)
  | [] => some []
  | x :: xs => do
    let h ← hash? x
    let hs ← hashes? xs
    return h :: hs
termination_by structural vs => vs

end

end Value

end Conform
