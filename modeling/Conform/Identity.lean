namespace Conform

/-- What tells apart the values that equal nothing but themselves. A check makes values, some of
them as copies of others; its number is set once it is known. -/
inductive Identity
  | given (n : Nat)
  | made (check : Option Nat)
  | copied (original : Identity) (check : Option Nat)
  deriving DecidableEq, Repr, Inhabited

def Identity.settle (check : Nat) : Identity → Identity
  | .made none => .made (some check)
  | .copied original none => .copied original (some check)
  | i => i

end Conform
