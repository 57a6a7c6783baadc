namespace Conform.Json

def maxDigits : Nat := 4300

def intChars (n : Int) : List Char :=
  if n < 0 then '-' :: Nat.toDigits 10 n.natAbs else Nat.toDigits 10 n.natAbs

def intChars? (n : Int) : Option (List Char) :=
  if (Nat.toDigits 10 n.natAbs).length ≤ maxDigits then some (intChars n) else none

end Conform.Json
