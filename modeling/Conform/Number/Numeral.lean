import Conform.Number.Decimal
import Conform.Number.Shortest

namespace Conform

structure Numeral where
  negative : Bool
  digits : Nat
  exponent : Int
  deriving DecidableEq, Repr

namespace Numeral

def natOf? (cs : List Char) : Option Nat :=
  if cs.isEmpty || !cs.all Char.isDigit then none else some (Nat.ofDigitChars 10 cs 0)

def takeSign : List Char → Bool × List Char
  | '-' :: cs => (true, cs)
  | '+' :: cs => (false, cs)
  | cs => (false, cs)

def exponentOf? : List Char → Option Int
  | [] => some 0
  | _ :: cs =>
    let (negative, ds) := takeSign cs
    (natOf? ds).map fun n => if negative then -n else n

def isMark (c : Char) : Bool := c == 'e' || c == 'E'

def ofChars? (cs : List Char) : Option Numeral := do
  let (negative, body) := takeSign cs
  let (mantissa, tail) := body.span fun c => !isMark c
  let (whole, pointed) := mantissa.span (· != '.')
  let fraction := pointed.drop 1
  let digits ← natOf? (whole ++ fraction)
  let exponent ← exponentOf? tail
  return ⟨negative, digits, exponent - fraction.length⟩

def ofText? (s : String) : Option Numeral := ofChars? s.toList

def toBinary64 (n : Numeral) : Binary64 := .ofDecimal n.negative n.digits n.exponent

def toDecimal (n : Numeral) : Decimal := .finite n.negative n.digits n.exponent

end Numeral

def Numeral.signAndName (s : String) : Bool × List Char :=
  (takeSign s.toList).map id (·.map Char.toLower)

def Numeral.isInfinity (name : List Char) : Bool :=
  name = "inf".toList || name = "infinity".toList

def Binary64.ofText? (identity : Identity) (s : String) : Option Binary64 :=
  let (negative, name) := Numeral.signAndName s
  if name = "nan".toList then some (.nan identity)
  else if Numeral.isInfinity name then some (.infinite negative)
  else (Numeral.ofText? s).map Numeral.toBinary64

def NotANumber.ofChars? (identity : Identity) (negative : Bool) : List Char → Option NotANumber
  | 's' :: 'n' :: 'a' :: 'n' :: ds => some ⟨negative, true, (Numeral.natOf? ds).getD 0, identity⟩
  | 'n' :: 'a' :: 'n' :: ds => some ⟨negative, false, (Numeral.natOf? ds).getD 0, identity⟩
  | _ => none

def Decimal.ofText? (identity : Identity) (s : String) : Option Decimal :=
  let (negative, name) := Numeral.signAndName s
  match NotANumber.ofChars? identity negative name with
  | some n => some (.nan n)
  | none =>
    if Numeral.isInfinity name then some (.infinite negative)
    else (Numeral.ofText? s).map Numeral.toDecimal

end Conform
