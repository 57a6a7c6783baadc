import Conform.Value.Basic

namespace Conform

inductive Number
  | int (n : Int)
  | float (x : Binary64)
  | decimal (x : Decimal)
  deriving DecidableEq, Repr

namespace Number

def toDecimal : Number → Decimal
  | .int n => .ofInt n
  | .float x => .ofBinary64 x
  | .decimal x => x

def isNaN : Number → Bool
  | .float (.nan _) => true
  | .decimal (.nan _) => true
  | _ => false

def equal (a b : Number) : Bool :=
  if a.isNaN || b.isNaN then a = b else a.toDecimal.normal = b.toDecimal.normal

end Number

namespace Value

def number? : Value → Option Number
  | .bool b => some (.int (if b then 1 else 0))
  | .int n => some (.int n)
  | .float x => some (.float x)
  | .decimal x => some (.decimal x)
  | _ => none

def isNaN (v : Value) : Bool := v.number?.any Number.isNaN

end Value

end Conform
