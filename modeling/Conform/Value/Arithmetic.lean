import Conform.Value.Number

namespace Conform

inductive ArithmeticError
  | wrongKind
  | overflow
  | decimalSum (e : Decimal.SumError)
  deriving DecidableEq, Repr

namespace Number

def asBinary64 : Number → Except ArithmeticError Binary64
  | .float x => .ok x
  | .int n => match Binary64.ofInt? n with
    | some x => .ok x
    | none => .error .overflow
  | .decimal _ => .error .wrongKind

def add (a b : Number) : Except ArithmeticError Number := do
  match a, b with
  | .int m, .int n => return .int (m + n)
  | .float _, _ | _, .float _ => return .float ((← a.asBinary64) + (← b.asBinary64))
  | _, _ =>
    match a.toDecimal.add b.toDecimal with
    | .ok x => return .decimal x
    | .error e => throw (.decimalSum e)

def toValue : Number → Value
  | .int n => .int n
  | .float x => .float x
  | .decimal x => .decimal x

end Number

namespace Value

def length? (v : Value) : Option Nat :=
  match v.unrolled with
  | .str s => some s.length
  | .bytes bs => some bs.length
  | .list xs | .tuple xs | .set xs => some xs.length
  | .dict es | .view es | .mapping _ _ _ es _ => some es.length
  | _ => none

def isTruthy : Value → Bool
  | .undefined | .null => false
  | .bool b => b
  | .int n => n != 0
  | .float x => !x.isZero
  | .decimal x => !x.isZero
  | v => v.length? != some 0

def isPositive? : Value → Option Bool
  | .bool b => some b
  | .int n => some (0 < n)
  | .float x => some x.isPositive
  | .decimal (.nan _) => none
  | .decimal x => some x.isPositive
  | _ => none

def isEven? : Value → Option Bool
  | .bool b => some !b
  | .int n => some (n % 2 = 0)
  | .float x => some x.isEven
  | .decimal (.infinite _) => none
  | .decimal x => some x.isEven
  | _ => none

def parts? (v : Value) : Option (List Value) :=
  match v.unrolled with
  | .list xs | .tuple xs | .set xs => some xs
  | .dict es | .view es | .mapping _ _ _ es _ => some (es.map Prod.fst)
  | .str s => some (s.toList.map fun c => .str (String.singleton c))
  | .bytes bs => some (bs.map fun b => .int b.toNat)
  | .record _ fs => some (fs.map fun (k, v) => .tuple [.str k, v])
  | _ => none

def addNumbers (a b : Value) : Except ArithmeticError Value :=
  match a.number?, b.number? with
  | some m, some n => Number.toValue <$> m.add n
  | _, _ => .error .wrongKind

def sum (v : Value) : Except ArithmeticError Value :=
  match v.parts? with
  | some xs => xs.foldlM addNumbers (.int 0)
  | none => .error .wrongKind

def double (v : Value) : Except ArithmeticError Value :=
  match v.unrolled with
  | .str s => .ok (.str (s ++ s))
  | .bytes bs => .ok (.bytes (bs ++ bs))
  | .list xs => .ok (.list (xs ++ xs))
  | .tuple xs => .ok (.tuple (xs ++ xs))
  | v => addNumbers v v

mutual

def depth : Value → Nat
  | .list xs => 1 + depthAll xs
  | .tuple xs => 1 + depthAll xs
  | .dict es => 1 + depthEntries es
  | .view es => 1 + depthEntries es
  | .mapping _ held _ walked _ => 1 + max (depthEntries held) (depthEntries walked)
  | _ => 0
termination_by structural v => v

def depthAll : List Value → Nat
  | [] => 0
  | x :: xs => max (depth x) (depthAll xs)
termination_by structural vs => vs

def depthEntries : List (Value × Value) → Nat
  | [] => 0
  | (_, v) :: es => max (depth v) (depthEntries es)
termination_by structural es => es

end

end Value

end Conform
