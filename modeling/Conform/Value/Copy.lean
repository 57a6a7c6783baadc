import Conform.Value.Set

namespace Conform.Value

mutual

/-- A deep copy. A set is filled anew, which can change its order. A view inside the value prevents
the copy. -/
def copy? : Value → Option Value
  | .view _ => none
  | .object type i => some (.object type (.copied i none))
  | .list xs => (copyAll? xs).map .list
  | .tuple xs => (copyAll? xs).map .tuple
  | .set xs => (copyAll? xs).map fun ys => .set (arrange ys)
  | .dict es => (copyEntries? es).map .dict
  | .mapping type held refusal walked stop => do
    return .mapping type (← copyEntries? held) refusal (← copyEntries? walked) stop
  | .cyclic i nodes n => (copyAll? nodes).map fun copies => .cyclic (.copied i none) copies n
  | v => some v
termination_by structural v => v

def copyAll? : List Value → Option (List Value)
  | [] => some []
  | x :: xs => do
    let y ← copy? x
    let ys ← copyAll? xs
    return y :: ys
termination_by structural vs => vs

def copyEntries? : List (Value × Value) → Option (List (Value × Value))
  | [] => some []
  | (k, v) :: es => do
    let l ← copy? k
    let w ← copy? v
    let fs ← copyEntries? es
    return (l, w) :: fs
termination_by structural es => es

end

mutual

def settle (check : Nat) : Value → Value
  | .float (.nan i) => .float (.nan (i.settle check))
  | .decimal (.nan n) => .decimal (.nan { n with identity := n.identity.settle check })
  | .object type i => .object type (i.settle check)
  | .list xs => .list (settleAll check xs)
  | .tuple xs => .tuple (settleAll check xs)
  | .set xs => .set (settleAll check xs)
  | .dict es => .dict (settleEntries check es)
  | .view es => .view (settleEntries check es)
  | .mapping type held refusal walked stop =>
    .mapping type (settleEntries check held) refusal (settleEntries check walked) stop
  | .cyclic i nodes n => .cyclic (i.settle check) (settleAll check nodes) n
  | v => v
termination_by structural v => v

def settleAll (check : Nat) : List Value → List Value
  | [] => []
  | x :: xs => settle check x :: settleAll check xs
termination_by structural vs => vs

def settleEntries (check : Nat) : List (Value × Value) → List (Value × Value)
  | [] => []
  | (k, v) :: es => (settle check k, settle check v) :: settleEntries check es
termination_by structural es => es

end

end Conform.Value
