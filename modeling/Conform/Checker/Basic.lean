import Conform.Trace
import Conform.Diagnostic.Merge
import Conform.Value.Table
import Conform.Value.Text
import Conform.Text.SnakeCase

/-!
Checkers narrow a value or reject it. Each combinator here is what one kind of validator does, given
what its parts do.
-/

namespace Conform

abbrev Checker := Value → Trace Value

namespace Checker

def test (predicate : Value → Option Bool) (label : String) : Checker := fun v =>
  if predicate v = some true then pure v else .reject (.simple v label)

def constant (c : Value) : Checker := fun _ => pure c

def items (item : Checker) : Nat → List Value → Trace (List Value)
  | _, [] => pure []
  | n, x :: xs => do
    let y ← if x.isUndefined then pure x else (item x).under (toString n)
    let ys ← items item (n + 1) xs
    return y :: ys

def list (item : Checker) : Checker := fun v =>
  match v.items? with
  | none => .reject (.simple v "an array")
  | some xs => .list <$> items item 0 xs

def addEntry (k v : Value) (es : Table Value) : Table Value :=
  if v.isUndefined then es else (k, v) :: es

def lookup (v k : Value) : Trace Value :=
  match v.refusal? k with
  | some e => .raise (.foreign e)
  | none => pure (v.field k)

def onField (c : Checker) (k : Value) : Checker := fun v => lookup v k >>= c

def fields (v : Value) : Table Checker → Trace (Table Value)
  | [] => pure []
  | (k, c) :: fs => do
    let y ← (c.onField k v).below k
    let es ← fields v fs
    return addEntry k y es

def dict (fs : Table Checker) : Checker := fun v =>
  if v.isMapping then .dict <$> fields v fs else .reject (.simple v "an object")

def entries (c : Checker) : Table Value → Trace (Table Value)
  | [] => pure []
  | (k, v) :: es => do
    let y ← (c v).below k
    let ys ← entries c es
    return (k, y) :: ys

def finish (v : Value) : Trace Unit :=
  match v.stop? with
  | some e => .raise (.foreign e)
  | none => pure ()

def record (c : Checker) : Checker := fun v =>
  match v.entries? with
  | none => .reject (.simple v "an object")
  | some es => do
    let ys ← entries c es
    finish v
    return .dict ys

def firstOf (v : Value) : Diagnostic → List Checker → Trace Value
  | d, [] => .reject d
  | d, c :: cs => (c v).orElse fun e => firstOf v (d.combine e) cs

def union (cs : List Checker) : Checker := fun v => firstOf v (.empty v) cs

def allOf (v : Value) : List Checker → Trace Unit
  | [] => pure ()
  | c :: cs => do
    let _ ← c v
    allOf v cs

def intersection (cs : List Checker) : Checker := fun v => do
  allOf v cs
  return v

def label (name : String) (c : Checker) : Checker := fun v =>
  (c v).mapRejection (Diagnostic.label name)

def map (c : Checker) (f : Value → Trace Value) : Checker := fun v => c v >>= f

def andThen (first second : Checker) : Checker := fun v => first v >>= second

abbrev FieldResult := Value × Except Diagnostic Value

def fieldLabel (name : String) : String := "a valid \x27" ++ name ++ "\x27 field"

def snakeFields (v : Value) : Table Checker → Trace (List FieldResult)
  | [] => pure []
  | (.str name, c) :: fs => do
    let snake := Text.snakeCase name
    let result ← ((c.onField (.str snake) v).mapRejection fun d =>
      .label (fieldLabel snake) (d.under snake)).attempt
    let results ← snakeFields v fs
    return (.str name, result) :: results
  | _ :: _ => .raise .wrongKind

def failures (results : List FieldResult) : List Diagnostic :=
  results.filterMap fun
    | (_, .error d) => some d
    | (_, .ok _) => none

def narrowed (results : List FieldResult) : Table Value :=
  results.foldr (fun r es =>
    match r.2 with
    | .ok y => addEntry r.1 y es
    | .error _ => es) []

/-- All failures are reported. What is no mapping is read as an empty one. -/
def snakeDict (fs : Table Checker) : Checker := fun v => do
  let results ← snakeFields v fs
  if (failures results).isEmpty then return .dict (narrowed results)
  else .reject ((failures results).foldl Diagnostic.combine (.empty v))

end Checker

end Conform
