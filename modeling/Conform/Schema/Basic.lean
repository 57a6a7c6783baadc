import Conform.Validator.Stock

namespace Conform

inductive Schema
  | validator (v : Validator)
  | ofClass (c : Class)
  | function (f : UserFunction)
  | dict (fields : List (Value × Schema))
  | list (items : List Schema)
  | value (v : Value)

namespace Schema

mutual

/-- The validator of a schema. Several items of a list are alternatives. The first error from the
left is the one reported. -/
def elaborate : Schema → Except SchemaError Validator
  | .validator v => .ok v
  | .ofClass c => .ok (.ofClass c)
  | .function f => .ok (.function f)
  | .dict fs => (elaborateFields fs).map Validator.dict
  | .list [] => .error .emptyList
  | .list [s] => (elaborate s).map Validator.list
  | .list ss => (elaborateAll ss).map fun vs => .list (.union vs)
  | .value (.again _) => .error .endless
  | .value v => .error (.notConvertible v.kind)
termination_by structural s => s

def elaborateAll : List Schema → Except SchemaError (List Validator)
  | [] => .ok []
  | s :: ss => do
    let v ← elaborate s
    let vs ← elaborateAll ss
    return v :: vs
termination_by structural ss => ss

def elaborateFields : List (Value × Schema) → Except SchemaError (List (Value × Validator))
  | [] => .ok []
  | (k, s) :: fs => do
    let v ← elaborate s
    let vs ← elaborateFields fs
    return (k, v) :: vs
termination_by structural fs => fs

end

mutual

def ofValueVia (refer : List Nat → Nat → Schema) (around : List Nat) : Value → Schema
  | .dict es => .dict (ofEntriesVia refer around es)
  | .list xs => .list (ofItemsVia refer around xs)
  | .cyclic _ nodes n =>
    Nat.repeat (fun refer around n =>
      if n ∈ around then .value (.again n) else ofNodeVia refer (n :: around) nodes n)
      (nodes.length + 1) (fun _ n => .value (.again n)) [] n
  | .again n => refer around n
  | v => .value v
termination_by structural v => v

def ofItemsVia (refer : List Nat → Nat → Schema) (around : List Nat) : List Value → List Schema
  | [] => []
  | x :: xs => ofValueVia refer around x :: ofItemsVia refer around xs
termination_by structural xs => xs

def ofEntriesVia (refer : List Nat → Nat → Schema) (around : List Nat) :
    List (Value × Value) → List (Value × Schema)
  | [] => []
  | (k, v) :: es => (k, ofValueVia refer around v) :: ofEntriesVia refer around es
termination_by structural es => es

def ofNodeVia (refer : List Nat → Nat → Schema) (around : List Nat) : List Value → Nat → Schema
  | [], n => .value (.again n)
  | v :: _, 0 => ofValueVia refer around v
  | _ :: vs, n + 1 => ofNodeVia refer around vs n
termination_by structural vs => vs

end

def ofValue (v : Value) : Schema := ofValueVia (fun _ n => .value (.again n)) [] v

end Schema

end Conform
