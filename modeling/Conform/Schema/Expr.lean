import Conform.Schema.Definitions

namespace Conform

inductive ModelName
  | model (m : Model)
  | ofClass (c : Class)
  | value (v : Value)

inductive Expr
  | schema (s : Schema)
  | ref (name : String)
  | model (m : ModelName)
  | numberLiteral (n : Value)
  | literal (l : Value)
  | plainDict (fields : List (Value × Expr))
  | plainList (items : List Expr)
  | list (item : Expr)
  | dict (fields : List (Value × Expr))
  | snakeDict (fields : List (Value × Expr))
  | record (values : Expr)
  | oneOf (choices : List Expr)
  | allOf (parts : List Expr)
  | or2 (a b : Expr)
  | or3 (a b c : Expr)
  | or4 (a b c d : Expr)
  | optional (e : Expr)
  | nullable (e : Expr)
  | withDefault (d : Value) (e : Expr)
  | label (name : String) (e : Expr)
  | labelled (e : Expr) (name : String)
  | transform (e : Expr) (f : UserFunction)
  | mapped (e : Expr) (f : UserFunction)
  | andThen (first second : Expr)
  | either (a b : Expr)
  | both (a b : Expr)

namespace ModelName

def validator : ModelName → Except SchemaError Validator
  | .model m => .ok (.model m)
  | .ofClass c => .error (.notModel c.literal)
  | .value v => .error (if v.hasText then .notModel v.literal else .integerTooLong)

end ModelName

namespace Schema

def union (ss : List Schema) : Except SchemaError Validator :=
  match ss with
  | [] => .error .emptyUnion
  | _ => (elaborateAll ss).map Validator.union

def intersection (ss : List Schema) : Except SchemaError Validator :=
  match ss with
  | [] => .error .emptyIntersection
  | _ => (elaborateAll ss).map Validator.intersection

def validator? : Schema → Except SchemaError Validator
  | .validator v => .ok v
  | _ => .error .notValidator

def unwrapped : Schema → Schema
  | .value (.view es) => ofValue (.dict es)
  | s => s

def either (a b : Schema) : Except SchemaError Validator := do
  match a, b with
  | .validator v, _ => return .union (v.choices ++ (← b.elaborate).choices)
  | _, .validator w => return .union ((← a.unwrapped.elaborate).choices ++ w.choices)
  | _, _ => .error .noOperands

def both (a b : Schema) : Except SchemaError Validator := do
  match a, b with
  | .validator v, _ => return .intersection (v.parts ++ (← b.elaborate).parts)
  | _, .validator w => return .intersection ((← a.elaborate).parts ++ w.parts)
  | _, _ => .error .noOperands

end Schema

namespace Expr

mutual

def build (defs : Definitions) : Expr → Except SchemaError Schema
  | .schema s => .ok s
  | .ref name => defs.find? name
  | .model m => m.validator.map Schema.validator
  | .numberLiteral n =>
    if n.hasText then .ok (.validator (.numberLiteral n)) else .error .integerTooLong
  | .literal l => if l.hasText then .ok (.validator (.literal l)) else .error .integerTooLong
  | .plainDict fs => (buildFields defs fs).map fun ss => .dict (Table.ofPairs ss)
  | .plainList es => (buildAll defs es).map Schema.list
  | .list e => do return .validator (.list (← (← build defs e).elaborate))
  | .dict fs => do
    return .validator (.dict (← Schema.elaborateFields (Table.ofPairs (← buildFields defs fs))))
  | .snakeDict fs => do
    return .validator
      (.snakeDict (← Schema.elaborateFields (Table.ofPairs (← buildFields defs fs))))
  | .record e => do return .validator (.record (← (← build defs e).elaborate))
  | .oneOf es => do return .validator (← Schema.union (← buildAll defs es))
  | .allOf es => do return .validator (← Schema.intersection (← buildAll defs es))
  | .or2 a b => do
    let a ← build defs a
    let b ← build defs b
    return .validator (← Schema.union [a, b])
  | .or3 a b c => do
    let a ← build defs a
    let b ← build defs b
    let c ← build defs c
    let inner ← Schema.union [b, c]
    return .validator (← Schema.union [a, .validator inner])
  | .or4 a b c d => do
    let a ← build defs a
    let b ← build defs b
    let c ← build defs c
    let d ← build defs d
    let left ← Schema.union [a, b]
    let right ← Schema.union [c, d]
    return .validator (← Schema.union [.validator left, .validator right])
  | .optional e => do return .validator (.optional (← (← build defs e).elaborate))
  | .nullable e => do return .validator (.nullable (← (← build defs e).elaborate))
  | .withDefault d e => do return .validator (.withDefault d (← (← build defs e).elaborate))
  | .label name e => do return .validator (.label name (← (← build defs e).elaborate))
  | .labelled e name => do return .validator (.label name (← (← build defs e).validator?))
  | .transform e f => do return .validator (.map (← (← build defs e).elaborate) f)
  | .mapped e f => do return .validator (.map (← (← build defs e).validator?) f)
  | .andThen first second => do
    let v ← (← build defs first).validator?
    let w ← (← build defs second).elaborate
    return .validator (.andThen v w)
  | .either a b => do
    let a ← build defs a
    let b ← build defs b
    return .validator (← a.either b)
  | .both a b => do
    let a ← build defs a
    let b ← build defs b
    return .validator (← a.both b)
termination_by structural e => e

def buildAll (defs : Definitions) : List Expr → Except SchemaError (List Schema)
  | [] => .ok []
  | e :: es => do
    let s ← build defs e
    let ss ← buildAll defs es
    return s :: ss
termination_by structural es => es

def buildFields (defs : Definitions) :
    List (Value × Expr) → Except SchemaError (List (Value × Schema))
  | [] => .ok []
  | (k, e) :: fs => do
    let s ← build defs e
    let ss ← buildFields defs fs
    return (k, s) :: ss
termination_by structural fs => fs

end

end Expr

namespace Definitions

def extend (defs : Definitions) : List (String × Expr) → Except SchemaError Definitions
  | [] => .ok defs
  | (name, e) :: rest => do
    let s ← e.build defs
    extend (defs.define name s) rest

end Definitions

end Conform
