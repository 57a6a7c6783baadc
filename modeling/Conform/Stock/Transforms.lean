import Conform.Validator.Stock
import Conform.Validate

namespace Conform.Transform

def ofArithmetic (r : Except ArithmeticError Value) : Trace Value :=
  match r with
  | .ok v => pure v
  | .error e => .raise (.arithmetic e)

def identity : UserFunction := fun _ v => pure v

def wrap : UserFunction := fun _ v => pure (.list [v])

def length : UserFunction := fun _ v =>
  match v.length? with
  | some n => pure (.int n)
  | none => .raise .wrongKind

def sum : UserFunction := fun _ v => ofArithmetic v.sum

def double : UserFunction := fun _ v => ofArithmetic v.double

def toUndefined : UserFunction := fun _ _ => pure .undefined

def toNull : UserFunction := fun _ _ => pure .null

def getA : UserFunction := fun _ v =>
  match v.held?, v.refusal? (.str "a") with
  | none, _ => .raise .wrongKind
  | some _, some e => .raise (.foreign e)
  | some es, none =>
    match Table.lookup? es (.str "a") with
    | some w => pure w
    | none => .raise .missingKey

def raiseValue : UserFunction := fun _ _ => .raise .badValue

def raiseKey : UserFunction := fun _ _ => .raise .missingKey

def raiseRejection : UserFunction := fun o =>
  validate [] o (.validator (.label "inner" Validator.null))

end Conform.Transform
