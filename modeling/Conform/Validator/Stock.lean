import Conform.Validator.Basic
import Conform.Value.Class
import Conform.Value.Copy
import Conform.Value.Text

namespace Conform.Validator

def testing (p : Value → Bool) (label : String) : Validator := .test (fun v => some (p v)) label

def isBoolean (b : Bool) : Value → Bool
  | .bool c => b == c
  | _ => false

def isInteger (v : Value) : Bool := v.kind = .int

def isNumber (v : Value) : Bool := v.kind = .int || v.kind = .float

def boolean : Validator := testing (Class.has .bool) "a boolean"

def integer : Validator := testing isInteger "an integer"

def number : Validator := testing isNumber "a number"

def string : Validator := testing (Class.has .str) "a string"

def null : Validator := testing (Class.has .null) "null"

def date : Validator := testing (Class.has .date) "a date"

def undefined : Validator := testing Value.isUndefined "undefined"

def onlyTrue : Validator := testing (isBoolean true) "true"

def onlyFalse : Validator := testing (isBoolean false) "false"

def unknown : Validator := testing (fun _ => true) "anything"

def instanceOf (c : Class) : Validator := testing c.has ("an instance of " ++ c.name)

def ofClass : Class → Validator
  | .bool => boolean
  | .int => integer
  | .float => number
  | .str => string
  | .null => null
  | .date => date
  | c => instanceOf c

def stringLiteral (s : String) : Validator :=
  testing (fun v => v.kind = .str && v.equal (.str s)) ("\"" ++ s ++ "\"")

def numberLiteral (n : Value) : Validator := testing (fun v => isNumber v && v.equals n) n.text

/-- A value of the exact kind of the literal and equal to it; integers and binary floating point
numbers count as one kind. -/
def literal (l : Value) : Validator :=
  match l with
  | .bool true => onlyTrue
  | .bool false => onlyFalse
  | .null => null
  | .str s => stringLiteral s
  | .int _ | .float _ => numberLiteral l
  | _ => testing (fun v => v.kind = l.kind && v.equals l) l.literal

def copyOf (c : Value) : UserFunction := fun _ _ =>
  match c.copy? with
  | some copy => pure copy
  | none => .raise .notCopyable

def optional (v : Validator) : Validator := .union [undefined, v]

def nullable (v : Validator) : Validator := .union [v, null]

def withDefault (d : Value) (v : Validator) : Validator := .union [v, .map undefined (copyOf d)]

end Conform.Validator
