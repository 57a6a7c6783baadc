import Conform.Diagnostic.Basic
import Conform.Value.Arithmetic
import Conform.Value.Text

namespace Conform

inductive SchemaError
  | notConvertible (kind : Kind)
  | emptyList
  | emptyUnion
  | emptyIntersection
  | notModel (shown : String)
  | notValidator
  | noOperands
  | undefinedName (name : String)
  | endless
  | integerTooLong
  deriving DecidableEq, Repr

def SchemaError.message? : SchemaError → Option String
  | .notConvertible kind => some ("Cannot convert " ++ kind.name ++ " to validator")
  | .emptyList => some "Empty list cannot be converted to validator"
  | .emptyUnion => some "A union needs at least one choice"
  | .emptyIntersection => some "An intersection needs at least one part"
  | .notModel shown => some ("Model() requires a pydantic BaseModel, got " ++ shown)
  | .notValidator | .noOperands | .undefinedName _ | .endless | .integerTooLong => none

inductive Fault
  | rejection (diagnostic : Diagnostic) (text : String)
  | schema (error : SchemaError)
  | arithmetic (error : ArithmeticError)
  | badValue
  | missingKey
  | wrongKind
  | integerTooLong
  | noText
  /-- A mapping of a foreign type ends a lookup or a walk with an error. -/
  | foreign (name : String)
  /-- A received value is nested too deep to be written. -/
  | unrendered (diagnostic : Diagnostic)
  | notCopyable
  | notImplemented
  | unreachable (v : Value)
  | unfinished

def Fault.message? : Fault → Option String
  | .rejection _ text => some text
  | .schema error => error.message?
  | .unreachable v => some ("Unreachable code executed: " ++ v.literal)
  | _ => none

def Fault.atUnreachable (v : Value) : Fault := if v.hasText then .unreachable v else .noText

end Conform
