import Conform.Checker.Basic
import Conform.Display.Options
import Conform.Model.Basic

namespace Conform

abbrev UserFunction := Display.Options → Checker

inductive Validator
  | test (predicate : Value → Option Bool) (label : String)
  | function (f : UserFunction)
  | json
  | constant (v : Value)
  | list (item : Validator)
  | dict (fields : List (Value × Validator))
  | snakeDict (fields : List (Value × Validator))
  | record (values : Validator)
  | union (choices : List Validator)
  | intersection (parts : List Validator)
  | label (name : String) (inner : Validator)
  | lazy (name : String)
  | map (inner : Validator) (f : UserFunction)
  | andThen (first second : Validator)
  | model (m : Model)
  | bare

namespace Validator

def choices : Validator → List Validator
  | .union cs => cs
  | v => [v]

def parts : Validator → List Validator
  | .intersection ps => ps
  | v => [v]

end Validator

end Conform
