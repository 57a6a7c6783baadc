import Conform.Schema.Definitions
import Conform.Json.Reader

namespace Conform

namespace Checker

def json : Checker := fun v =>
  match v with
  | .str s =>
    match Json.ofText s with
    | .ok w => pure w
    | .error .malformed => .reject (.simple v "valid JSON")
    | .error .integerTooLong => .raise .integerTooLong
  | _ => .reject (.label "JSON string" (.simple v "a string"))

def model (m : Model) (o : Display.Options) : Checker := fun v =>
  match (m.read o v).result with
  | .ok (.ok w) => ⟨(m.read o v).log, .done w⟩
  | .ok (.error issues) =>
    ⟨(m.read o v).log, .rejected (.label ("a valid " ++ m.name) (.ofIssues issues v))⟩
  | .error e => ⟨(m.read o v).log, .raised e⟩

end Checker

namespace Validator

mutual

def run (resolve : String → Checker) (o : Display.Options) : Validator → Checker
  | .test p l => .test p l
  | .function f => f o
  | .json => .json
  | .constant v => .constant v
  | .list item => .list (run resolve o item)
  | .dict fs => .dict (runFields resolve o fs)
  | .snakeDict fs => .snakeDict (runFields resolve o fs)
  | .record v => .record (run resolve o v)
  | .union vs => .union (runAll resolve o vs)
  | .intersection vs => .intersection (runAll resolve o vs)
  | .label name v => .label name (run resolve o v)
  | .lazy name => resolve name
  | .map v f => .map (run resolve o v) (f o)
  | .andThen v w => .andThen (run resolve o v) (run resolve o w)
  | .model m => .model m o
  | .bare => fun _ => .raise .notImplemented
termination_by structural v => v

def runAll (resolve : String → Checker) (o : Display.Options) : List Validator → List Checker
  | [] => []
  | v :: vs => run resolve o v :: runAll resolve o vs
termination_by structural vs => vs

def runFields (resolve : String → Checker) (o : Display.Options) :
    List (Value × Validator) → Table Checker
  | [] => []
  | (k, v) :: fs => (k, run resolve o v) :: runFields resolve o fs
termination_by structural fs => fs

end

end Validator

namespace Definitions

def resolve (defs : Definitions) (o : Display.Options) : Nat → String → Checker
  | 0, _ => fun _ => .raise .unfinished
  | n + 1, name => fun v =>
    match defs.find? name >>= Schema.elaborate with
    | .ok w => w.run (resolve defs o n) o v
    | .error e => .raise (.schema e)

end Definitions

end Conform
