import Conform.Model.Basic
import Conform.Stock.IntegerReading
import Conform.Value.Arithmetic
import Conform.Value.Table

namespace Conform

mutual

inductive Shape
  | text
  | integer
  | listOf (item : Shape)
  | nullable (shape : Shape)
  | recordOf (record : RecordShape)

inductive FieldShape
  | mk (name : String) (shape : Shape) (default : Option Value)

inductive RecordShape
  | mk (type : String) (fields : List FieldShape)

end

def gather (parts : List (Except (List Issue) α)) : Except (List Issue) (List α) :=
  let issues := parts.flatMap fun
    | .error is => is
    | .ok _ => []
  if issues.isEmpty then
    .ok (parts.filterMap fun
      | .ok a => some a
      | .error _ => none)
  else .error issues

def Value.listItems? : Value → Option (List Value)
  | .set xs => some xs
  | .record type fs => (Value.record type fs).parts?
  | v => v.items?

def absentName : Value := .str "undefined"

def undecodable : String :=
  "Input should be a valid string, unable to parse raw data as a unicode string"

def issue (message : String) (v : Value) : List Issue := [⟨[], message, some v⟩]

def Issue.allUnder (s : Segment) : Except (List Issue) α → Except (List Issue) α
  | .ok a => .ok a
  | .error is => .error (is.map (Issue.under s))

mutual

def Shape.read : Shape → Value → Except (List Issue) Value
  | .text, v =>
    match v with
    | .str s => .ok (.str s)
    | .bytes bs =>
      match IntegerReading.textOf? bs with
      | some s => .ok (.str s)
      | none => .error (issue undecodable v)
    | .undefined => .ok absentName
    | _ => .error (issue "Input should be a valid string" v)
  | .integer, v =>
    match v with
    | .undefined => .ok absentName
    | _ =>
      match IntegerReading.integerOf v with
      | .ok n => .ok (.int n)
      | .error e => .error (issue e.message v)
  | .listOf item, v =>
    match v.listItems? with
    | none => .error (issue "Input should be a valid list" v)
    | some xs =>
      (gather (xs.mapIdx fun n x => Issue.allUnder (.index n) (item.read x))).map Value.list
  | .nullable shape, v =>
    match v with
    | .null => .ok .null
    | _ => shape.read v
  | .recordOf model, v => model.read v
termination_by structural s => s

def FieldShape.read : FieldShape → Value → Except (List Issue) (String × Value)
  | .mk name shape default, input =>
    match input.entries?.bind (Table.lookup? · (.str name)), default with
    | some v, _ => (Issue.allUnder (.name name) (shape.read v)).map fun w => (name, w)
    | none, some d => .ok (name, d)
    | none, none => .error [⟨[.name name], "Field required", some input⟩]
termination_by structural f => f

def RecordShape.read : RecordShape → Value → Except (List Issue) Value
  | .mk type fields, v =>
    if v.kind = .record type then .ok v
    else if v.isMapping then
      (gather (RecordShape.readFields fields v)).map (Value.record type)
    else .error (issue ("Input should be a valid dictionary or instance of " ++ type) v)
termination_by structural m => m

def RecordShape.readFields : List FieldShape → Value → List (Except (List Issue) (String × Value))
  | [], _ => []
  | f :: fs, input => f.read input :: RecordShape.readFields fs input
termination_by structural fs => fs

end

namespace RecordShape

def name : RecordShape → String
  | .mk type _ => type

def user : RecordShape := .mk "User" [.mk "name" .text none, .mk "age" .integer none]

def team : RecordShape :=
  .mk "Team"
    [.mk "title" .text none,
      .mk "members" (.listOf (.recordOf user)) none,
      .mk "lead" (.nullable (.recordOf user)) (some .null)]

def model (s : RecordShape) : Model := ⟨s.name, fun _ v => ⟨[], .ok (s.read v)⟩⟩

def model? (name : String) : Option Model :=
  ([user, team].find? (·.name == name)).map RecordShape.model

end RecordShape

end Conform
