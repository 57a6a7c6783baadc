import Conform.Validator.Run
import Conform.Display.Render

namespace Conform

def Trace.insist (o : Display.Options) (t : Trace α) : Trace α :=
  match t.outcome with
  | .rejected d =>
    ⟨t.log ++ [⟨d.path⟩],
      .raised (((Display.render? Json.room o 0 d).map (Fault.rejection d)).getD (.unrendered d))⟩
  | _ => t

/-- How many names may be looked up one inside the other. Guarded definitions need as many as the
data is deep, the rest is for chains of names and for data inside a JSON text. -/
def lookups (v : Value) : Nat := v.depth + 20000

def check (defs : Definitions) (o : Display.Options) (s : Schema) : Checker := fun v =>
  match s.elaborate with
  | .ok w => w.run (defs.resolve o (lookups v)) o v
  | .error e => .raise (.schema e)

def validate (defs : Definitions) (o : Display.Options) (s : Schema) : Checker := fun v =>
  (check defs o s v).insist o

inductive Report
  | accepted (value : Value)
  | rejected (diagnostic : Diagnostic) (text : String)
  | failed (fault : Fault)

def Outcome.report (o : Display.Options) : Outcome Value → Report
  | .done v => .accepted v
  | .rejected d =>
    ((Display.render? Json.room o 0 d).map (Report.rejected d)).getD (.failed (.unrendered d))
  | .raised f => .failed f

end Conform
