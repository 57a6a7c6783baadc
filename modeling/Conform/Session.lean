import Conform.Schema.Expr
import Conform.Validate
import Conform.Diagnostic.Equality
import Conform.Value.Copy

/-!
Sessions: a list of diagnostics, the contexts of their display and the definitions, changed step by
step.
-/

namespace Conform

structure Session where
  diagnostics : List Diagnostic
  contexts : Display.Contexts
  definitions : Definitions

namespace Session

def start : Session := ⟨[], .start, []⟩

inductive Step
  | new (path : List String) (received : Value) (expectations : List (String × Option Int))
  | empty (received : Value)
  | simple (received : Value) (label : String)
  | label (name : String) (cause : Int)
  | under (index : Int) (segment : Value)
  | combine (a b : Int)
  | compare (a b : Int)
  | equal (a b : Int)
  | tree (index : Int)
  | display (index : Int) (depth : Int)
  | rejection (index : Int)
  | received (v : Value)
  | define (name : String) (e : Expr)
  | check (e : Expr) (v : Value)
  | validate (e : Expr) (v : Value)
  | enter (root : Option String) (limit : Option Int)
  | leave (error : Option Fault)
  | options

inductive Error
  | schema (e : SchemaError)
  | negativeLimit (e : Display.NegativeLimit)
  | noDiagnostic (index : Int)
  | fault (f : Fault)
  | incomparable (e : ComparisonError)
  | noContext

inductive Answer
  | pushed (index : Nat) (d : Diagnostic)
  | order (o : Ordering)
  | equal (b : Bool)
  | tree (d : Diagnostic)
  | text (s : String)
  | rejection (text : String)
  | defined (name : String)
  | checked (index : Nat) (report : Report)
  | validated (t : Trace Value)
  | options (o : Display.Options) (depth : Nat)
  | left (error : Option Fault) (o : Display.Options) (depth : Nat)

def options (s : Session) : Display.Options := s.contexts.current

def diagnostic (s : Session) (index : Int) : Except Error Diagnostic :=
  let place := if index < 0 then index + s.diagnostics.length else index
  if place < 0 then .error (.noDiagnostic index)
  else
    match s.diagnostics[place.toNat]? with
    | some d => .ok d
    | none => .error (.noDiagnostic index)

def orFault (text? : Option α) (f : Fault) : Except Error α :=
  match text? with
  | some text => .ok text
  | none => .error (.fault f)

def push (s : Session) (d : Diagnostic) : Session × Answer :=
  ({ s with diagnostics := s.diagnostics ++ [d] }, .pushed s.diagnostics.length d)

def expectation (s : Session) (label : String) (cause : Option Int) : Except Error Expectation :=
  match cause with
  | none => .ok ⟨label, none⟩
  | some index => (s.diagnostic index).map fun d => ⟨label, some d⟩

def build (s : Session) (e : Expr) : Except Error Schema :=
  match e.build s.definitions with
  | .ok schema => .ok schema
  | .error err => .error (.schema err)

def leave (s : Session) (error : Option Fault) : Except Error (Session × Option Fault) :=
  match s.contexts.leave? error with
  | some (c, passed) => .ok ({ s with contexts := c }, passed)
  | none => .error .noContext

/-- One step. After an error the session is as it was before. What a check has made is kept with the
index of its diagnostic, which no other check has. -/
def step (s : Session) : Step → Except Error (Session × Answer)
  | .new path received expectations => do
    let es ← expectations.mapM fun (label, cause) => s.expectation label cause
    return s.push ⟨path, received, es⟩
  | .empty received => return s.push (.empty received)
  | .simple received label => return s.push (.simple received label)
  | .label name cause => return s.push (.label name (← s.diagnostic cause))
  | .under index segment => do
    let d ← s.diagnostic index
    return s.push (d.under (← orFault segment.text? .noText))
  | .combine a b => return s.push ((← s.diagnostic a).combine (← s.diagnostic b))
  | .compare a b => do
    let p := (← s.diagnostic a).path
    let q := (← s.diagnostic b).path
    return (s, .order (comparePaths p q))
  | .equal a b => do
    let d ← s.diagnostic a
    let e ← s.diagnostic b
    match d.comparisonError? e with
    | some err => throw (.incomparable err)
    | none => return (s, .equal (d.equal e))
  | .tree index => return (s, .tree (← s.diagnostic index))
  | .display index depth => do
    let d ← s.diagnostic index
    return (s, .text (← orFault (Display.render? Json.room s.options depth d) (.unrendered d)))
  | .rejection index => do
    let d ← s.diagnostic index
    return (s, .rejection (← orFault (Display.render? Json.room s.options 0 d) (.unrendered d)))
  | .received v =>
    return (s, .text (← orFault (Display.received? Json.room s.options v) (.unrendered (.empty v))))
  | .define name e => do
    let schema ← s.build e
    return ({ s with definitions := s.definitions.define name schema }, .defined name)
  | .check e v => do
    let schema ← s.build e
    let outcome := (Conform.check s.definitions s.options schema v).outcome
    let after := match outcome with
      | .rejected d => (s.push (d.mapReceived (·.settle s.diagnostics.length))).1
      | _ => s
    return (after, .checked s.diagnostics.length (outcome.report s.options))
  | .validate e v => do
    let schema ← s.build e
    return (s, .validated (Conform.validate s.definitions s.options schema v))
  | .enter root limit =>
    match s.contexts.enter root limit with
    | .ok c => return ({ s with contexts := c }, .options c.current c.depth)
    | .error e => .error (.negativeLimit e)
  | .leave error => do
    let (s, passed) ← s.leave error
    return (s, .left passed s.options s.contexts.depth)
  | .options => return (s, .options s.options s.contexts.depth)

def run (s : Session) : List Step → List (Except Error Answer)
  | [] => []
  | step :: steps =>
    match s.step step with
    | .ok (s', answer) => .ok answer :: run s' steps
    | .error e => .error e :: run s steps

end Session

end Conform
