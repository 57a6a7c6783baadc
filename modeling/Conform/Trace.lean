import Conform.Fault

namespace Conform

inductive Outcome (α : Type)
  | done (value : α)
  | rejected (diagnostic : Diagnostic)
  | raised (fault : Fault)

structure LogRecord where
  path : List String
  deriving DecidableEq, Repr

def LogRecord.level (_ : LogRecord) : String := "DEBUG"

def LogRecord.text (r : LogRecord) : String :=
  let joined := ".".intercalate r.path
  "Validation failed at " ++ if joined.isEmpty then "<root>" else joined

structure Trace (α : Type) where
  log : List LogRecord
  outcome : Outcome α

namespace Trace

def reject (d : Diagnostic) : Trace α := ⟨[], .rejected d⟩

def raise (f : Fault) : Trace α := ⟨[], .raised f⟩

def after (log : List LogRecord) (t : Trace α) : Trace α := ⟨log ++ t.log, t.outcome⟩

def bind (t : Trace α) (f : α → Trace β) : Trace β :=
  match t.outcome with
  | .done a => (f a).after t.log
  | .rejected d => ⟨t.log, .rejected d⟩
  | .raised e => ⟨t.log, .raised e⟩

instance : Monad Trace where
  pure a := ⟨[], .done a⟩
  bind := bind

def orElse (t : Trace α) (f : Diagnostic → Trace α) : Trace α :=
  match t.outcome with
  | .rejected d => (f d).after t.log
  | _ => t

def mapRejection (f : Diagnostic → Diagnostic) (t : Trace α) : Trace α :=
  match t.outcome with
  | .rejected d => ⟨t.log, .rejected (f d)⟩
  | _ => t

def under (segment : String) (t : Trace α) : Trace α := t.mapRejection (Diagnostic.under segment)

def below (k : Value) (t : Trace α) : Trace α :=
  if k.hasText then t.under k.text
  else
    match t.outcome with
    | .rejected _ => ⟨t.log, .raised .noText⟩
    | _ => t

def attempt (t : Trace α) : Trace (Except Diagnostic α) :=
  match t.outcome with
  | .done a => ⟨t.log, .done (.ok a)⟩
  | .rejected d => ⟨t.log, .done (.error d)⟩
  | .raised e => ⟨t.log, .raised e⟩

end Trace

end Conform
