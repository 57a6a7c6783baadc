import Conform.Proofs.Serving
import Conform.Proofs.Records
import Conform.Stock.Models
import Conform.Stock.Transforms

/-!
Insisting on a check. What the check accepts is the result, what it rejects becomes a fault with the
text of the report, and a fault of the check stays as it is; among those faults are the rejections
by functions that insist themselves, however deep the check comes to them. The log tells of the one
rejection that the whole run ends with.
-/

namespace Conform

namespace Validator

variable {resolve : String → Checker} {o : Display.Options} {c : Validator} {v : Value} {e : Fault}

end Validator

namespace Definitions

open Validator

variable {defs : Definitions} {o : Display.Options} {n : Nat} {c : Validator} {v : Value}

variable (defs) in
def Holds (s : Schema) (f : UserFunction) : Prop :=
  ∃ c : Validator, (s.elaborate = .ok c ∨ ∃ name, (defs.find? name >>= Schema.elaborate) = .ok c) ∧
    f ∈ c.functions

end Definitions

/-- What a function does that catches no fault and writes nothing into the log: it computes, with
faults of its own that are no rejections, and it checks data and insists on checks by schemas whose
functions are like that. It may look at the verdict of a check. -/
inductive Trace.Candid : {α : Type} → Trace α → Prop
  | own {α : Type} {t : Trace α} (hlog : t.log = []) (hf : t.outcome.records = []) : Candid t
  | bind {α β : Type} {t : Trace α} {f : α → Trace β} (h : Candid t)
      (hf : ∀ a, t.outcome = .done a → Candid (f a)) : Candid (t >>= f)
  | attempt {α : Type} {t : Trace α} (h : Candid t) : Candid t.attempt
  | check {defs : Definitions} {s : Schema} (h : ∀ f, defs.Holds s f → ∀ o v, Candid (f o v))
      (o : Display.Options) (v : Value) : Candid (check defs o s v)
  | validate {defs : Definitions} {s : Schema} (h : ∀ f, defs.Holds s f → ∀ o v, Candid (f o v))
      (o : Display.Options) (v : Value) : Candid (validate defs o s v)

namespace Trace.Candid

theorem copyOf (d : Value) (o : Display.Options) (v : Value) :
    (Validator.copyOf d o v).Candid := by
  unfold Validator.copyOf
  split
  · exact .own rfl rfl
  · exact .own rfl rfl

theorem model {m : Model} (h : ∀ o v, ∃ r, m.read o v = ⟨[], .ok r⟩) (o : Display.Options)
    (v : Value) : (Checker.model m o v).Candid := by
  obtain ⟨w | is, h⟩ := h o v
  · exact .own (by rw [Checker.model, h]) (by rw [Checker.model, h]; rfl)
  · exact .own (by rw [Checker.model, h]) (by rw [Checker.model, h]; rfl)

theorem raiseRejection (o : Display.Options) (v : Value) :
    (Transform.raiseRejection o v).Candid := by
  apply Trace.Candid.validate
  rintro f ⟨c, hc | ⟨name, hname⟩, hf⟩
  · cases hc
    contradiction
  · cases hname

end Trace.Candid

namespace Definitions

variable (defs : Definitions) (o : Display.Options) (s : Schema) (v : Value)

end Definitions

end Conform
