import Conform.Proofs.Oversized
import Conform.Proofs.Serving
import Conform.Validator.Stock
import Conform.Validate

namespace Conform

namespace Validator

/-- Built without functions, models and validators that do not say how they check; the only function
there is copies a default that can be copied. The names are those that lazy validators refer to. -/
inductive Declarative (names : Set String) : Validator → Prop
  | test (p : Value → Option Bool) (l : String) : Declarative names (.test p l)
  | json : Declarative names .json
  | constant (v : Value) : Declarative names (.constant v)
  | list {c : Validator} (h : Declarative names c) : Declarative names (.list c)
  | dict {fs : List (Value × Validator)} (h : ∀ f ∈ fs, Declarative names f.2) :
      Declarative names (.dict fs)
  | snakeDict {fs : List (Value × Validator)} (hk : ∀ f ∈ fs, ∃ name, f.1 = .str name)
      (h : ∀ f ∈ fs, Declarative names f.2) : Declarative names (.snakeDict fs)
  | record {c : Validator} (h : Declarative names c) : Declarative names (.record c)
  | union {cs : List Validator} (h : ∀ c ∈ cs, Declarative names c) : Declarative names (.union cs)
  | intersection {cs : List Validator} (h : ∀ c ∈ cs, Declarative names c) :
      Declarative names (.intersection cs)
  | label {c : Validator} (name : String) (h : Declarative names c) :
      Declarative names (.label name c)
  | lazy {name : String} (h : name ∈ names) : Declarative names (.lazy name)
  | andThen {c d : Validator} (h : Declarative names c) (h' : Declarative names d) :
      Declarative names (.andThen c d)
  | copied {d : Value} (h : d.copy?.isSome = true) :
      Declarative names (.map undefined (copyOf d))

namespace Declarative

variable {names : Set String} {resolve : String → Checker} {o : Display.Options} {c d : Validator}
  {v w : Value} {e : Fault}

theorem withDefault {a : Value} (ha : a.copy?.isSome = true) (h : c.Declarative names) :
    (Validator.withDefault a c).Declarative names :=
  .union (List.forall_mem_cons.mpr ⟨h, List.forall_mem_singleton.mpr (.copied ha)⟩)

end Declarative

end Validator

namespace Definitions

open Validator

variable {defs : Definitions} {o : Display.Options} {names : Set String} {c b : Validator}
  {n m : Nat} {v x : Value} {e : Fault}

end Definitions

end Conform
