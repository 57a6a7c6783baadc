import Conform.Proofs.Serving
import Conform.Proofs.Verdict
import Conform.Validator.Stock
import Mathlib.Logic.Basic

/-!
Which values a validator accepts, said without regard to how it runs. The parts of a validator
count as sets: to reorder them anywhere changes nothing about what is accepted.
-/

namespace Conform.Validator

section Acceptance

variable {c : Validator} {cs : List Validator} {fs : List (Value × Validator)} {v : Value}

end Acceptance

inductive Plain : Validator → Prop
  | test (p : Value → Option Bool) (l : String) : Plain (.test p l)
  | constant (v : Value) : Plain (.constant v)
  | list {c : Validator} (h : Plain c) : Plain (.list c)
  | dict {fs : List (Value × Validator)} (h : ∀ f ∈ fs, Plain f.2) : Plain (.dict fs)
  | snakeDict {fs : List (Value × Validator)} (hn : ∀ f ∈ fs, ∃ name, f.1 = .str name)
      (h : ∀ f ∈ fs, Plain f.2) : Plain (.snakeDict fs)
  | record {c : Validator} (h : Plain c) : Plain (.record c)
  | union {cs : List Validator} (h : ∀ c ∈ cs, Plain c) : Plain (.union cs)
  | intersection {cs : List Validator} (h : ∀ c ∈ cs, Plain c) : Plain (.intersection cs)
  | label {c : Validator} (name : String) (h : Plain c) : Plain (.label name c)
  | map {c : Validator} {f : UserFunction} (h : Plain c)
      (hf : ∀ o v d, (f o v).outcome ≠ .rejected d) : Plain (.map c f)

namespace Plain

variable {resolve : String → Checker} {o : Display.Options} {c d : Validator} {v w : Value}

end Plain

/-- The second validator is the first with the choices of unions, the parts of intersections and the
fields of dicts in another order, anywhere in it. -/
inductive Rearranged : Validator → Validator → Prop
  | refl (c : Validator) : Rearranged c c
  | list {c d : Validator} (h : Rearranged c d) : Rearranged (.list c) (.list d)
  | dict {ps : List (Value × Validator × Validator)} {gs : List (Value × Validator)}
      (h : ∀ p ∈ ps, Rearranged p.2.1 p.2.2) (hp : (ps.map fun p => (p.1, p.2.2)).Perm gs) :
      Rearranged (.dict (ps.map fun p => (p.1, p.2.1))) (.dict gs)
  | snakeDict {ps : List (Value × Validator × Validator)} {gs : List (Value × Validator)}
      (h : ∀ p ∈ ps, Rearranged p.2.1 p.2.2) (hp : (ps.map fun p => (p.1, p.2.2)).Perm gs) :
      Rearranged (.snakeDict (ps.map fun p => (p.1, p.2.1))) (.snakeDict gs)
  | record {c d : Validator} (h : Rearranged c d) : Rearranged (.record c) (.record d)
  | union {ps : List (Validator × Validator)} {ds : List Validator}
      (h : ∀ p ∈ ps, Rearranged p.1 p.2) (hp : (ps.map Prod.snd).Perm ds) :
      Rearranged (.union (ps.map Prod.fst)) (.union ds)
  | intersection {ps : List (Validator × Validator)} {ds : List Validator}
      (h : ∀ p ∈ ps, Rearranged p.1 p.2) (hp : (ps.map Prod.snd).Perm ds) :
      Rearranged (.intersection (ps.map Prod.fst)) (.intersection ds)
  | label {c d : Validator} (name : String) (h : Rearranged c d) :
      Rearranged (.label name c) (.label name d)
  | map {c d : Validator} (f : UserFunction) (h : Rearranged c d) :
      Rearranged (.map c f) (.map d f)

namespace Rearranged

variable {c d : Validator}

theorem forall_mem {ι α : Type} {P : α → Prop} {f g : ι → α} {is : List ι} {as : List α}
    (hp : (is.map g).Perm as) (h : ∀ i ∈ is, P (f i) → P (g i)) (hf : ∀ a ∈ is.map f, P a) :
    ∀ a ∈ as, P a := by
  intro a ha
  obtain ⟨i, hi, rfl⟩ := List.mem_map.mp (hp.mem_iff.mpr ha)
  exact h i hi (hf _ (List.mem_map_of_mem hi))

theorem plain (h : c.Rearranged d) (hc : c.Plain) : d.Plain := by
  induction h with
  | refl => exact hc
  | list _ ih =>
    cases hc with
    | list hc => exact .list (ih hc)
  | dict _ hp ih =>
    cases hc with
    | dict hc => exact .dict (forall_mem hp ih hc)
  | snakeDict _ hp ih =>
    cases hc with
    | snakeDict hn hc =>
      have hn' := forall_mem (f := fun p => (p.1, p.2.1)) hp (fun _ _ h => h) hn
      exact .snakeDict hn' (forall_mem hp ih hc)
  | record _ ih =>
    cases hc with
    | record hc => exact .record (ih hc)
  | union _ hp ih =>
    cases hc with
    | union hc => exact .union (forall_mem hp ih hc)
  | intersection _ hp ih =>
    cases hc with
    | intersection hc => exact .intersection (forall_mem hp ih hc)
  | label name _ ih =>
    cases hc with
    | label _ hc => exact .label name (ih hc)
  | map f _ ih =>
    cases hc with
    | map hc hf => exact .map (ih hc) hf

end Rearranged

end Conform.Validator
