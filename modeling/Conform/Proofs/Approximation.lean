import Conform.Proofs.Simulation

namespace Conform

def Trace.Approx {α : Type} (t u : Trace α) : Prop := (∃ f, t.outcome = .raised f) ∨ t = u

namespace Trace

variable {α : Type} {t u : Trace α}

theorem approx_iff_like : t.Approx u ↔ t.Like True Eq Eq u := by
  constructor
  · rintro (⟨f, hf⟩ | rfl)
    · obtain ⟨log, outcome⟩ := t
      cases hf
      exact .cut trivial log f u
    · exact .refl .eq t
  · intro h
    cases h with
    | done h => exact .inr (h ▸ rfl)
    | rejected h => exact .inr (h ▸ rfl)
    | raised log f => exact .inr rfl
    | cut _ log f u => exact .inl ⟨f, rfl⟩

theorem Approx.eq_of_done {a : α} (h : t.Approx u) (ht : t.outcome = .done a) : t = u := by
  rcases h with ⟨f, hf⟩ | h
  · rw [hf] at ht
    contradiction
  · exact h

end Trace

def Checker.Approx (c c' : Checker) : Prop := ∀ v, (c v).Approx (c' v)

theorem Checker.approx_iff_like {c c' : Checker} : c.Approx c' ↔ c.Like True Eq c' :=
  forall_congr' fun _ => Trace.approx_iff_like

theorem Validator.run_approx {resolve resolve' : String → Checker}
    (h : ∀ name, (resolve name).Approx (resolve' name)) (o : Display.Options) (c : Validator) :
    (c.run resolve o).Approx (c.run resolve' o) := by
  have heq := ReportCongruence.eq
  rw [Checker.approx_iff_like]
  induction c with
  | list item ih => exact .list heq ih
  | dict fs ih =>
    rw [run_dict, run_dict]
    exact .dict heq ih
  | snakeDict fs ih =>
    rw [run_snakeDict, run_snakeDict]
    exact .snakeDict heq ih
  | record values ih => exact .record heq ih
  | union cs ih =>
    rw [run_union, run_union]
    exact .union heq ih
  | intersection ps ih =>
    rw [run_intersection, run_intersection]
    exact .intersection ih
  | label name inner ih => exact .label heq ih name
  | lazy name => exact Checker.approx_iff_like.mp (h name)
  | map inner f ih => exact .map heq ih (f o)
  | andThen first second ih ih' => exact .andThen ih ih'
  | _ => exact fun v => .refl heq _

namespace Definitions

variable (defs : Definitions) (o : Display.Options)

theorem resolve_approx {n m : Nat} (h : n ≤ m) (name : String) :
    (defs.resolve o n name).Approx (defs.resolve o m name) := by
  induction n generalizing m name with
  | zero => exact fun v => .inl ⟨_, rfl⟩
  | succ n ih =>
    obtain ⟨m, rfl⟩ : ∃ k, m = k + 1 := ⟨m - 1, by omega⟩
    intro v
    rw [resolve, resolve]
    split
    next w _ => exact w.run_approx (ih (Nat.le_of_succ_le_succ h)) o v
    next => exact .inr rfl

theorem run_done_of_le {c : Validator} {n m : Nat} {v w : Value} (h : n ≤ m)
    (hn : (c.run (defs.resolve o n) o v).outcome = .done w) :
    (c.run (defs.resolve o m) o v).outcome = .done w := by
  rw [← (c.run_approx (defs.resolve_approx o h) o v).eq_of_done hn]
  exact hn

end Definitions

end Conform
