import Conform.Proofs.Calls
import Conform.Proofs.Grounded
import Mathlib.Algebra.Group.Nat.Defs

namespace Conform

namespace Value

inductive Tame : Value → Prop
  | intro {v : Value} (walk : v.stop? = none) (lookup : ∀ k, v.refusal? k = none)
      (names : ∀ es, v.entries? = some es → ∀ e ∈ es, e.1.hasText = true)
      (items : ∀ xs, v.items? = some xs → ∀ x ∈ xs, Tame x)
      (entries : ∀ es, v.entries? = some es → ∀ e ∈ es, Tame e.2)
      (held : ∀ es, v.held? = some es → ∀ e ∈ es, Tame e.2) : Tame v

namespace Tame

variable {v : Value} {xs : List Value} {es : Table Value}

theorem of_scalar (hw : v.stop? = none) (hl : ∀ k, v.refusal? k = none) (hi : v.items? = none)
    (he : v.entries? = none) (hh : v.held? = none) : v.Tame :=
  ⟨hw, hl, by simp [he], by simp [hi], by simp [he], by simp [hh]⟩

theorem undefined : Tame .undefined := .of_scalar rfl (fun _ => rfl) rfl rfl rfl

theorem tuple (h : ∀ x ∈ xs, x.Tame) : Tame (.tuple xs) := by
  apply Tame.intro rfl fun _ => rfl
  case items =>
    rintro _ ⟨⟩
    exact h
  all_goals
    intro _ hes
    contradiction

theorem dict (h : ∀ e ∈ es, e.1.hasText = true ∧ e.2.Tame) : Tame (.dict es) := by
  apply Tame.intro rfl fun _ => rfl
  case items =>
    intro _ hxs
    contradiction
  case names =>
    rintro _ ⟨⟩
    exact fun e he => (h e he).1
  all_goals
    rintro _ ⟨⟩
    exact fun e he => (h e he).2

theorem field (h : v.Tame) (k : Value) : (v.field k).Tame := by
  rcases field_eq_undefined_or_mem v k with hk | ⟨es, hes, e, he, hk⟩
  · rw [hk]
    exact .undefined
  · rw [hk]
    cases h with
    | intro _ _ _ _ _ held => exact held es hes e he

theorem item {x : Value} (h : v.Tame) (hv : v.items? = some xs) (hx : x ∈ xs) : x.Tame := by
  cases h with
  | intro _ _ _ items _ _ => exact items xs hv x hx

theorem entry {e : Value × Value} (h : v.Tame) (hv : v.entries? = some es) (he : e ∈ es) :
    e.2.Tame := by
  cases h with
  | intro _ _ _ _ entries _ => exact entries es hv e he

end Tame

end Value

namespace Validator

variable (resolve : String → Checker) (o : Display.Options)

variable {resolve o} {c d b : Validator} {v w x : Value}

end Validator

end Conform
