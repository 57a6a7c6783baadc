import Conform.Validator.Run
import Mathlib.Data.Set.Defs

namespace Conform.Validator

@[elab_as_elim, induction_eliminator]
theorem tree_induction {motive : Validator → Prop}
    (test : ∀ p l, motive (.test p l))
    (function : ∀ f, motive (.function f))
    (json : motive .json)
    (constant : ∀ v, motive (.constant v))
    (list : ∀ item, motive item → motive (.list item))
    (dict : ∀ fs, (∀ f ∈ fs, motive f.2) → motive (.dict fs))
    (snakeDict : ∀ fs, (∀ f ∈ fs, motive f.2) → motive (.snakeDict fs))
    (record : ∀ values, motive values → motive (.record values))
    (union : ∀ cs, (∀ c ∈ cs, motive c) → motive (.union cs))
    (intersection : ∀ ps, (∀ p ∈ ps, motive p) → motive (.intersection ps))
    (label : ∀ name inner, motive inner → motive (.label name inner))
    (lazy : ∀ name, motive (.lazy name))
    (map : ∀ inner f, motive inner → motive (.map inner f))
    (andThen : ∀ first second, motive first → motive second → motive (.andThen first second))
    (model : ∀ m, motive (.model m))
    (bare : motive .bare) (v : Validator) : motive v :=
  @Validator.rec motive (fun fs => ∀ f ∈ fs, motive f.2) (fun vs => ∀ v ∈ vs, motive v)
    (fun f => motive f.2) test function json constant list dict snakeDict record union intersection
    label lazy map andThen model bare (by simp)
    (fun _ _ hf hfs => List.forall_mem_cons.mpr ⟨hf, hfs⟩) (by simp)
    (fun _ _ hv hvs => List.forall_mem_cons.mpr ⟨hv, hvs⟩) (fun _ _ h => h) v

variable (resolve : String → Checker) (o : Display.Options)

theorem runAll_eq_map (vs : List Validator) : runAll resolve o vs = vs.map (run resolve o) := by
  induction vs with
  | nil => rfl
  | cons v vs ih => rw [runAll, ih, List.map_cons]

theorem runFields_eq_map (fs : List (Value × Validator)) :
    runFields resolve o fs = fs.map fun f => (f.1, f.2.run resolve o) := by
  induction fs with
  | nil => rfl
  | cons f fs ih => rw [runFields, ih, List.map_cons]

theorem run_dict (fs : List (Value × Validator)) :
    (Validator.dict fs).run resolve o = .dict (fs.map fun f => (f.1, f.2.run resolve o)) := by
  rw [run, runFields_eq_map]

theorem run_snakeDict (fs : List (Value × Validator)) :
    (Validator.snakeDict fs).run resolve o =
      .snakeDict (fs.map fun f => (f.1, f.2.run resolve o)) := by
  rw [run, runFields_eq_map]

theorem run_union (cs : List Validator) :
    (Validator.union cs).run resolve o = .union (cs.map (run resolve o)) := by
  rw [run, runAll_eq_map]

theorem run_intersection (ps : List Validator) :
    (Validator.intersection ps).run resolve o = .intersection (ps.map (run resolve o)) := by
  rw [run, runAll_eq_map]

end Conform.Validator

namespace Conform.Definitions

theorem resolve_induction {P : Checker → Prop} {defs : Definitions}
    {refs : Set String} {o : Display.Options} (hraise : ∀ f, P fun _ => .raise f)
    (hrun : ∀ name ∈ refs, ∀ c, (defs.find? name >>= Schema.elaborate) = .ok c →
      ∀ resolve, (∀ name ∈ refs, P (resolve name)) → P (c.run resolve o)) (n : Nat) :
    ∀ name ∈ refs, P (defs.resolve o n name) := by
  induction n with
  | zero => exact fun name _ => hraise .unfinished
  | succ n ih =>
    intro name hname
    cases hc : defs.find? name >>= Schema.elaborate with
    | ok c =>
      have h : defs.resolve o (n + 1) name = c.run (defs.resolve o n) o := by
        funext v
        rw [resolve, hc]
      rw [h]
      exact hrun name hname c hc _ ih
    | error e =>
      have h : defs.resolve o (n + 1) name = fun _ => .raise (.schema e) := by
        funext v
        rw [resolve, hc]
      rw [h]
      exact hraise _

end Conform.Definitions
