import Conform.Proofs.Simulation
import Conform.Validator.Stock

namespace Conform

namespace Validator

mutual

def unlabelled : Validator → Validator
  | .test p _ => .test p ""
  | .list c => .list (unlabelled c)
  | .dict fs => .dict (unlabelledFields fs)
  | .snakeDict fs => .snakeDict (unlabelledFields fs)
  | .record c => .record (unlabelled c)
  | .union cs => .union (unlabelledAll cs)
  | .intersection cs => .intersection (unlabelledAll cs)
  | .label _ c => unlabelled c
  | .map c f => .map (unlabelled c) f
  | .andThen c d => .andThen (unlabelled c) (unlabelled d)
  | c => c
termination_by structural c => c

def unlabelledAll : List Validator → List Validator
  | [] => []
  | c :: cs => unlabelled c :: unlabelledAll cs
termination_by structural cs => cs

def unlabelledFields : List (Value × Validator) → List (Value × Validator)
  | [] => []
  | (k, c) :: fs => (k, unlabelled c) :: unlabelledFields fs
termination_by structural fs => fs

end

theorem unlabelledAll_eq_map (cs : List Validator) : unlabelledAll cs = cs.map unlabelled := by
  induction cs with
  | nil => rfl
  | cons c cs ih => rw [unlabelledAll, ih, List.map_cons]

theorem unlabelledFields_eq_map (fs : List (Value × Validator)) :
    unlabelledFields fs = fs.map fun f => (f.1, f.2.unlabelled) := by
  induction fs with
  | nil => rfl
  | cons f fs ih => rw [unlabelledFields, ih, List.map_cons]

end Validator

def Trace.Agrees {α : Type} (t u : Trace α) : Prop := t.Like False (fun _ _ => True) Eq u

namespace Trace.Agrees

variable {α : Type} {t u w : Trace α}

theorem symm (h : t.Agrees u) : u.Agrees t := by
  cases h with
  | done h => exact .done h.symm
  | rejected _ => exact .rejected trivial
  | raised log f => exact .raised log f
  | cut h => contradiction

theorem trans (h : t.Agrees u) (h' : u.Agrees w) : t.Agrees w := by
  cases h with
  | done h => exact h ▸ h'
  | rejected _ =>
    cases h' with
    | rejected _ => exact .rejected trivial
  | raised log f => exact h'
  | cut h => contradiction

theorem outcome (h : t.Agrees u) :
    (∀ a, t.outcome = .done a ↔ u.outcome = .done a) ∧
      ((∃ d, t.outcome = .rejected d) ↔ ∃ d, u.outcome = .rejected d) ∧
      ∀ f, t.outcome = .raised f ↔ u.outcome = .raised f := by
  cases h with
  | done h => simp [h]
  | rejected _ => simp
  | raised log f => simp
  | cut h => contradiction

end Trace.Agrees

def Checker.Agrees (c c' : Checker) : Prop := ∀ v, (c v).Agrees (c' v)

theorem Checker.Agrees.refl (c : Checker) : c.Agrees c := fun v => .refl .any (c v)

theorem Checker.Agrees.test (p : Value → Option Bool) (l l' : String) :
    (test p l).Agrees (Checker.test p l') := by
  intro v
  unfold Checker.test
  split
  · exact .done rfl
  · exact .rejected trivial

theorem Checker.Agrees.label {c c' : Checker} (h : c.Agrees c') (name : String) :
    (label name c).Agrees c' := by
  intro v
  unfold Checker.label
  have hv := h v
  generalize c v = t at hv ⊢
  generalize c' v = u at hv ⊢
  cases hv with
  | done h => exact .done h
  | rejected _ => exact .rejected trivial
  | raised log f => exact .raised log f
  | cut h => contradiction

namespace Validator

variable {resolve resolve' : String → Checker}

theorem run_unlabelled (h : ∀ name, (resolve name).Agrees (resolve' name)) (o : Display.Options)
    (c : Validator) : (c.run resolve o).Agrees (c.unlabelled.run resolve' o) := by
  have hany := ReportCongruence.any
  -- only tests and labels differ, and those only in what they report
  induction c with
  | test p l => exact .test p l ""
  | list item ih => exact Checker.Like.list hany ih
  | dict fs ih =>
    rw [unlabelled, unlabelledFields_eq_map, run_dict, run_dict, List.map_map]
    exact Checker.Like.dict hany ih
  | snakeDict fs ih =>
    rw [unlabelled, unlabelledFields_eq_map, run_snakeDict, run_snakeDict, List.map_map]
    exact Checker.Like.snakeDict hany ih
  | record values ih => exact Checker.Like.record hany ih
  | union cs ih =>
    rw [unlabelled, unlabelledAll_eq_map, run_union, run_union, List.map_map]
    exact Checker.Like.union hany ih
  | intersection ps ih =>
    rw [unlabelled, unlabelledAll_eq_map, run_intersection, run_intersection, List.map_map]
    exact Checker.Like.intersection ih
  | label name inner ih => exact ih.label name
  | lazy name => exact h name
  | map inner f ih => exact Checker.Like.map hany ih (f o)
  | andThen first second ih ih' => exact Checker.Like.andThen ih ih'
  | _ => exact .refl _

theorem run_agrees {c c' : Validator} (hc : c.unlabelled = c'.unlabelled)
    (h : ∀ name, (resolve name).Agrees (resolve' name)) (o : Display.Options) :
    (c.run resolve o).Agrees (c'.run resolve' o) := by
  intro v
  -- both agree with the one validator that they are without labels
  have hleft := c.run_unlabelled h o v
  have hright := c'.run_unlabelled (fun name => .refl (resolve' name)) o v
  exact (hc ▸ hleft).trans hright.symm

end Validator

namespace Definitions

def EqualUpToLabels (defs defs' : Definitions) : Prop :=
  ∀ name, (defs.find? name >>= Schema.elaborate).map Validator.unlabelled =
    (defs'.find? name >>= Schema.elaborate).map Validator.unlabelled

variable {defs defs' : Definitions}

theorem resolve_agrees (h : defs.EqualUpToLabels defs') (o : Display.Options) (n : Nat)
    (name : String) : (defs.resolve o n name).Agrees (defs'.resolve o n name) := by
  induction n generalizing name with
  | zero => exact .refl _
  | succ n ih =>
    intro v
    have hname := h name
    rw [resolve, resolve]
    generalize (defs.find? name >>= Schema.elaborate) = r at hname ⊢
    generalize (defs'.find? name >>= Schema.elaborate) = r' at hname ⊢
    cases r with
    | ok c =>
      cases r' with
      | ok c' => exact Validator.run_agrees (Except.ok.inj hname) ih o v
      | error e => contradiction
    | error e =>
      cases r' with
      | ok c' => contradiction
      | error e' =>
        cases Except.error.inj hname
        exact .raised _ _

theorem outcome_of_relabelled {c c' : Validator} (hc : c.unlabelled = c'.unlabelled)
    (hdefs : defs.EqualUpToLabels defs') (o : Display.Options) (n : Nat) (v : Value) :
    (∀ w, (c.run (defs.resolve o n) o v).outcome = .done w ↔
        (c'.run (defs'.resolve o n) o v).outcome = .done w) ∧
      ((∃ d, (c.run (defs.resolve o n) o v).outcome = .rejected d) ↔
        ∃ d, (c'.run (defs'.resolve o n) o v).outcome = .rejected d) ∧
      ∀ f, (c.run (defs.resolve o n) o v).outcome = .raised f ↔
        (c'.run (defs'.resolve o n) o v).outcome = .raised f :=
  (Validator.run_agrees hc (resolve_agrees hdefs o n) o v).outcome

theorem outcome_of_relabelled_tree :
    let text : Validator := .testing (Class.has .str) "some text"
    let kids : Validator := .list (.lazy "tree")
    let tree : Validator := .label "a tree" (.dict [(.str "name", .string),
      (.str "kids", .label "the subtrees" (.union [.undefined, kids]))])
    let plain : Validator := .dict [(.str "name", text), (.str "kids", .union [.undefined, kids])]
    let defs : Definitions := [("tree", .validator tree)]
    let defs' : Definitions := [("tree", .validator plain)]
    let v : Value := .dict [(.str "name", .str "root"), (.str "kids", .list [.int 7])]
    tree.unlabelled = plain.unlabelled ∧ defs.EqualUpToLabels defs' ∧
      (∃ d, (tree.run (defs.resolve .default 2) .default v).outcome = .rejected d) ∧
      ∃ d, (plain.run (defs'.resolve .default 2) .default v).outcome = .rejected d := by
  intro text kids tree plain defs defs' v
  have htree : tree.unlabelled = plain.unlabelled := rfl
  have hdefs : defs.EqualUpToLabels defs' := by
    intro name
    by_cases hname : name = "tree"
    · subst hname
      rfl
    · have hnone : (name == "tree") = false := by simpa using hname
      simp only [defs, defs', find?, List.lookup_cons, hnone]
  have hrejected : ∃ d, (tree.run (defs.resolve .default 2) .default v).outcome = .rejected d :=
    ⟨_, rfl⟩
  obtain ⟨-, hiff, -⟩ := outcome_of_relabelled htree hdefs .default 2 v
  exact ⟨htree, hdefs, hrejected, hiff.mp hrejected⟩

end Definitions

end Conform
