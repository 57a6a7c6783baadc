import Conform.Diagnostic.Equality
import Conform.Proofs.DiagnosticTree
import Conform.Proofs.Merge
import Conform.Proofs.ValueTree

/-!
The merge of diagnostics is associative, and an empty diagnostic adds nothing to another. As the
start of a merge it does one thing: at the root it puts its own received value in the place of the
other. A merge can take place below a segment as well as before the segment is there.
-/

namespace Conform.Diagnostic

mutual

theorem equal_self : (d : Diagnostic) → d.equal d = true
  | ⟨p, v, es⟩ => by
    simp only [equal, beq_self_eq_true, Value.equal_self, expectationsEqual_self es, Bool.and_self]
termination_by structural d => d

theorem expectationsEqual_self : (es : List Expectation) → expectationsEqual es es = true
  | [] => rfl
  | ⟨l, c⟩ :: es => by
    simp only [expectationsEqual, beq_self_eq_true, causesEqual_self c, expectationsEqual_self es,
      Bool.and_self]
termination_by structural es => es

theorem causesEqual_self : (c : Option Diagnostic) → causesEqual c c = true
  | none => rfl
  | some d => equal_self d
termination_by structural c => c

end

variable (a b d : Diagnostic) (v : Value) (s : String)

theorem empty_combine :
    (empty v).combine d = ⟨d.path, if d.path = [] then v else d.received, d.expectations⟩ := by
  obtain ⟨p, w, es⟩ := d
  by_cases hp : p = []
  · subst hp
    have hroot : (empty v).path = (⟨[], w, es⟩ : Diagnostic).path := rfl
    rw [combine_of_path_eq hroot, if_pos rfl]
    rfl
  · have hlong : Outranks p (empty v).path := .inl (List.length_pos_of_ne_nil hp)
    rw [combine_of_outranked hlong, if_neg hp]

theorem empty_combine_eq_iff : (empty v).combine d = d ↔ d.path ≠ [] ∨ d.received = v := by
  obtain ⟨p, w, es⟩ := d
  rw [empty_combine]
  by_cases hp : p = []
  · simp [hp, eq_comm]
  · simp [hp]

theorem empty_combine_equal_iff :
    ((empty v).combine d).equal d = true ↔ d.path ≠ [] ∨ v.equal d.received = true := by
  obtain ⟨p, w, es⟩ := d
  rw [empty_combine]
  by_cases hp : p = []
  · simp [hp, equal, expectationsEqual_self]
  · simp [hp, equal_self]

/-- The laws of the merge, where the last one has a condition: what an empty diagnostic is merged
with lies below the root, or it has received the same value. -/
theorem combine_monoid_laws :
    (∀ a b c : Diagnostic, (a.combine b).combine c = a.combine (b.combine c)) ∧
    (∀ (a : Diagnostic) (r : Value), a.combine (empty r) = a) ∧
    ∀ (a : Diagnostic) (r : Value),
      ((empty r).combine a = a ↔ a.path ≠ [] ∨ a.received = r) ∧
      (((empty r).combine a).equal a = true ↔ a.path ≠ [] ∨ r.equal a.received = true) :=
  ⟨combine_assoc, combine_empty, fun a r =>
    ⟨empty_combine_eq_iff a r, empty_combine_equal_iff a r⟩⟩

theorem received_of_combine_root (h : (a.combine b).path = []) :
    a.path = [] ∧ (a.combine b).received = a.received := by
  rcases Outranks.trichotomy a.path b.path with hab | hab | hba
  · rw [combine_of_outranks hab] at h ⊢
    exact ⟨h, rfl⟩
  · rw [combine_of_path_eq hab] at h ⊢
    exact ⟨h, rfl⟩
  · rw [combine_of_outranked hba] at h
    exact absurd h hba.ne_nil

theorem received_of_mergeAll_root {ds : List Diagnostic} (h : (d.mergeAll ds).path = []) :
    d.path = [] ∧ (d.mergeAll ds).received = d.received := by
  induction ds generalizing d with
  | nil => exact ⟨h, rfl⟩
  | cons e ds ih =>
    obtain ⟨hde, hr⟩ := ih (d.combine e) h
    obtain ⟨hd, hr'⟩ := received_of_combine_root d e hde
    exact ⟨hd, hr.trans hr'⟩

theorem comparePaths_cons (p q : List String) :
    comparePaths (s :: p) (s :: q) = comparePaths p q := by
  simp [comparePaths, compareSegments]

theorem combine_under : (a.under s).combine (b.under s) = (a.combine b).under s := by
  obtain ⟨p, v, es⟩ := a
  obtain ⟨q, w, fs⟩ := b
  simp only [combine, under, comparePaths_cons, expectationsUnder_eq_map]
  cases comparePaths p q with
  | eq => simp only [under, expectationsUnder_eq_map, List.map_append]
  | _ => simp only [under, expectationsUnder_eq_map]

end Conform.Diagnostic
