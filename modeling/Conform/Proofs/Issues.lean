import Conform.Model.Issue
import Conform.Proofs.Reordering

namespace Conform

namespace Issue

def path (i : Issue) : List String := i.location.map Segment.text

def expectation (i : Issue) : Expectation := ⟨i.message, none⟩

theorem leaf_eq (i : Issue) : i.leaf = ⟨i.path, i.input.getD .undefined, [i.expectation]⟩ := by
  rw [leaf, path]
  induction i.location with
  | nil => rfl
  | cons s p ih =>
    rw [List.foldr_cons, ih]
    rfl

end Issue

namespace Diagnostic

theorem ofIssues_eq_mergeAll (is : List Issue) (v : Value) :
    ofIssues is v = (empty v).mergeAll (is.map Issue.leaf) := by
  rw [ofIssues, mergeAll, List.foldl_map]

theorem ofIssues_isMerge (is : List Issue) (v : Value) :
    IsMerge v (is.map Issue.leaf) (ofIssues is v) := by
  rw [ofIssues_eq_mergeAll]
  exact .of_mergeAll v _

theorem path_ofIssues {is : List Issue} (hne : is ≠ []) (v : Value) :
    MostSpecific (ofIssues is v).path (is.map Issue.path) := by
  have hleaves : is.map Issue.leaf ≠ [] := by simpa using hne
  have h := (ofIssues_isMerge is v).mostSpecific hleaves
  simpa only [List.map_map, Function.comp_def, Issue.leaf_eq] using h

theorem expectations_ofIssues (is : List Issue) (v : Value) :
    (ofIssues is v).expectations =
      (is.filter (·.path = (ofIssues is v).path)).map Issue.expectation := by
  rw [(ofIssues_isMerge is v).expectations, List.filter_map, List.flatMap_map, List.map_eq_flatMap]
  simp only [Function.comp_def, Issue.leaf_eq]

theorem received_ofIssues {is : List Issue} {v : Value} (hp : (ofIssues is v).path ≠ []) :
    ∃ i, is.find? (·.path = (ofIssues is v).path) = some i ∧
      (ofIssues is v).received = i.input.getD .undefined := by
  obtain ⟨e, he, hreceived⟩ := (ofIssues_isMerge is v).below hp
  rw [List.find?_map, Option.map_eq_some_iff] at he
  obtain ⟨i, hi, rfl⟩ := he
  refine ⟨i, ?_, ?_⟩
  · simpa only [Function.comp_def, Issue.leaf_eq] using hi
  · rw [hreceived, Issue.leaf_eq]

theorem ofIssues_perm {is js : List Issue} (hp : is.Perm js) (v : Value) :
    (ofIssues is v).path = (ofIssues js v).path ∧
      (ofIssues is v).expectations.Perm (ofIssues js v).expectations := by
  have h := ofIssues_isMerge is v
  have h' := ofIssues_isMerge js v
  exact ⟨h.path_eq_of_perm h' (hp.map _), h.expectations_perm h' (hp.map _)⟩

theorem ofIssues_most_specific (is : List Issue) (v : Value) :
    let d := ofIssues is v
    (is = [] → d.path = []) ∧
      (is ≠ [] → MostSpecific d.path (is.map Issue.path)) ∧
      d.expectations = (is.filter (·.path = d.path)).map Issue.expectation ∧
      (d.path = [] → d.received = v) ∧
      (d.path ≠ [] → ∃ i, is.find? (·.path = d.path) = some i ∧
        d.received = i.input.getD .undefined) ∧
      ∀ js, is.Perm js → (ofIssues js v).path = d.path ∧
        (ofIssues js v).expectations.Perm d.expectations := by
  intro d
  refine ⟨?_, fun hne => path_ofIssues hne v, expectations_ofIssues is v,
    (ofIssues_isMerge is v).root, received_ofIssues, fun js hp => ofIssues_perm hp.symm v⟩
  rintro rfl
  rfl

theorem ofIssues_most_specific_same_text :
    let ten : Issue := ⟨[.name "a", .index 10], "ten", none⟩
    let is : List Issue := [⟨[.name "a", .index 9], "nine", some (.int 9)⟩, ten,
      ⟨[.name "z"], "short", some .null⟩, ⟨[.name "a", .name "10"], "text", some (.str "x")⟩]
    let d := ofIssues is .null
    is ≠ [] ∧ d.path = ["a", "10"] ∧ MostSpecific d.path (is.map Issue.path) ∧
      d.expectations = [⟨"ten", none⟩, ⟨"text", none⟩] ∧ d.received = .undefined ∧
      is.Perm is.reverse ∧ (ofIssues is.reverse .null).path = d.path ∧
      (ofIssues is.reverse .null).expectations.Perm d.expectations ∧
      (ofIssues [] .null).path = [] ∧ (ofIssues [] .null).received = .null := by
  intro ten is d
  have hne : is ≠ [] := List.cons_ne_nil _ _
  have hpath : d.path = ["a", "10"] := rfl
  have hbelow : d.path ≠ [] := by simp [hpath]
  have hp : is.Perm is.reverse := (List.reverse_perm is).symm
  obtain ⟨-, hspecific, hexpectations, -, hreceived, hperm⟩ := ofIssues_most_specific is .null
  obtain ⟨i, hi, hinput⟩ := hreceived hbelow
  have hten : some ten = some i := hi
  obtain ⟨hnil, -, -, hroot, -⟩ := ofIssues_most_specific [] .null
  refine ⟨hne, hpath, hspecific hne, hexpectations, ?_, hp, (hperm _ hp).1, (hperm _ hp).2,
    hnil rfl, hroot rfl⟩
  cases hten
  exact hinput

end Diagnostic

end Conform
