import Conform.Proofs.SnakeCase

/-!
Fields in snake case are all checked, and every one that fails is reported: one expectation for each
of them, in the order of the fields, with the whole report of the field as its cause.
-/

namespace Conform

namespace Checker

def snakeOutcome (v : Value) (f : String × Checker) : Outcome Value :=
  (f.2.onField (.str (Text.snakeCase f.1)) v).outcome

def failedField (name : String) : Outcome Value → Option Expectation
  | .rejected d => some ⟨fieldLabel (Text.snakeCase name), some (d.under (Text.snakeCase name))⟩
  | _ => none

def presentField (name : String) : Outcome Value → Option (String × Value)
  | .done y => if y.isUndefined then none else some (name, y)
  | _ => none

def failedFields (v : Value) (cs : List (String × Checker)) : List Expectation :=
  cs.filterMap fun f => failedField f.1 (snakeOutcome v f)

def presentFields (v : Value) (cs : List (String × Checker)) : List (String × Value) :=
  cs.filterMap fun f => presentField f.1 (snakeOutcome v f)

variable {v : Value} {cs : List (String × Checker)}

theorem failedField_eq_none_iff {name : String} {t : Outcome Value} :
    failedField name t = none ↔ ∀ d, t ≠ .rejected d := by
  cases t <;> simp [failedField]

theorem addEntry_named_presentFields {f : String × Checker} {y : Value}
    (h : snakeOutcome v f = .done y) (cs : List (String × Checker)) :
    addEntry (.str f.1) y (Table.named (presentFields v cs)) =
      Table.named (presentFields v (f :: cs)) := by
  cases hy : y.isUndefined <;>
    simp [presentFields, presentField, addEntry, Table.named, h, hy]

theorem exists_results_of_fields (h : ∀ f ∈ cs, ∀ e, snakeOutcome v f ≠ .raised e) :
    ∃ rs, (snakeFields v (Table.named cs)).outcome = .done rs ∧
      (failures rs).map Diagnostic.expectations = (failedFields v cs).map ([·]) ∧
      narrowed rs = Table.named (presentFields v cs) := by
  induction cs with
  | nil => exact ⟨[], rfl, rfl, rfl⟩
  | cons f cs ih =>
    obtain ⟨name, c⟩ := f
    obtain ⟨hf, hcs⟩ := List.forall_mem_cons.mp h
    obtain ⟨rs, hrs, hfailed, hpresent⟩ := ih hcs
    cases hc : snakeOutcome v (name, c) with
    | done y =>
      have hy : (snakeField v (.str name, c)).outcome = .done (.str name, .ok y) :=
        snakeField_eq_done_ok_iff.mpr ⟨name, rfl, rfl, hc⟩
      refine ⟨_, snakeFields_named_cons hy hrs, ?_, ?_⟩
      · rw [failedFields, List.filterMap_cons_none (by rw [hc]; rfl)]
        exact hfailed
      · rw [← addEntry_named_presentFields hc, ← hpresent]
        rfl
    | rejected d =>
      have hd : (snakeField v (.str name, c)).outcome = .done (.str name, .error
          (.label (fieldLabel (Text.snakeCase name)) (d.under (Text.snakeCase name)))) :=
        snakeField_eq_done_error_iff.mpr ⟨name, d, rfl, rfl, hc, rfl⟩
      refine ⟨_, snakeFields_named_cons hd hrs, ?_, ?_⟩
      · rw [failedFields, List.filterMap_cons_some (by rw [hc]; rfl), List.map_cons]
        exact congrArg (_ :: ·) hfailed
      · rw [presentFields, List.filterMap_cons_none (by rw [hc]; rfl)]
        exact hpresent
    | raised e => exact absurd hc (hf e)

theorem snakeDict_outcome (h : ∀ f ∈ cs, ∀ e, snakeOutcome v f ≠ .raised e) :
    (snakeDict (Table.named cs) v).outcome =
      if failedFields v cs = [] then .done (.dict (Table.named (presentFields v cs)))
      else .rejected ⟨[], v, failedFields v cs⟩ := by
  obtain ⟨rs, hrs, hfailed, hpresent⟩ := exists_results_of_fields h
  have hnil : failures rs = [] ↔ failedFields v cs = [] := by
    rw [← List.map_eq_nil_iff, hfailed, List.map_eq_nil_iff]
  by_cases hf : failedFields v cs = []
  · rw [if_pos hf, snakeDict]
    refine Trace.bind_eq_done_iff.mpr ⟨rs, hrs, ?_⟩
    rw [hnil.mpr hf, hpresent]
    rfl
  · have hne : ¬ (failures rs).isEmpty = true := by simpa [hnil] using hf
    -- every report stands at the root, so that the merge keeps all of them
    have hmerge : (failures rs).foldl Diagnostic.combine (.empty v) =
        ⟨[], v, (failures rs).flatMap Diagnostic.expectations⟩ :=
      Diagnostic.foldl_combine_root (failures_root hrs) []
    rw [if_neg hf, snakeDict]
    refine Trace.bind_eq_rejected_iff.mpr (.inr ⟨rs, hrs, ?_⟩)
    rw [if_neg hne, hmerge, List.flatMap_def, hfailed, ← List.flatMap_def, List.flatMap_singleton']
    rfl

end Checker

namespace Validator

open Checker

variable (resolve : String → Checker) (o : Display.Options) {fs : List (String × Validator)}

def fieldOutcome (x : Value) (f : String × Validator) : Outcome Value :=
  ((f.2.run resolve o).onField (.str (Text.snakeCase f.1)) x).outcome

theorem failedFields_run (x : Value) (fs : List (String × Validator)) :
    failedFields x (fs.map fun f => (f.1, f.2.run resolve o)) =
      fs.filterMap fun f => failedField f.1 (fieldOutcome resolve o x f) := by
  rw [failedFields, List.filterMap_map]
  rfl

theorem presentFields_run (x : Value) (fs : List (String × Validator)) :
    presentFields x (fs.map fun f => (f.1, f.2.run resolve o)) =
      fs.filterMap fun f => presentField f.1 (fieldOutcome resolve o x f) := by
  rw [presentFields, List.filterMap_map]
  rfl

theorem camelCase_reports_all (hd : (fs.map Prod.fst).Nodup) (x : Value)
    (hno : ∀ f ∈ fs, ∀ e, fieldOutcome resolve o x f ≠ .raised e) :
    ((∃ d, ((camelCase fs).run resolve o x).outcome = .rejected d) ↔
      ∃ f ∈ fs, ∃ d, fieldOutcome resolve o x f = .rejected d) ∧
    (∀ d, ((camelCase fs).run resolve o x).outcome = .rejected d →
      d.path = [] ∧ d.received = x ∧
        d.expectations = fs.filterMap fun f => failedField f.1 (fieldOutcome resolve o x f)) ∧
    ((∀ f ∈ fs, ∀ d, fieldOutcome resolve o x f ≠ .rejected d) →
      ((camelCase fs).run resolve o x).outcome = .done (.dict (Table.named
        (fs.filterMap fun f => presentField f.1 (fieldOutcome resolve o x f))))) := by
  have hno' : ∀ g ∈ fs.map fun f => (f.1, f.2.run resolve o), ∀ e,
      snakeOutcome x g ≠ .raised e := by
    intro g hg
    obtain ⟨f, hf, rfl⟩ := List.mem_map.mp hg
    exact hno f hf
  have h := snakeDict_outcome hno'
  have hnil : (fs.filterMap fun f => failedField f.1 (fieldOutcome resolve o x f)) = [] ↔
      ∀ f ∈ fs, ∀ d, fieldOutcome resolve o x f ≠ .rejected d := by
    simp only [List.filterMap_eq_nil_iff, failedField_eq_none_iff]
  rw [failedFields_run, presentFields_run] at h
  rw [run_camelCase_of_nodup resolve o hd, h]
  by_cases hf : ∀ f ∈ fs, ∀ d, fieldOutcome resolve o x f ≠ .rejected d
  · rw [if_pos (hnil.mpr hf)]
    refine ⟨⟨by simp, ?_⟩, by simp, fun _ => rfl⟩
    rintro ⟨f, hmem, d, hd⟩
    exact absurd hd (hf f hmem d)
  · rw [if_neg (mt hnil.mp hf)]
    refine ⟨⟨fun _ => ?_, fun _ => ⟨_, rfl⟩⟩, ?_, fun hall => absurd hall hf⟩
    · simpa only [not_forall, not_not, exists_prop] using hf
    · rintro d ⟨⟩
      exact ⟨rfl, rfl, rfl⟩

theorem camelCase_reports_all_person :
    let gs : List (String × Validator) := [("nickName", optional string), ("name", string)]
    let fs := ("homeTown", .dict [(.str "zip", integer)]) :: gs ++ [("phoneNumbers", .list string)]
    let x : Value := .dict [(.str "phone_numbers", .list [.str "1", .int 2]), (.str "name", .str "A"),
      (.str "home_town", .dict [(.str "zip", .null)])]
    let resolve : String → Checker := fun _ => .constant .null
    (fs.map Prod.fst).Nodup ∧
      (∀ f ∈ fs, ∀ e, fieldOutcome resolve .default x f ≠ .raised e) ∧
      (∃ d, ((camelCase fs).run resolve .default x).outcome = .rejected d ∧ d.path = [] ∧
        d.received = x ∧ d.expectations =
          [⟨"a valid \x27home_town\x27 field",
              some ⟨["home_town", "zip"], .null, [⟨"an integer", none⟩]⟩⟩,
            ⟨"a valid \x27phone_numbers\x27 field",
              some ⟨["phone_numbers", "1"], .int 2, [⟨"a string", none⟩]⟩⟩]) ∧
      ((camelCase gs).run resolve .default x).outcome = .done (.dict [(.str "name", .str "A")]) := by
  intro gs fs x resolve
  have hd : (fs.map Prod.fst).Nodup := by decide
  have hgd : (gs.map Prod.fst).Nodup := by decide
  have hno : ∀ f ∈ fs, ∀ e, fieldOutcome resolve .default x f ≠ .raised e := by
    intro f hf e
    simp only [fs, gs, List.cons_append, List.nil_append, List.mem_cons, List.not_mem_nil,
      or_false] at hf
    rcases hf with rfl | rfl | rfl | rfl <;> nofun
  have hgs : ∀ f ∈ gs, ∃ y, fieldOutcome resolve .default x f = .done y :=
    List.forall_mem_cons.mpr ⟨⟨_, rfl⟩, List.forall_mem_singleton.mpr ⟨_, rfl⟩⟩
  obtain ⟨hiff, hreport, -⟩ := camelCase_reports_all resolve .default hd x hno
  obtain ⟨d, hrejected⟩ := hiff.mpr ⟨_, List.mem_cons_self, _, rfl⟩
  obtain ⟨hpath, hreceived, hexpectations⟩ := hreport d hrejected
  have hgno : ∀ f ∈ gs, ∀ e, fieldOutcome resolve .default x f ≠ .raised e := by
    intro f hf e he
    obtain ⟨y, hy⟩ := hgs f hf
    rw [hy] at he
    contradiction
  obtain ⟨-, -, hdone⟩ := camelCase_reports_all resolve .default hgd x hgno
  refine ⟨hd, hno, ⟨d, hrejected, hpath, hreceived, ?_⟩, hdone fun f hf d hd => ?_⟩
  · rw [hexpectations]
    rfl
  · obtain ⟨y, hy⟩ := hgs f hf
    rw [hy] at hd
    contradiction

end Validator

end Conform
