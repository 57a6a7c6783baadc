import Conform.Proofs.CheckerFaults
import Conform.Proofs.ValidatorTree
import Conform.Validator.Stock

namespace Conform

theorem exists_index_iff_append {α : Type} {l : List α} {a : α} {P : α → Prop} :
    (∃ n : Nat, l[n]? = some a ∧ ∀ m < n, ∀ b, l[m]? = some b → P b) ↔
      ∃ before after, l = before ++ a :: after ∧ ∀ b ∈ before, P b := by
  constructor
  · rintro ⟨n, ha, hn⟩
    obtain ⟨hl, rfl⟩ := List.getElem?_eq_some_iff.mp ha
    refine ⟨l.take n, l.drop (n + 1), ?_, fun b hb => ?_⟩
    · rw [List.getElem_cons_drop, List.take_append_drop]
    · obtain ⟨m, hm, rfl⟩ := List.mem_take_iff_getElem.mp hb
      have hml : m < l.length := by omega
      exact hn m (by omega) _ (List.getElem?_eq_getElem hml)
  · rintro ⟨before, after, rfl, hb⟩
    refine ⟨before.length, by simp, fun m hm b hmb => hb b ?_⟩
    rw [List.getElem?_append_left hm] at hmb
    exact List.mem_of_getElem? hmb

theorem Trace.bind_of_not_done {α β : Type} {t : Trace α} (h : ∀ a, t.outcome ≠ .done a)
    (f g : α → Trace β) : t >>= f = t >>= g := by
  change t.bind f = t.bind g
  obtain ⟨log, a | d | e⟩ := t
  · exact absurd rfl (h a)
  · rfl
  · rfl

namespace Checker

variable {v w : Value} {fs before : Table Checker} {f : Value × Checker}

theorem dict_of_lookup_eq (hv : v.isMapping = true) (hw : w.isMapping = true)
    (h : ∀ f ∈ fs, lookup v f.1 = lookup w f.1) : dict fs v = dict fs w := by
  have hfields : fs.map (fun f => (f.2.onField f.1 v).below f.1) =
      fs.map fun f => (f.2.onField f.1 w).below f.1 :=
    List.map_congr_left fun f hf => by rw [onField, onField, h f hf]
  rw [dict, dict, if_pos hv, if_pos hw, fields_eq_inOrder, fields_eq_inOrder, hfields]

theorem fields_of_not_done (hf : ∀ y, (f.2.onField f.1 v).outcome ≠ .done y)
    (before after after' : Table Checker) :
    fields v (before ++ f :: after) = fields v (before ++ f :: after') := by
  induction before with
  | nil =>
    obtain ⟨k, c⟩ := f
    apply Trace.bind_of_not_done
    exact fun y hy => hf y (below_eq_done_iff.mp hy)
  | cons g before ih => rw [List.cons_append, List.cons_append, fields, fields, ih]

theorem dict_of_not_done (hf : ∀ y, (f.2.onField f.1 v).outcome ≠ .done y)
    (before after after' : Table Checker) :
    dict (before ++ f :: after) v = dict (before ++ f :: after') v := by
  rw [dict, dict, fields_of_not_done hf before after after']

theorem dict_eq_rejected_iff_append {d : Diagnostic} (hv : v.isMapping = true) :
    (dict fs v).outcome = .rejected d ↔
      ∃ before f after, fs = before ++ f :: after ∧
        (f.1.hasText = true ∧
          ∃ e, (f.2.onField f.1 v).outcome = .rejected e ∧ e.under f.1.text = d) ∧
        ∀ g ∈ before, ∃ y, (g.2.onField g.1 v).outcome = .done y := by
  simp only [dict_eq_rejected_iff, hv, true_and, reduceCtorEq, false_and, false_or]
  constructor
  · rintro ⟨n, f, e, hn, he, ht, hd, hbefore⟩
    obtain ⟨before, after, hfs, hb⟩ := exists_index_iff_append.mp ⟨n, hn, hbefore⟩
    exact ⟨before, f, after, hfs, ⟨ht, e, he, hd⟩, hb⟩
  · rintro ⟨before, f, after, hfs, ⟨ht, e, he, hd⟩, hb⟩
    obtain ⟨n, hn, hbefore⟩ := exists_index_iff_append.mpr ⟨before, after, hfs, hb⟩
    exact ⟨n, f, e, hn, he, ht, hd, hbefore⟩

end Checker

namespace Validator

variable (resolve : String → Checker) (o : Display.Options)

def declaredOutcome (m : Value) (f : Value × Validator) : Outcome Value :=
  ((f.2.run resolve o).onField f.1 m).outcome

theorem map_run_outcome (m : Value) (fs : List (Value × Validator)) :
    (fs.map fun f => (f.1, f.2.run resolve o)).map (fun f => (f.2.onField f.1 m).outcome) =
      fs.map (declaredOutcome resolve o m) := by
  rw [List.map_map]
  rfl

theorem exists_split_run_iff {fs : List (Value × Validator)} {m : Value}
    {P : Value → Outcome Value → Prop} :
    (∃ before f after, (fs.map fun f => (f.1, f.2.run resolve o)) = before ++ f :: after ∧
        P f.1 (f.2.onField f.1 m).outcome ∧
        ∀ g ∈ before, ∃ y, (g.2.onField g.1 m).outcome = .done y) ↔
      ∃ before f after, fs = before ++ f :: after ∧ P f.1 (declaredOutcome resolve o m f) ∧
        ∀ g ∈ before, ∃ y, declaredOutcome resolve o m g = .done y := by
  constructor
  · rintro ⟨before, f, after, hfs, hf, hbefore⟩
    obtain ⟨before, tail, rfl, rfl, htail⟩ := List.map_eq_append_iff.mp hfs
    obtain ⟨f, after, rfl, rfl, rfl⟩ := List.map_eq_cons_iff.mp htail
    exact ⟨before, f, after, rfl, hf, fun g hg => hbefore _ (List.mem_map_of_mem hg)⟩
  · rintro ⟨before, f, after, rfl, hf, hbefore⟩
    exact ⟨_, _, _, List.map_append.trans (congrArg _ List.map_cons), hf,
      List.forall_mem_map.mpr hbefore⟩

theorem dict_reads_declared (fs : List (Value × Validator)) {m : Value}
    (hm : m.isMapping = true) :
    (∀ m' : Value, m'.isMapping = true →
      (∀ f ∈ fs, Checker.lookup m' f.1 = Checker.lookup m f.1) →
      (dict fs).run resolve o m' = (dict fs).run resolve o m) ∧
    (∀ w, ((dict fs).run resolve o m).outcome = .done w ↔
      ∃ ys, fs.map (declaredOutcome resolve o m) = ys.map .done ∧
        .dict (Checker.present (fs.map Prod.fst) ys) = w) ∧
    (∀ d, ((dict fs).run resolve o m).outcome = .rejected d ↔
      ∃ before f after, fs = before ++ f :: after ∧
        (f.1.hasText = true ∧
          ∃ e, declaredOutcome resolve o m f = .rejected e ∧ e.under f.1.text = d) ∧
        ∀ g ∈ before, ∃ y, declaredOutcome resolve o m g = .done y) ∧
    (∀ e, ((dict fs).run resolve o m).outcome = .raised e ↔
      ∃ before f after, fs = before ++ f :: after ∧
        (declaredOutcome resolve o m f = .raised e ∨
          f.1.hasText = false ∧ (∃ d, declaredOutcome resolve o m f = .rejected d) ∧
            e = .noText) ∧
        ∀ g ∈ before, ∃ y, declaredOutcome resolve o m g = .done y) ∧
    ∀ before f after after', fs = before ++ f :: after →
      (∀ y, declaredOutcome resolve o m f ≠ .done y) →
      (dict fs).run resolve o m = (dict (before ++ f :: after')).run resolve o m := by
  refine ⟨fun m' hm' h => ?_, fun w => ?_, fun d => ?_, fun e => ?_, ?_⟩
  · rw [run_dict]
    exact Checker.dict_of_lookup_eq hm' hm (List.forall_mem_map.mpr h)
  · have hkeys : (fs.map fun f => (f.1, f.2.run resolve o)).map Prod.fst = fs.map Prod.fst := by
      rw [List.map_map]
      rfl
    rw [run_dict, Checker.dict_eq_done_iff, map_run_outcome, hkeys]
    exact and_iff_right hm
  · rw [run_dict, Checker.dict_eq_rejected_iff_append hm]
    exact exists_split_run_iff resolve o
      (P := fun k t => k.hasText = true ∧ ∃ e, t = .rejected e ∧ e.under k.text = d)
  · rw [run_dict, Checker.dict_eq_raised_iff, and_iff_right hm]
    simp only [Checker.below_eq_raised_iff]
    exact exists_split_run_iff resolve o
      (P := fun k t => t = .raised e ∨ k.hasText = false ∧ (∃ d, t = .rejected d) ∧ e = .noText)
  · rintro before f after after' rfl hf
    rw [run_dict, run_dict, List.map_append, List.map_append]
    exact Checker.dict_of_not_done (f := (f.1, f.2.run resolve o)) hf _ _ _

theorem dict_reads_declared_first_failure :
    let before : List (Value × Validator) :=
      [(.str "name", .string), (.str "nick", .optional .string)]
    let age : Value × Validator := (.str "age", .integer)
    let late : List (Value × Validator) := [(.str "late", .function fun _ _ => .raise .badValue)]
    let fs := before ++ age :: late
    let m : Value := .dict [(.int 7, .null), (.str "age", .str "ten"), (.str "name", .str "A")]
    let m' : Value := .view [(.str "name", .str "A"), (.str "age", .str "ten")]
    let resolve : String → Checker := fun _ => .constant .null
    m.isMapping = true ∧ m'.isMapping = true ∧
      (∀ f ∈ fs, Checker.lookup m' f.1 = Checker.lookup m f.1) ∧
      (dict fs).run resolve .default m' = (dict fs).run resolve .default m ∧
      ((dict fs).run resolve .default m).outcome =
        .rejected ⟨["age"], .str "ten", [⟨"an integer", none⟩]⟩ ∧
      (∀ y, declaredOutcome resolve .default m age ≠ .done y) ∧
      (dict fs).run resolve .default m = (dict (before ++ [age])).run resolve .default m ∧
      ((dict before).run resolve .default m).outcome =
        .done (.dict [(.str "name", .str "A")]) := by
  intro before age late fs m m' resolve
  have hfields : ∀ f ∈ fs, Checker.lookup m' f.1 = Checker.lookup m f.1 := by
    intro f hf
    simp only [fs, before, late, age, List.cons_append, List.nil_append, List.mem_cons,
      List.not_mem_nil, or_false] at hf
    rcases hf with rfl | rfl | rfl | rfl <;> rfl
  have hage : declaredOutcome resolve .default m age =
      .rejected (.simple (.str "ten") "an integer") := rfl
  have hstop : ∀ y, declaredOutcome resolve .default m age ≠ .done y := by
    rw [hage]
    nofun
  have hbefore : ∀ g ∈ before, ∃ y, declaredOutcome resolve .default m g = .done y :=
    List.forall_mem_cons.mpr ⟨⟨_, rfl⟩, List.forall_mem_singleton.mpr ⟨_, rfl⟩⟩
  obtain ⟨hreads, -, hrejected, -, hlater⟩ := dict_reads_declared resolve .default fs (m := m) rfl
  obtain ⟨-, hdone, -⟩ := dict_reads_declared resolve .default before (m := m) rfl
  exact ⟨rfl, rfl, hfields, hreads m' rfl hfields,
    (hrejected _).mpr ⟨before, age, late, rfl, ⟨rfl, _, hage, rfl⟩, hbefore⟩, hstop,
    hlater before age late [] rfl hstop, (hdone _).mpr ⟨[.str "A", .undefined], rfl, rfl⟩⟩

end Validator

end Conform
