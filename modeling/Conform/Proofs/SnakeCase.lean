import Conform.Proofs.CheckerOutcome
import Conform.Proofs.Merge
import Conform.Proofs.NamedTable
import Conform.Proofs.ValidatorTree
import Conform.Validator.Stock

namespace Conform

namespace Diagnostic

theorem foldl_combine_root {v : Value} {ds : List Diagnostic} (h : ∀ d ∈ ds, d.path = [])
    (es : List Expectation) :
    ds.foldl combine ⟨[], v, es⟩ = ⟨[], v, es ++ ds.flatMap Diagnostic.expectations⟩ := by
  induction ds generalizing es with
  | nil => simp
  | cons d ds ih =>
    have hd : combine ⟨[], v, es⟩ d = ⟨[], v, es ++ d.expectations⟩ :=
      combine_of_path_eq (h d (by simp)).symm
    rw [List.foldl_cons, hd, ih fun e he => h e (List.mem_cons_of_mem _ he)]
    simp

end Diagnostic

namespace Table

variable {α β : Type}

def snakeNames (es : List (String × α)) : List (String × α) :=
  es.map fun e => (Text.snakeCase e.1, e.2)

theorem named_map_snd (f : α → β) (es : List (String × α)) :
    (named es).map (fun e => (e.1, f e.2)) = named (es.map fun e => (e.1, f e.2)) := by
  simp [named]

theorem snakeNames_map_snd (f : α → β) (es : List (String × α)) :
    snakeNames (es.map fun e => (e.1, f e.2)) = (snakeNames es).map fun e => (e.1, f e.2) := by
  simp [snakeNames]

end Table

namespace Checker

variable {v : Value}

theorem failures_root {fs : Table Checker} {rs : List FieldResult}
    (h : (snakeFields v fs).outcome = .done rs) : ∀ d ∈ failures rs, d.path = [] := by
  intro d hd
  obtain ⟨k, hk⟩ := mem_failures.mp hd
  rw [snakeFields_eq_inOrder, Trace.inOrder_eq_done_iff, List.map_map] at h
  obtain ⟨f, -, hf⟩ := exists_mem_of_map_eq h hk
  obtain ⟨name, e, -, -, -, rfl⟩ := snakeField_eq_done_error_iff.mp hf
  rfl

theorem snakeFields_cons (f : Value × Checker) (fs : Table Checker) :
    snakeFields v (f :: fs) = do
      let r ← snakeField v f
      let rs ← snakeFields v fs
      return r :: rs := by
  rw [snakeFields_eq_inOrder, snakeFields_eq_inOrder]
  rfl

theorem snakeFields_named_cons {name : String} {c : Checker} {cs : List (String × Checker)}
    {r : FieldResult} {rs : List FieldResult} (hr : (snakeField v (.str name, c)).outcome = .done r)
    (hrs : (snakeFields v (Table.named cs)).outcome = .done rs) :
    (snakeFields v (Table.named ((name, c) :: cs))).outcome = .done (r :: rs) := by
  change (snakeFields v ((.str name, c) :: Table.named cs)).outcome = _
  rw [snakeFields_cons]
  exact Trace.bind_eq_done_iff.mpr ⟨r, hr, Trace.bind_eq_done_iff.mpr ⟨rs, hrs, rfl⟩⟩

theorem exists_addEntry_named (name : String) (y : Value) (es : List (String × Value)) :
    ∃ fs, addEntry (.str name) y (Table.named es) = Table.named fs ∧
      addEntry (.str (Text.snakeCase name)) y (Table.named (Table.snakeNames es)) =
        Table.named (Table.snakeNames fs) := by
  unfold addEntry
  cases y.isUndefined with
  | true => exact ⟨es, rfl, rfl⟩
  | false => exact ⟨(name, y) :: es, rfl, rfl⟩

def EndsAlike (rs : List FieldResult) (t : Trace (Table Value)) : Prop :=
  (failures rs = [] ∧ ∃ es, narrowed rs = Table.named es ∧
    t.outcome = .done (Table.named (Table.snakeNames es))) ∨
  ∃ l d ds, failures rs = .label l d :: ds ∧ t.outcome = .rejected d

namespace EndsAlike

variable {rs : List FieldResult} {t : Trace (Table Value)} {u : Trace Value} {name : String}

theorem accepted {y : Value} (h : EndsAlike rs t) (hu : u.outcome = .done y) :
    EndsAlike ((.str name, .ok y) :: rs) (do
      let y ← u
      let es ← t
      return addEntry (.str (Text.snakeCase name)) y es) := by
  rcases h with ⟨hnil, es, hes, ht⟩ | ⟨l, d, ds, hds, ht⟩
  · obtain ⟨fs, hfs, hfs'⟩ := exists_addEntry_named name y es
    refine .inl ⟨hnil, fs, ?_, ?_⟩
    · change addEntry (.str name) y (narrowed rs) = _
      rw [hes, hfs]
    · rw [← hfs']
      exact Trace.bind_eq_done_iff.mpr ⟨y, hu, Trace.bind_eq_done_iff.mpr ⟨_, ht, rfl⟩⟩
  · refine .inr ⟨l, d, ds, hds, ?_⟩
    exact Trace.bind_eq_rejected_iff.mpr
      (.inr ⟨y, hu, Trace.bind_eq_rejected_iff.mpr (.inl ht)⟩)

theorem failed {l : String} {d : Diagnostic} {f : Value → Trace (Table Value)}
    (hu : u.outcome = .rejected d) :
    EndsAlike ((.str name, .error (.label l d)) :: rs) (u >>= f) :=
  .inr ⟨l, d, failures rs, rfl, Trace.bind_eq_rejected_iff.mpr (.inl hu)⟩

end EndsAlike

theorem fields_of_snakeFields {cs : List (String × Checker)}
    (h : ∀ f ∈ cs, ∀ e, (f.2.onField (.str (Text.snakeCase f.1)) v).outcome ≠ .raised e) :
    ∃ rs, (snakeFields v (Table.named cs)).outcome = .done rs ∧
      EndsAlike rs (fields v (Table.named (Table.snakeNames cs))) := by
  induction cs with
  | nil => exact ⟨[], rfl, .inl ⟨rfl, [], rfl, rfl⟩⟩
  | cons f cs ih =>
    obtain ⟨name, c⟩ := f
    obtain ⟨rs, hrs, halike⟩ := ih fun g hg => h g (List.mem_cons_of_mem _ hg)
    have hfields : fields v (Table.named (Table.snakeNames ((name, c) :: cs))) = do
        let y ← (c.onField (.str (Text.snakeCase name)) v).under (Text.snakeCase name)
        let es ← fields v (Table.named (Table.snakeNames cs))
        return addEntry (.str (Text.snakeCase name)) y es := rfl
    rw [hfields]
    cases hc : (c.onField (.str (Text.snakeCase name)) v).outcome with
    | done y =>
      have hy : (snakeField v (.str name, c)).outcome = .done (.str name, .ok y) :=
        snakeField_eq_done_ok_iff.mpr ⟨name, rfl, rfl, hc⟩
      exact ⟨_, snakeFields_named_cons hy hrs, halike.accepted (under_eq_done_iff.mpr hc)⟩
    | rejected d =>
      have hd : (snakeField v (.str name, c)).outcome = .done (.str name, .error
          (.label (fieldLabel (Text.snakeCase name)) (d.under (Text.snakeCase name)))) :=
        snakeField_eq_done_error_iff.mpr ⟨name, d, rfl, rfl, hc, rfl⟩
      exact ⟨_, snakeFields_named_cons hd hrs, .failed (under_eq_rejected_iff.mpr ⟨d, hc, rfl⟩)⟩
    | raised e => exact absurd hc (h (name, c) (by simp) e)

theorem snakeDict_agrees {cs : List (String × Checker)} (hv : v.isMapping = true)
    (h : ∀ f ∈ cs, ∀ e, (f.2.onField (.str (Text.snakeCase f.1)) v).outcome ≠ .raised e) :
    (∃ es, (snakeDict (Table.named cs) v).outcome = .done (.dict (Table.named es)) ∧
      (dict (Table.named (Table.snakeNames cs)) v).outcome =
        .done (.dict (Table.named (Table.snakeNames es)))) ∨
    ∃ d l e es, (snakeDict (Table.named cs) v).outcome = .rejected d ∧
      (dict (Table.named (Table.snakeNames cs)) v).outcome = .rejected e ∧
      d.expectations = ⟨l, some e⟩ :: es := by
  obtain ⟨rs, hrs, halike⟩ := fields_of_snakeFields h
  rw [dict, if_pos hv, snakeDict]
  rcases halike with ⟨hnil, es, hes, hdone⟩ | ⟨l, e, ds, hds, hrej⟩
  · refine .inl ⟨es, Trace.bind_eq_done_iff.mpr ⟨rs, hrs, ?_⟩, ?_⟩
    · rw [hnil, hes]
      rfl
    · exact Trace.map_eq_done_iff.mpr ⟨_, hdone, rfl⟩
  · refine .inr ⟨⟨[], v, ⟨l, some e⟩ :: ds.flatMap Diagnostic.expectations⟩, l, e, _,
      Trace.bind_eq_rejected_iff.mpr (.inr ⟨rs, hrs, ?_⟩), Trace.map_eq_rejected_iff.mpr hrej, rfl⟩
    -- every report of a field stands at the root, so none of them is dropped
    have hroot : ∀ d ∈ failures rs, d.path = [] := failures_root hrs
    rw [hds] at hroot ⊢
    exact congrArg Outcome.rejected (Diagnostic.foldl_combine_root hroot [])

theorem snakeFields_congr {w : Value} {fs : Table Checker}
    (h : ∀ f ∈ fs, ∀ name, f.1 = .str name →
      lookup v (.str (Text.snakeCase name)) = lookup w (.str (Text.snakeCase name))) :
    snakeFields v fs = snakeFields w fs := by
  rw [snakeFields_eq_inOrder, snakeFields_eq_inOrder]
  congr 1
  refine List.map_congr_left fun f hf => ?_
  obtain ⟨k, c⟩ := f
  cases k with
  | str name => simp only [snakeField, onField, h _ hf name rfl]
  | _ => rfl

theorem snakeDict_congr {w : Value} {fs : Table Checker}
    (h : ∀ f ∈ fs, ∀ name, f.1 = .str name →
      lookup v (.str (Text.snakeCase name)) = lookup w (.str (Text.snakeCase name))) :
    snakeDict fs v = (snakeDict fs w).mapRejection fun d => { d with received := v } := by
  rw [snakeDict, snakeDict, snakeFields_congr h]
  change Trace.bind _ _ = (Trace.bind _ _).mapRejection _
  cases ht : (snakeFields w fs).outcome with
  | done rs =>
    have hmerge (u : Value) : (failures rs).foldl Diagnostic.combine (.empty u) =
        ⟨[], u, (failures rs).flatMap Diagnostic.expectations⟩ :=
      Diagnostic.foldl_combine_root (failures_root ht) []
    simp only [Trace.bind, ht, hmerge]
    split <;> rfl
  | rejected d => exact absurd ht (snakeFields_ne_rejected _ _ d)
  | raised e => simp only [Trace.bind, ht, Trace.mapRejection]

theorem lookup_of_not_mapping (hv : v.isMapping = false) (k : Value) :
    lookup v k = pure .undefined := by
  unfold Value.isMapping Value.entries? at hv
  unfold lookup Value.refusal? Value.field Value.held?
  cases hu : v.unrolled <;> simp_all

theorem snakeDict_of_not_mapping (hv : v.isMapping = false) (fs : Table Checker) :
    snakeDict fs v = (snakeDict fs (.dict [])).mapRejection fun d => { d with received := v } := by
  refine snakeDict_congr fun f _ name _ => ?_
  rw [lookup_of_not_mapping hv]
  rfl

end Checker

namespace Validator

variable (resolve : String → Checker) (o : Display.Options) {fs : List (String × Validator)}

def camelCase (fs : List (String × Validator)) : Validator :=
  .snakeDict (Table.ofPairs (Table.named fs))

def snakeCase (fs : List (String × Validator)) : Validator :=
  .dict (Table.ofPairs (Table.named (Table.snakeNames fs)))

theorem run_camelCase_of_nodup (hk : (fs.map Prod.fst).Nodup) :
    (camelCase fs).run resolve o =
      .snakeDict (Table.named (fs.map fun f => (f.1, f.2.run resolve o))) := by
  rw [camelCase, run_snakeDict, Table.ofPairs_named hk, Table.named_map_snd]

theorem run_camelCase (hd : ((Table.snakeNames fs).map Prod.fst).Nodup) :
    (camelCase fs).run resolve o =
      .snakeDict (Table.named (fs.map fun f => (f.1, f.2.run resolve o))) := by
  apply run_camelCase_of_nodup
  have hm : (fs.map Prod.fst).map Text.snakeCase = (Table.snakeNames fs).map Prod.fst := by
    simp [Table.snakeNames]
  rw [← hm] at hd
  exact List.Pairwise.of_map Text.snakeCase (fun _ _ hne he => hne (congrArg _ he)) hd

theorem run_snakeCase (hd : ((Table.snakeNames fs).map Prod.fst).Nodup) :
    (snakeCase fs).run resolve o =
      .dict (Table.named (Table.snakeNames (fs.map fun f => (f.1, f.2.run resolve o)))) := by
  rw [snakeCase, run_dict, Table.ofPairs_named hd, Table.named_map_snd, Table.snakeNames_map_snd]

theorem camelCase_agrees (hd : ((Table.snakeNames fs).map Prod.fst).Nodup) :
    (∀ v : Value, v.isMapping = true →
      (∀ f ∈ fs, ∀ e,
        ((f.2.run resolve o).onField (.str (Text.snakeCase f.1)) v).outcome ≠ .raised e) →
      (∃ es, ((camelCase fs).run resolve o v).outcome = .done (.dict (Table.named es)) ∧
        ((snakeCase fs).run resolve o v).outcome =
          .done (.dict (Table.named (Table.snakeNames es)))) ∨
      ∃ d l e es, ((camelCase fs).run resolve o v).outcome = .rejected d ∧
        ((snakeCase fs).run resolve o v).outcome = .rejected e ∧
        d.expectations = ⟨l, some e⟩ :: es) ∧
    ∀ v : Value, v.isMapping = false →
      (camelCase fs).run resolve o v =
        ((camelCase fs).run resolve o (.dict [])).mapRejection
          fun d => { d with received := v } := by
  rw [run_camelCase resolve o hd, run_snakeCase resolve o hd]
  refine ⟨fun v hv h => Checker.snakeDict_agrees hv ?_, fun v hv =>
    Checker.snakeDict_of_not_mapping hv _⟩
  intro g hg
  obtain ⟨f, hf, rfl⟩ := List.mem_map.mp hg
  exact h f hf

theorem camelCase_agrees_person :
    let fs := [("firstName", string), ("age", integer)]
    let v := Value.dict [(.str "age", .str "ten"), (.str "first_name", .int 1)]
    let resolve : String → Checker := fun _ => .constant .null
    ((Table.snakeNames fs).map Prod.fst).Nodup ∧ v.isMapping = true ∧
      (∀ f ∈ fs, ∀ e,
        ((f.2.run resolve .default).onField (.str (Text.snakeCase f.1)) v).outcome ≠ .raised e) ∧
      (∃ d l e es, ((camelCase fs).run resolve .default v).outcome = .rejected d ∧
        ((snakeCase fs).run resolve .default v).outcome = .rejected e ∧
        d.expectations = ⟨l, some e⟩ :: es) ∧
      (Value.int 3).isMapping = false ∧
      (camelCase fs).run resolve .default (.int 3) =
        ((camelCase fs).run resolve .default (.dict [])).mapRejection
          fun d => { d with received := .int 3 } := by
  intro fs v resolve
  have hd : ((Table.snakeNames fs).map Prod.fst).Nodup := by decide
  have hno : ∀ f ∈ fs, ∀ e,
      ((f.2.run resolve .default).onField (.str (Text.snakeCase f.1)) v).outcome ≠ .raised e := by
    intro f hf e
    simp only [fs, List.mem_cons, List.not_mem_nil, or_false] at hf
    rcases hf with rfl | rfl <;> nofun
  have h := camelCase_agrees resolve .default hd
  refine ⟨hd, rfl, hno, (h.1 v rfl hno).resolve_left ?_, rfl, h.2 (.int 3) rfl⟩
  rintro ⟨es, hes, -⟩
  contradiction

end Validator

end Conform
