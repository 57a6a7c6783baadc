import Conform.Proofs.CheckerOutcome

namespace Conform.Checker

variable {c : Checker} {v : Value} {e : Fault}

theorem sparing_eq_raised_iff : (c.sparing v).outcome = .raised e ↔
    v.isUndefined = false ∧ (c v).outcome = .raised e := by
  unfold sparing
  cases v.isUndefined <;> simp

theorem items_eq_raised_iff {n : Nat} {xs : List Value} :
    (items c n xs).outcome = .raised e ↔
      (Trace.inOrder (xs.map c.sparing)).outcome = .raised e := by
  rw [items_eq_inOrder]
  induction xs generalizing n with
  | nil => rfl
  | cons x xs ih =>
    simp only [List.zipIdx_cons, List.map_cons, Trace.inOrder, Trace.bind_eq_raised_iff,
      Trace.under, Trace.mapRejection_eq_raised_iff, Trace.mapRejection_eq_done_iff,
      Trace.outcome_pure, reduceCtorEq, and_false, exists_false, or_false] at ih ⊢
    rw [ih]

theorem list_eq_raised_iff : (list c v).outcome = .raised e ↔
    ∃ before x after, v.items? = some (before ++ x :: after) ∧ x.isUndefined = false ∧
      (c x).outcome = .raised e ∧ ∀ y ∈ before, ∃ z, (c.sparing y).outcome = .done z := by
  unfold list
  cases v.items? with
  | none => simp
  | some xs =>
    simp [Trace.map_eq_raised_iff, items_eq_raised_iff, Trace.inOrder_map_eq_raised_iff,
      sparing_eq_raised_iff, and_assoc]

theorem dict_eq_raised_iff {fs : Table Checker} : (dict fs v).outcome = .raised e ↔
    v.isMapping = true ∧ ∃ before f after, fs = before ++ f :: after ∧
      ((f.2.onField f.1 v).below f.1).outcome = .raised e ∧
      ∀ g ∈ before, ∃ z, (g.2.onField g.1 v).outcome = .done z := by
  unfold dict
  cases v.isMapping with
  | false => simp
  | true =>
    simp [Trace.map_eq_raised_iff, fields_eq_inOrder, Trace.inOrder_map_eq_raised_iff,
      below_eq_done_iff]

theorem entries_eq_raised_iff {es : Table Value} : (entries c es).outcome = .raised e ↔
    ∃ before f after, es = before ++ f :: after ∧ ((c f.2).below f.1).outcome = .raised e ∧
      ∀ g ∈ before, ∃ z, (c g.2).outcome = .done z := by
  simp [Trace.map_eq_raised_iff, entries_eq_inOrder, Trace.inOrder_map_eq_raised_iff,
    below_eq_done_iff]

theorem exists_entries_eq_done_iff {es : Table Value} :
    (∃ ys, (entries c es).outcome = .done ys) ↔ ∀ e ∈ es, ∃ z, (c e.2).outcome = .done z := by
  induction es with
  | nil => simp [entries]
  | cons f fs ih =>
    simp only [entries, Trace.bind_eq_done_iff, below_eq_done_iff, Trace.outcome_pure,
      Outcome.done.injEq, List.forall_mem_cons, ← ih]
    constructor
    · rintro ⟨_, y, hy, ys, hys, -⟩
      exact ⟨⟨y, hy⟩, ys, hys⟩
    · rintro ⟨⟨y, hy⟩, ys, hys⟩
      exact ⟨_, y, hy, ys, hys, rfl⟩

theorem record_eq_raised_iff : (record c v).outcome = .raised e ↔
    ∃ es, v.entries? = some es ∧
      ((∃ before f after, es = before ++ f :: after ∧ ((c f.2).below f.1).outcome = .raised e ∧
          ∀ g ∈ before, ∃ z, (c g.2).outcome = .done z) ∨
        (∀ g ∈ es, ∃ z, (c g.2).outcome = .done z) ∧
          ∃ name, v.stop? = some name ∧ e = .foreign name) := by
  unfold record
  cases v.entries? with
  | none => simp
  | some es =>
    simp only [Trace.bind_eq_raised_iff, entries_eq_raised_iff, finish_eq_raised_iff,
      Trace.outcome_pure, reduceCtorEq, and_false, exists_false, or_false, Option.some.injEq,
      exists_eq_left', ← exists_entries_eq_done_iff]
    exact or_congr_right exists_and_right

theorem intersection_eq_raised_iff {cs : List Checker} :
    (intersection cs v).outcome = .raised e ↔
      ∃ before d after, cs = before ++ d :: after ∧ (d v).outcome = .raised e ∧
        ∀ b ∈ before, ∃ z, (b v).outcome = .done z := by
  simp [intersection, allOf_eq_inOrder, Trace.map_eq_raised_iff, Trace.inOrder_map_eq_raised_iff]

theorem firstOf_eq_raised_iff {d : Diagnostic} {cs : List Checker} :
    (firstOf v d cs).outcome = .raised e ↔
      ∃ before c after, cs = before ++ c :: after ∧ (c v).outcome = .raised e ∧
        ∀ b ∈ before, ∃ r, (b v).outcome = .rejected r := by
  induction cs generalizing d with
  | nil => simp [firstOf]
  | cons c cs ih =>
    rw [firstOf, Trace.orElse_eq_raised_iff]
    simp only [ih]
    constructor
    · rintro (hc | ⟨r, hr, before, b, after, rfl, hb, hbs⟩)
      · exact ⟨[], c, cs, rfl, hc, by simp⟩
      · exact ⟨c :: before, b, after, rfl, hb, List.forall_mem_cons.mpr ⟨⟨r, hr⟩, hbs⟩⟩
    · rintro ⟨before, b, after, heq, hb, hbs⟩
      cases before with
      | nil =>
        obtain ⟨rfl, rfl⟩ := List.cons.inj heq
        exact .inl hb
      | cons a before =>
        obtain ⟨rfl, rfl⟩ := List.cons.inj heq
        obtain ⟨⟨r, hr⟩, hbs⟩ := List.forall_mem_cons.mp hbs
        exact .inr ⟨r, hr, before, b, after, rfl, hb, hbs⟩

theorem snakeField_eq_raised_iff {f : Value × Checker} :
    (snakeField v f).outcome = .raised e ↔
      (∃ name, f.1 = .str name ∧
        (f.2.onField (.str (Text.snakeCase name)) v).outcome = .raised e) ∨
        (∀ name, f.1 ≠ .str name) ∧ .wrongKind = e := by
  obtain ⟨k, c⟩ := f
  cases k with
  | str name =>
    simp [snakeField, Trace.map_eq_raised_iff, Trace.attempt_eq_raised_iff,
      Trace.mapRejection_eq_raised_iff]
  | _ => simp [snakeField]

def Named (v : Value) (f : Value × Checker) : Prop :=
  ∃ name, f.1 = .str name ∧ ∀ e, (f.2.onField (.str (Text.snakeCase name)) v).outcome ≠ .raised e

theorem snakeField_eq_done_iff {f : Value × Checker} :
    (∃ r, (snakeField v f).outcome = .done r) ↔ Named v f := by
  constructor
  · rintro ⟨r, hr⟩
    by_cases hk : ∃ name, f.1 = .str name
    · obtain ⟨name, hname⟩ := hk
      refine ⟨name, hname, fun e he => ?_⟩
      rw [snakeField_eq_raised_iff.mpr (.inl ⟨name, hname, he⟩)] at hr
      contradiction
    · have hw : (snakeField v f).outcome = .raised .wrongKind :=
        snakeField_eq_raised_iff.mpr (.inr ⟨fun name hn => hk ⟨name, hn⟩, rfl⟩)
      rw [hw] at hr
      contradiction
  · rintro ⟨name, hname, hno⟩
    cases h : (snakeField v f).outcome with
    | done r => exact ⟨r, rfl⟩
    | rejected d => exact absurd h (snakeField_ne_rejected v f d)
    | raised e =>
      rcases snakeField_eq_raised_iff.mp h with ⟨name', hname', he⟩ | ⟨hk, -⟩
      · cases hname.symm.trans hname'
        exact absurd he (hno e)
      · exact absurd hname (hk name)

theorem snakeDict_eq_raised_iff {fs : Table Checker} : (snakeDict fs v).outcome = .raised e ↔
    ∃ before f after, fs = before ++ f :: after ∧ (snakeField v f).outcome = .raised e ∧
      ∀ g ∈ before, Named v g := by
  unfold snakeDict
  rw [Trace.bind_eq_raised_iff, snakeFields_eq_inOrder, Trace.inOrder_map_eq_raised_iff]
  simp only [snakeField_eq_done_iff]
  refine or_iff_left ?_
  rintro ⟨rs, -, h⟩
  split at h <;> contradiction

end Conform.Checker
