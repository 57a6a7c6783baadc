import Conform.Checker.Basic
import Conform.Proofs.Outcome

namespace Conform.Checker

variable {c : Checker} {v w : Value} {d : Diagnostic}

theorem test_eq_done_iff {p : Value → Option Bool} {l : String} :
    (test p l v).outcome = .done w ↔ p v = some true ∧ v = w := by
  unfold test
  split <;> simp_all

theorem test_eq_rejected_iff {p : Value → Option Bool} {l : String} :
    (test p l v).outcome = .rejected d ↔ p v ≠ some true ∧ .simple v l = d := by
  unfold test
  split <;> simp_all

theorem under_eq_done_iff {α : Type} {t : Trace α} {s : String} {a : α} :
    (t.under s).outcome = .done a ↔ t.outcome = .done a := Trace.mapRejection_eq_done_iff

theorem under_eq_rejected_iff {α : Type} {t : Trace α} {s : String} :
    (t.under s).outcome = .rejected d ↔ ∃ e, t.outcome = .rejected e ∧ e.under s = d :=
  Trace.mapRejection_eq_rejected_iff

theorem below_eq_orElse {α : Type} (t : Trace α) (k : Value) : t.below k = t.orElse fun d =>
    if k.hasText then .reject (d.under k.text) else .raise .noText := by
  unfold Trace.below
  split
  · exact Trace.mapRejection_eq_orElse _ _
  · cases h : t.outcome <;> simp [Trace.orElse, h, Trace.raise, Trace.after]

theorem below_eq_done_iff {α : Type} {t : Trace α} {k : Value} {a : α} :
    (t.below k).outcome = .done a ↔ t.outcome = .done a := by
  unfold Trace.below
  split
  · exact under_eq_done_iff
  · cases h : t.outcome <;> simp [h]

theorem below_eq_rejected_iff {α : Type} {t : Trace α} {k : Value} :
    (t.below k).outcome = .rejected d ↔
      k.hasText = true ∧ ∃ e, t.outcome = .rejected e ∧ e.under k.text = d := by
  unfold Trace.below
  split
  next hk => rw [under_eq_rejected_iff, and_iff_right hk]
  next hk => cases h : t.outcome <;> simp [h, hk]

theorem below_eq_raised_iff {α : Type} {t : Trace α} {k : Value} {e : Fault} :
    (t.below k).outcome = .raised e ↔
      t.outcome = .raised e ∨ k.hasText = false ∧ (∃ d, t.outcome = .rejected d) ∧ e = .noText := by
  unfold Trace.below
  split
  next hk => simp [Trace.under, Trace.mapRejection_eq_raised_iff, hk]
  next hk => cases h : t.outcome <;> simp [h, hk, eq_comm]

theorem onField_of_refusal?_eq_none {k : Value} (h : v.refusal? k = none) :
    c.onField k v = c (v.field k) := by
  rw [onField, lookup, h]
  exact pure_bind _ _

theorem onField_of_refusal?_eq_some {k : Value} {name : String} (h : v.refusal? k = some name) :
    c.onField k v = .raise (.foreign name) := by
  rw [onField, lookup, h]
  rfl

theorem onField_eq_done_iff {k : Value} : (c.onField k v).outcome = .done w ↔
    v.refusal? k = none ∧ (c (v.field k)).outcome = .done w := by
  cases h : v.refusal? k with
  | none => rw [onField_of_refusal?_eq_none h, and_iff_right rfl]
  | some e => simp [onField_of_refusal?_eq_some h]

theorem onField_eq_rejected_iff {k : Value} : (c.onField k v).outcome = .rejected d ↔
    v.refusal? k = none ∧ (c (v.field k)).outcome = .rejected d := by
  cases h : v.refusal? k with
  | none => rw [onField_of_refusal?_eq_none h, and_iff_right rfl]
  | some e => simp [onField_of_refusal?_eq_some h]

theorem onField_eq_raised_iff {k : Value} {e : Fault} : (c.onField k v).outcome = .raised e ↔
    (∃ name, v.refusal? k = some name ∧ e = .foreign name) ∨
      v.refusal? k = none ∧ (c (v.field k)).outcome = .raised e := by
  cases h : v.refusal? k with
  | none => simp [onField_of_refusal?_eq_none h]
  | some name => simp [onField_of_refusal?_eq_some h, eq_comm]

theorem finish_eq_done_iff {u : Unit} : (finish v).outcome = .done u ↔ v.stop? = none := by
  unfold finish
  cases v.stop? <;> simp

theorem finish_ne_rejected : (finish v).outcome ≠ .rejected d := by
  unfold finish
  cases v.stop? <;> simp

theorem finish_eq_raised_iff {e : Fault} : (finish v).outcome = .raised e ↔
    ∃ name, v.stop? = some name ∧ e = .foreign name := by
  unfold finish
  cases v.stop? <;> simp [eq_comm]

section Located

variable {ι α : Type} {f g : ι → Trace α} {is : List ι}

theorem inOrder_map_eq_done_iff
    (h : ∀ i a, (g i).outcome = .done a ↔ (f i).outcome = .done a) {as : List α} :
    (Trace.inOrder (is.map g)).outcome = .done as ↔
      is.map (fun i => (f i).outcome) = as.map .done := by
  rw [Trace.inOrder_eq_done_iff, List.map_map]
  induction is generalizing as with
  | nil => rfl
  | cons i is ih =>
    cases as with
    | nil => simp
    | cons a as => simp only [List.map_cons, List.cons.injEq, Function.comp_apply, h, ih]

theorem inOrder_map_eq_rejected_iff
    (h : ∀ i a, (g i).outcome = .done a ↔ (f i).outcome = .done a) :
    (Trace.inOrder (is.map g)).outcome = .rejected d ↔
      ∃ (n : Nat) (i : ι), is[n]? = some i ∧ (g i).outcome = .rejected d ∧
        ∀ m < n, ∀ j, is[m]? = some j → ∃ a, (f j).outcome = .done a := by
  simp only [Trace.inOrder_eq_rejected_iff, List.getElem?_map, Option.map_eq_some_iff]
  constructor
  · rintro ⟨n, -, ⟨i, hi, rfl⟩, hd, hn⟩
    refine ⟨n, i, hi, hd, fun m hm j hj => ?_⟩
    obtain ⟨a, ha⟩ := hn m hm _ ⟨j, hj, rfl⟩
    exact ⟨a, (h j a).mp ha⟩
  · rintro ⟨n, i, hi, hd, hn⟩
    refine ⟨n, g i, ⟨i, hi, rfl⟩, hd, ?_⟩
    rintro m hm - ⟨j, hj, rfl⟩
    obtain ⟨a, ha⟩ := hn m hm j hj
    exact ⟨a, (h j a).mpr ha⟩

end Located

def sparing (c : Checker) : Checker := fun x => if x.isUndefined then pure x else c x

theorem items_eq_inOrder (c : Checker) (n : Nat) (xs : List Value) :
    items c n xs =
      Trace.inOrder ((xs.zipIdx n).map fun p => (c.sparing p.1).under (toString p.2)) := by
  induction xs generalizing n with
  | nil => rfl
  | cons x xs ih =>
    rw [items, ih, List.zipIdx_cons, List.map_cons, Trace.inOrder, sparing]
    split <;> rfl

theorem sparing_eq_done_iff : (c.sparing v).outcome = .done w ↔
    if v.isUndefined then v = w else (c v).outcome = .done w := by
  unfold sparing
  split <;> simp

theorem sparing_eq_rejected_iff : (c.sparing v).outcome = .rejected d ↔
    v.isUndefined = false ∧ (c v).outcome = .rejected d := by
  unfold sparing
  cases v.isUndefined <;> simp

theorem list_eq_done_iff : (list c v).outcome = .done w ↔
    ∃ xs ys, v.items? = some xs ∧ xs.map (fun x => (c.sparing x).outcome) = ys.map .done ∧
      .list ys = w := by
  unfold list
  cases hv : v.items? with
  | none => simp
  | some xs =>
    have hxs : (xs.zipIdx 0).map (fun p => (c.sparing p.1).outcome) =
        xs.map fun x => (c.sparing x).outcome := by
      rw [← Function.comp_def (fun x => (c.sparing x).outcome), ← List.map_map,
        List.zipIdx_map_fst]
    simp only [Trace.map_eq_done_iff, items_eq_inOrder,
      inOrder_map_eq_done_iff fun _ _ => under_eq_done_iff, hxs, Option.some.injEq]
    constructor
    · rintro ⟨ys, hys, rfl⟩
      exact ⟨xs, ys, rfl, hys, rfl⟩
    · rintro ⟨_, ys, rfl, hys, rfl⟩
      exact ⟨ys, hys, rfl⟩

theorem list_eq_rejected_iff : (list c v).outcome = .rejected d ↔
    v.items? = none ∧ .simple v "an array" = d ∨
      ∃ (xs : List Value) (n : Nat) (x : Value) (e : Diagnostic), v.items? = some xs ∧
        xs[n]? = some x ∧ (c.sparing x).outcome = .rejected e ∧ e.under (toString n) = d ∧
        ∀ m < n, ∀ y, xs[m]? = some y → ∃ z, (c.sparing y).outcome = .done z := by
  unfold list
  cases hv : v.items? with
  | none => simp
  | some xs =>
    simp only [Trace.map_eq_rejected_iff, items_eq_inOrder,
      inOrder_map_eq_rejected_iff fun _ _ => under_eq_done_iff, under_eq_rejected_iff,
      List.getElem?_zipIdx, Option.map_eq_some_iff, Option.some.injEq, reduceCtorEq, false_and,
      false_or]
    constructor
    · rintro ⟨n, -, ⟨x, hx, rfl⟩, ⟨e, he, hd⟩, hn⟩
      exact ⟨xs, n, x, e, rfl, hx, he, by simpa using hd, fun m hm y hy => hn m hm _ ⟨y, hy, rfl⟩⟩
    · rintro ⟨_, n, x, e, rfl, hx, he, hd, hn⟩
      refine ⟨n, (x, n), ⟨x, hx, by simp⟩, ⟨e, he, hd⟩, ?_⟩
      rintro m hm - ⟨y, hy, rfl⟩
      exact hn m hm y hy

def present (keys ys : List Value) : Table Value := (keys.zip ys).filter fun e => !e.2.isUndefined

theorem present_cons (k y : Value) (keys ys : List Value) :
    present (k :: keys) (y :: ys) = addEntry k y (present keys ys) := by
  unfold present addEntry
  cases h : y.isUndefined <;> simp [h]

theorem fields_eq_inOrder (v : Value) (fs : Table Checker) :
    fields v fs = present (fs.map Prod.fst) <$>
      Trace.inOrder (fs.map fun f => (f.2.onField f.1 v).below f.1) := by
  induction fs with
  | nil => rfl
  | cons f fs ih =>
    rw [fields, ih]
    simp only [map_eq_pure_bind, List.map_cons, Trace.inOrder, bind_assoc, pure_bind, present_cons]

theorem dict_eq_done_iff {fs : Table Checker} : (dict fs v).outcome = .done w ↔
    v.isMapping = true ∧ ∃ ys, fs.map (fun f => (f.2.onField f.1 v).outcome) = ys.map .done ∧
      .dict (present (fs.map Prod.fst) ys) = w := by
  unfold dict
  cases v.isMapping with
  | false => simp
  | true =>
    simp [Trace.map_eq_done_iff, fields_eq_inOrder,
      inOrder_map_eq_done_iff fun _ _ => below_eq_done_iff]

theorem dict_eq_rejected_iff {fs : Table Checker} : (dict fs v).outcome = .rejected d ↔
    v.isMapping = false ∧ .simple v "an object" = d ∨
      v.isMapping = true ∧ ∃ (n : Nat) (f : Value × Checker) (e : Diagnostic), fs[n]? = some f ∧
        (f.2.onField f.1 v).outcome = .rejected e ∧ f.1.hasText = true ∧ e.under f.1.text = d ∧
        ∀ m < n, ∀ g, fs[m]? = some g → ∃ z, (g.2.onField g.1 v).outcome = .done z := by
  unfold dict
  cases v.isMapping with
  | false => simp
  | true =>
    simp only [if_true, Trace.map_eq_rejected_iff, fields_eq_inOrder,
      inOrder_map_eq_rejected_iff fun _ _ => below_eq_done_iff, below_eq_rejected_iff]
    grind

theorem entries_eq_inOrder (c : Checker) (es : Table Value) :
    entries c es = (es.map Prod.fst).zip <$>
      Trace.inOrder (es.map fun e => (c e.2).below e.1) := by
  induction es with
  | nil => rfl
  | cons e es ih =>
    rw [entries, ih]
    simp only [map_eq_pure_bind, List.map_cons, Trace.inOrder, bind_assoc, pure_bind,
      List.zip_cons_cons]

theorem record_eq_done_iff : (record c v).outcome = .done w ↔
    ∃ es ys, v.entries? = some es ∧ es.map (fun e => (c e.2).outcome) = ys.map .done ∧
      v.stop? = none ∧ .dict ((es.map Prod.fst).zip ys) = w := by
  unfold record
  cases v.entries? with
  | none => simp
  | some es =>
    simp only [Trace.bind_eq_done_iff, Trace.map_eq_done_iff, entries_eq_inOrder,
      inOrder_map_eq_done_iff fun _ _ => below_eq_done_iff, finish_eq_done_iff, Trace.outcome_pure,
      Outcome.done.injEq, Option.some.injEq]
    constructor
    · rintro ⟨_, ⟨ys, hys, rfl⟩, _, hv, rfl⟩
      exact ⟨es, ys, rfl, hys, hv, rfl⟩
    · rintro ⟨_, ys, rfl, hys, hv, rfl⟩
      exact ⟨_, ⟨ys, hys, rfl⟩, (), hv, rfl⟩

theorem record_eq_rejected_iff : (record c v).outcome = .rejected d ↔
    v.entries? = none ∧ .simple v "an object" = d ∨
      ∃ (es : Table Value) (n : Nat) (e : Value × Value) (f : Diagnostic), v.entries? = some es ∧
        es[n]? = some e ∧ (c e.2).outcome = .rejected f ∧ e.1.hasText = true ∧
        f.under e.1.text = d ∧ ∀ m < n, ∀ g, es[m]? = some g → ∃ z, (c g.2).outcome = .done z := by
  unfold record
  cases v.entries? with
  | none => simp
  | some es =>
    simp only [Trace.bind_eq_rejected_iff, Trace.map_eq_rejected_iff, entries_eq_inOrder,
      inOrder_map_eq_rejected_iff fun _ _ => below_eq_done_iff, below_eq_rejected_iff,
      finish_ne_rejected, Trace.outcome_pure, reduceCtorEq, and_false, exists_false, or_false,
      Option.some.injEq, false_and, false_or]
    grind

theorem allOf_eq_inOrder (v : Value) (cs : List Checker) :
    allOf v cs = (fun _ => ()) <$> Trace.inOrder (cs.map (· v)) := by
  induction cs with
  | nil => rfl
  | cons c cs ih =>
    rw [allOf, ih]
    simp only [map_eq_pure_bind, List.map_cons, Trace.inOrder, bind_assoc, pure_bind]

theorem intersection_eq_done_iff {cs : List Checker} : (intersection cs v).outcome = .done w ↔
    (∃ ys : List Value, cs.map (fun c => (c v).outcome) = ys.map .done) ∧ v = w := by
  simp [intersection, allOf_eq_inOrder, Trace.map_eq_done_iff, Trace.inOrder_eq_done_iff,
    Function.comp_def]

theorem intersection_eq_rejected_iff {cs : List Checker} :
    (intersection cs v).outcome = .rejected d ↔
      ∃ (n : Nat) (c : Checker), cs[n]? = some c ∧ (c v).outcome = .rejected d ∧
        ∀ m < n, ∀ b : Checker, cs[m]? = some b → ∃ z, (b v).outcome = .done z := by
  simp only [intersection, Trace.bind_eq_rejected_iff, allOf_eq_inOrder, Trace.map_eq_rejected_iff,
    Trace.inOrder_eq_rejected_iff, Trace.outcome_pure, reduceCtorEq, and_false, exists_false,
    or_false, List.getElem?_map, Option.map_eq_some_iff]
  constructor
  · rintro ⟨n, -, ⟨c, hc, rfl⟩, hd, hn⟩
    exact ⟨n, c, hc, hd, fun m hm b hb => hn m hm _ ⟨b, hb, rfl⟩⟩
  · rintro ⟨n, c, hc, hd, hn⟩
    refine ⟨n, c v, ⟨c, hc, rfl⟩, hd, ?_⟩
    rintro m hm - ⟨b, hb, rfl⟩
    exact hn m hm b hb

def snakeField (v : Value) : Value × Checker → Trace FieldResult
  | (.str name, c) => (fun r => (.str name, r)) <$>
    ((c.onField (.str (Text.snakeCase name)) v).mapRejection fun d =>
      .label (fieldLabel (Text.snakeCase name)) (d.under (Text.snakeCase name))).attempt
  | _ => .raise .wrongKind

theorem snakeFields_eq_inOrder (v : Value) (fs : Table Checker) :
    snakeFields v fs = Trace.inOrder (fs.map (snakeField v)) := by
  induction fs with
  | nil => rfl
  | cons f fs ih =>
    obtain ⟨k, c⟩ := f
    cases k with
    | str name =>
      rw [snakeFields, ih]
      simp only [List.map_cons, Trace.inOrder, snakeField, map_eq_pure_bind, bind_assoc, pure_bind]
    | _ => rfl

theorem snakeField_eq_done_ok_iff {f : Value × Checker} {k y : Value} :
    (snakeField v f).outcome = .done (k, .ok y) ↔ ∃ name, f.1 = .str name ∧ k = .str name ∧
      (f.2.onField (.str (Text.snakeCase name)) v).outcome = .done y := by
  obtain ⟨l, c⟩ := f
  cases l with
  | str name =>
    simp only [snakeField, Trace.map_eq_done_iff, Prod.mk.injEq, Value.str.injEq]
    constructor
    · rintro ⟨_, h, rfl, rfl⟩
      exact ⟨name, rfl, rfl, Trace.mapRejection_eq_done_iff.mp (Trace.attempt_eq_ok_iff.mp h)⟩
    · rintro ⟨_, rfl, rfl, hy⟩
      exact ⟨.ok y, Trace.attempt_eq_ok_iff.mpr (Trace.mapRejection_eq_done_iff.mpr hy), rfl, rfl⟩
  | _ => simp [snakeField]

theorem snakeField_eq_done_error_iff {f : Value × Checker} {k : Value} :
    (snakeField v f).outcome = .done (k, .error d) ↔
      ∃ name e, f.1 = .str name ∧ k = .str name ∧
        (f.2.onField (.str (Text.snakeCase name)) v).outcome = .rejected e ∧
        .label (fieldLabel (Text.snakeCase name)) (e.under (Text.snakeCase name)) = d := by
  obtain ⟨l, c⟩ := f
  cases l with
  | str name =>
    simp only [snakeField, Trace.map_eq_done_iff, Prod.mk.injEq, Value.str.injEq]
    constructor
    · rintro ⟨_, h, rfl, rfl⟩
      obtain ⟨e, he, hd⟩ := Trace.mapRejection_eq_rejected_iff.mp (Trace.attempt_eq_error_iff.mp h)
      exact ⟨name, e, rfl, rfl, he, hd⟩
    · rintro ⟨_, e, rfl, rfl, he, hd⟩
      exact ⟨.error d, Trace.attempt_eq_error_iff.mpr
        (Trace.mapRejection_eq_rejected_iff.mpr ⟨e, he, hd⟩), rfl, rfl⟩
  | _ => simp [snakeField]

theorem snakeField_ne_rejected (v : Value) (f : Value × Checker) (d : Diagnostic) :
    (snakeField v f).outcome ≠ .rejected d := by
  obtain ⟨l, c⟩ := f
  cases l with
  | str name =>
    rw [snakeField, Ne, Trace.map_eq_rejected_iff]
    exact Trace.attempt_ne_rejected _ _
  | _ => simp [snakeField]

theorem snakeFields_ne_rejected (v : Value) (fs : Table Checker) (d : Diagnostic) :
    (snakeFields v fs).outcome ≠ .rejected d := by
  rw [snakeFields_eq_inOrder, Ne, Trace.inOrder_eq_rejected_iff]
  rintro ⟨n, t, ht, hd, -⟩
  obtain ⟨f, -, rfl⟩ := List.mem_map.mp (List.mem_of_getElem? ht)
  exact snakeField_ne_rejected v f d hd

theorem mem_failures {rs : List FieldResult} : d ∈ failures rs ↔ ∃ k, (k, .error d) ∈ rs := by
  unfold failures
  rw [List.mem_filterMap]
  constructor
  · rintro ⟨⟨k, _ | _⟩, hr, h⟩
    · cases h; exact ⟨k, hr⟩
    · contradiction
  · rintro ⟨k, hr⟩
    exact ⟨_, hr, rfl⟩

theorem mem_addEntry {k y : Value} {es : Table Value} {e : Value × Value} :
    e ∈ addEntry k y es ↔ y.isUndefined = false ∧ e = (k, y) ∨ e ∈ es := by
  unfold addEntry
  cases y.isUndefined <;> simp

theorem mem_narrowed {rs : List FieldResult} {e : Value × Value} :
    e ∈ narrowed rs ↔ (e.1, .ok e.2) ∈ rs ∧ e.2.isUndefined = false := by
  induction rs with
  | nil => simp [narrowed]
  | cons r rs ih =>
    obtain ⟨k, d | y⟩ := r
    · simpa [narrowed] using ih
    · change e ∈ addEntry k y (narrowed rs) ↔ _
      rw [mem_addEntry, ih, List.mem_cons]
      grind

theorem snakeDict_eq_done_iff {fs : Table Checker} : (snakeDict fs v).outcome = .done w ↔
    ∃ rs : List FieldResult, fs.map (fun f => (snakeField v f).outcome) = rs.map .done ∧
      failures rs = [] ∧ .dict (narrowed rs) = w := by
  unfold snakeDict
  rw [Trace.bind_eq_done_iff, snakeFields_eq_inOrder]
  simp only [Trace.inOrder_eq_done_iff, List.map_map, Function.comp_def, List.isEmpty_iff]
  refine exists_congr fun rs => and_congr_right fun _ => ?_
  split <;> simp_all

theorem snakeDict_eq_rejected_iff {fs : Table Checker} : (snakeDict fs v).outcome = .rejected d ↔
    ∃ rs : List FieldResult, fs.map (fun f => (snakeField v f).outcome) = rs.map .done ∧
      failures rs ≠ [] ∧ (failures rs).foldl Diagnostic.combine (.empty v) = d := by
  unfold snakeDict
  rw [Trace.bind_eq_rejected_iff, or_iff_right (snakeFields_ne_rejected v fs d),
    snakeFields_eq_inOrder]
  simp only [Trace.inOrder_eq_done_iff, List.map_map, Function.comp_def, List.isEmpty_iff]
  refine exists_congr fun rs => and_congr_right fun _ => ?_
  split <;> simp_all

end Conform.Checker
