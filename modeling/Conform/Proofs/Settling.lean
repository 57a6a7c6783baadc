import Conform.Proofs.CheckerOutcome

namespace Conform

structure Trace.Settles {α : Type} (t u : Trace α) : Prop where
  eq : t = u
  finished : t.outcome ≠ .raised .unfinished

namespace Trace.Settles

variable {α β ι : Type} {t u : Trace α}

theorem refl (h : t.outcome ≠ .raised .unfinished) : t.Settles t := ⟨rfl, h⟩

theorem pure (a : α) : Settles (pure a) (pure a) := refl (by simp)

theorem reject (d : Diagnostic) : Settles (reject d : Trace α) (reject d) := refl (by simp)

theorem bind {f g : α → Trace β} (h : t.Settles u) (hf : ∀ a, (f a).Settles (g a)) :
    (t >>= f).Settles (u >>= g) := by
  obtain ⟨rfl, ht⟩ := h
  obtain rfl : f = g := funext fun a => (hf a).eq
  refine refl fun h => ?_
  rcases bind_eq_raised_iff.mp h with h | ⟨a, -, h⟩
  · exact ht h
  · exact (hf a).finished h

theorem map (h : t.Settles u) (f : α → β) : (f <$> t).Settles (f <$> u) := by
  rw [map_eq_pure_bind, map_eq_pure_bind]
  exact h.bind fun a => .pure (f a)

theorem orElse {f g : Diagnostic → Trace α} (h : t.Settles u) (hf : ∀ d, (f d).Settles (g d)) :
    (t.orElse f).Settles (u.orElse g) := by
  obtain ⟨rfl, ht⟩ := h
  obtain rfl : f = g := funext fun d => (hf d).eq
  refine refl fun h => ?_
  by_cases hr : ∃ d, t.outcome = .rejected d
  · obtain ⟨d, hd⟩ := hr
    rw [orElse_of_rejected hd] at h
    exact (hf d).finished h
  · rw [orElse_of_not_rejected fun d hd => hr ⟨d, hd⟩] at h
    exact ht h

theorem mapRejection (h : t.Settles u) (f : Diagnostic → Diagnostic) :
    (t.mapRejection f).Settles (u.mapRejection f) := by
  rw [mapRejection_eq_orElse, mapRejection_eq_orElse]
  exact h.orElse fun d => .reject (f d)

theorem below (h : t.Settles u) (k : Value) : (t.below k).Settles (u.below k) := by
  rw [Checker.below_eq_orElse, Checker.below_eq_orElse]
  refine h.orElse fun d => ?_
  split
  · exact .reject _
  · exact .refl (by simp)

theorem attempt (h : t.Settles u) : t.attempt.Settles u.attempt := by
  obtain ⟨rfl, ht⟩ := h
  exact refl fun h => ht (attempt_eq_raised_iff.mp h)

theorem inOrder {f g : ι → Trace α} {is : List ι} (h : ∀ i ∈ is, (f i).Settles (g i)) :
    (inOrder (is.map f)).Settles (inOrder (is.map g)) := by
  induction is with
  | nil => exact .pure []
  | cons i is ih =>
    obtain ⟨hi, his⟩ := List.forall_mem_cons.mp h
    exact hi.bind fun a => (ih his).bind fun as => .pure (a :: as)

end Trace.Settles

namespace Checker

variable {ι : Type} {c c' : Checker} {f g : ι → Checker} {k : ι → Value} {is : List ι} {v : Value}

theorem settles_list (h : ∀ xs, v.items? = some xs → ∀ x ∈ xs, (c x).Settles (c' x)) :
    (list c v).Settles (list c' v) := by
  unfold list
  cases hv : v.items? with
  | none => exact .reject _
  | some xs =>
    simp only [items_eq_inOrder]
    apply Trace.Settles.map
    apply Trace.Settles.inOrder
    intro p hp
    apply Trace.Settles.mapRejection
    unfold sparing
    split
    · exact .pure p.1
    · exact h xs hv p.1 (List.fst_mem_of_mem_zipIdx hp)

theorem settles_onField {key : Value} (h : (c (v.field key)).Settles (c' (v.field key))) :
    (c.onField key v).Settles (c'.onField key v) := by
  cases hr : v.refusal? key with
  | none =>
    rw [onField_of_refusal?_eq_none hr, onField_of_refusal?_eq_none hr]
    exact h
  | some name =>
    rw [onField_of_refusal?_eq_some hr, onField_of_refusal?_eq_some hr]
    exact .refl (by simp)

theorem settles_finish (v : Value) : (finish v).Settles (finish v) := by
  refine .refl fun h => ?_
  obtain ⟨name, -, he⟩ := finish_eq_raised_iff.mp h
  contradiction

theorem settles_dict
    (h : v.isMapping = true → ∀ i ∈ is, (f i (v.field (k i))).Settles (g i (v.field (k i)))) :
    (dict (is.map fun i => (k i, f i)) v).Settles (dict (is.map fun i => (k i, g i)) v) := by
  unfold dict
  cases hv : v.isMapping with
  | false => exact .reject _
  | true =>
    simp only [fields_eq_inOrder, List.map_map, if_true]
    apply Trace.Settles.map
    apply Trace.Settles.map
    apply Trace.Settles.inOrder
    intro i hi
    exact (settles_onField (h hv i hi)).below (k i)

theorem settles_snakeField (h : ∀ key, (c (v.field key)).Settles (c' (v.field key))) (l : Value) :
    (snakeField v (l, c)).Settles (snakeField v (l, c')) := by
  cases l with
  | str name => exact (((settles_onField (h _)).mapRejection _).attempt).map _
  | _ => exact .refl (by simp [snakeField])

theorem settles_snakeDict
    (h : ∀ i ∈ is, ∀ key, (f i (v.field key)).Settles (g i (v.field key))) :
    (snakeDict (is.map fun i => (k i, f i)) v).Settles
      (snakeDict (is.map fun i => (k i, g i)) v) := by
  unfold snakeDict
  rw [snakeFields_eq_inOrder, snakeFields_eq_inOrder, List.map_map, List.map_map]
  apply Trace.Settles.bind
  · apply Trace.Settles.inOrder
    intro i hi
    exact settles_snakeField (h i hi) (k i)
  · intro rs
    split
    · exact .pure _
    · exact .reject _

theorem settles_record
    (h : ∀ es, v.entries? = some es → ∀ e ∈ es, (c e.2).Settles (c' e.2)) :
    (record c v).Settles (record c' v) := by
  unfold record
  cases hv : v.entries? with
  | none => exact .reject _
  | some es =>
    simp only [entries_eq_inOrder]
    have hentries := Trace.Settles.inOrder fun e he => (h es hv e he).below e.1
    exact (hentries.map _).bind fun ys => (settles_finish v).bind fun _ => .pure _

theorem settles_firstOf (h : ∀ i ∈ is, (f i v).Settles (g i v)) (d : Diagnostic) :
    (firstOf v d (is.map f)).Settles (firstOf v d (is.map g)) := by
  induction is generalizing d with
  | nil => exact .reject d
  | cons i is ih =>
    obtain ⟨hi, his⟩ := List.forall_mem_cons.mp h
    exact hi.orElse fun e => ih his (d.combine e)

theorem settles_intersection (h : ∀ i ∈ is, (f i v).Settles (g i v)) :
    (intersection (is.map f) v).Settles (intersection (is.map g) v) := by
  unfold intersection
  rw [allOf_eq_inOrder, allOf_eq_inOrder, List.map_map, List.map_map]
  exact ((Trace.Settles.inOrder h).map _).bind fun _ => .pure v

end Checker

end Conform
