import Conform.Proofs.CheckerOutcome

/-!
Checkers that decide a property of values: they accept the values that have it and reject all
others. In which order the parts of a checker run has no part in what it decides.
-/

namespace Conform

def Trace.Decides {α : Type} (t : Trace α) (p : Prop) : Prop :=
  (∀ a, t.outcome = .done a → p) ∧ ∀ d, t.outcome = .rejected d → ¬ p

namespace Trace.Decides

variable {α β ι : Type} {t : Trace α} {p q : Prop}

theorem of_iff (h : t.Decides p) (hpq : p ↔ q) : t.Decides q := by
  rwa [Trace.Decides, ← hpq]

theorem pure (a : α) : (pure a : Trace α).Decides True := ⟨fun _ _ => trivial, by simp⟩

theorem reject (d : Diagnostic) : (reject d : Trace α).Decides False := ⟨by simp, fun _ _ => id⟩

theorem raise (f : Fault) (p : Prop) : (raise f : Trace α).Decides p := ⟨by simp, by simp⟩

theorem bind {f : α → Trace β} (h : t.Decides p)
    (hf : ∀ a, t.outcome = .done a → (f a).Decides q) : (t >>= f).Decides (p ∧ q) := by
  constructor
  · intro b hb
    obtain ⟨a, ha, hb⟩ := bind_eq_done_iff.mp hb
    exact ⟨h.1 a ha, (hf a ha).1 b hb⟩
  · rintro d hd ⟨hp, hq⟩
    rcases bind_eq_rejected_iff.mp hd with hd | ⟨a, ha, hd⟩
    · exact h.2 d hd hp
    · exact (hf a ha).2 d hd hq

theorem map (h : t.Decides p) (f : α → β) : (f <$> t).Decides p := by
  rw [map_eq_pure_bind]
  exact (h.bind fun a _ => pure (f a)).of_iff (by simp)

theorem mapRejection (h : t.Decides p) (f : Diagnostic → Diagnostic) :
    (t.mapRejection f).Decides p := by
  constructor
  · intro a ha
    exact h.1 a (mapRejection_eq_done_iff.mp ha)
  · intro d hd
    obtain ⟨e, he, -⟩ := mapRejection_eq_rejected_iff.mp hd
    exact h.2 e he

theorem below (h : t.Decides p) (k : Value) : (t.below k).Decides p := by
  constructor
  · intro a ha
    exact h.1 a (Checker.below_eq_done_iff.mp ha)
  · intro d hd
    obtain ⟨-, e, he, -⟩ := Checker.below_eq_rejected_iff.mp hd
    exact h.2 e he

theorem orElse {f : Diagnostic → Trace α} (h : t.Decides p) (hf : ∀ d, (f d).Decides q) :
    (t.orElse f).Decides (p ∨ q) := by
  constructor
  · intro a ha
    rcases orElse_eq_done_iff.mp ha with ha | ⟨d, -, ha⟩
    · exact .inl (h.1 a ha)
    · exact .inr ((hf d).1 a ha)
  · intro e he
    obtain ⟨d, hd, he⟩ := orElse_eq_rejected_iff.mp he
    exact not_or.mpr ⟨h.2 d hd, (hf d).2 e he⟩

theorem inOrder {f : ι → Trace α} {P : ι → Prop} {is : List ι}
    (h : ∀ i ∈ is, (f i).Decides (P i)) : (inOrder (is.map f)).Decides (∀ i ∈ is, P i) := by
  induction is with
  | nil => exact (pure []).of_iff (by simp)
  | cons i is ih =>
    rw [List.map_cons, Trace.inOrder]
    have hrest := ih fun j hj => h j (List.mem_cons_of_mem _ hj)
    refine ((h i (by simp)).bind fun a _ => hrest.map (a :: ·)).of_iff ?_
    exact List.forall_mem_cons.symm

end Trace.Decides

namespace Checker

def Decides (c : Checker) (P : Value → Prop) : Prop := ∀ v, (c v).Decides (P v)

theorem finish_decides (v : Value) : (finish v).Decides True :=
  ⟨fun _ _ => trivial, fun _ hd => absurd hd finish_ne_rejected⟩

namespace Decides

variable {ι : Type} {c : Checker} {P : Value → Prop} {f : ι → Checker} {Q : ι → Value → Prop}
  {k : ι → Value} {is : List ι}

theorem onField (h : c.Decides P) (key v : Value) :
    (c.onField key v).Decides (P (v.field key)) := by
  cases hr : v.refusal? key with
  | none =>
    rw [onField_of_refusal?_eq_none hr]
    exact h _
  | some name =>
    rw [onField_of_refusal?_eq_some hr]
    exact .raise _ _

theorem test (p : Value → Option Bool) (l : String) :
    (test p l).Decides fun v => p v = some true := by
  intro v
  unfold Checker.test
  split
  next h => exact (Trace.Decides.pure v).of_iff (iff_of_true trivial h)
  next h => exact (Trace.Decides.reject _).of_iff (iff_of_false id h)

theorem constant (w : Value) : (constant w).Decides fun _ => True := fun _ => .pure w

theorem list (h : c.Decides P) : (list c).Decides fun v =>
    ∃ xs, v.items? = some xs ∧ ∀ x ∈ xs, x.isUndefined = false → P x := by
  intro v
  unfold Checker.list
  cases hv : v.items? with
  | none => exact (Trace.Decides.reject _).of_iff (by simp [hv])
  | some xs =>
    have hitem : ∀ p ∈ xs.zipIdx 0, ((c.sparing p.1).under (toString p.2)).Decides
        (p.1.isUndefined = false → P p.1) := by
      intro p _
      apply Trace.Decides.mapRejection
      unfold sparing
      split
      next hu => exact (Trace.Decides.pure p.1).of_iff (by simp [hu])
      next hu => exact (h p.1).of_iff (by simp [hu])
    simp only [items_eq_inOrder]
    refine ((Trace.Decides.inOrder hitem).map Value.list).of_iff ?_
    have hxs := List.forall_mem_map (f := Prod.fst) (l := xs.zipIdx 0)
      (P := fun x => x.isUndefined = false → P x)
    rw [← hxs, List.zipIdx_map_fst]
    simp [hv]

theorem dict (h : ∀ i ∈ is, (f i).Decides (Q i)) :
    (dict (is.map fun i => (k i, f i))).Decides fun v =>
      v.isMapping = true ∧ ∀ i ∈ is, Q i (v.field (k i)) := by
  intro v
  unfold Checker.dict
  split
  next hv =>
    simp only [fields_eq_inOrder, List.map_map]
    have hfields := Trace.Decides.inOrder fun i hi => ((h i hi).onField (k i) v).below (k i)
    exact ((hfields.map _).map Value.dict).of_iff (by simp [hv])
  next hv => exact (Trace.Decides.reject _).of_iff (by simp [hv])

theorem record (h : c.Decides P) :
    (record c).Decides fun v => ∃ es, v.entries? = some es ∧ ∀ e ∈ es, P e.2 := by
  intro v
  unfold Checker.record
  cases hv : v.entries? with
  | none => exact (Trace.Decides.reject _).of_iff (by simp [hv])
  | some es =>
    simp only [entries_eq_inOrder]
    have hentries := Trace.Decides.inOrder fun (e : Value × Value) (_ : e ∈ es) =>
      (h e.2).below e.1
    refine ((hentries.map _).bind fun _ _ => (finish_decides v).bind fun _ _ => .pure _).of_iff ?_
    simp [hv]

theorem firstOf (h : ∀ i ∈ is, (f i).Decides (Q i)) (v : Value) (d : Diagnostic) :
    (firstOf v d (is.map f)).Decides (∃ i ∈ is, Q i v) := by
  induction is generalizing d with
  | nil => exact (Trace.Decides.reject d).of_iff (by simp)
  | cons i is ih =>
    have hrest := ih fun j hj => h j (List.mem_cons_of_mem _ hj)
    exact ((h i (by simp) v).orElse fun e => hrest _).of_iff (by simp)

theorem union (h : ∀ i ∈ is, (f i).Decides (Q i)) :
    (union (is.map f)).Decides fun v => ∃ i ∈ is, Q i v :=
  fun v => firstOf h v _

theorem intersection (h : ∀ i ∈ is, (f i).Decides (Q i)) :
    (intersection (is.map f)).Decides fun v => ∀ i ∈ is, Q i v := by
  intro v
  unfold Checker.intersection
  rw [allOf_eq_inOrder, List.map_map]
  have hparts := Trace.Decides.inOrder fun i hi => h i hi v
  exact ((hparts.map _).bind fun _ _ => .pure v).of_iff (by simp)

theorem label (h : c.Decides P) (name : String) : (label name c).Decides P :=
  fun v => (h v).mapRejection _

theorem map (h : c.Decides P) {g : Value → Trace Value}
    (hg : ∀ v d, (g v).outcome ≠ .rejected d) : (map c g).Decides P := fun v =>
  ((h v).bind fun u _ => ⟨fun _ _ => trivial, fun d hd => absurd hd (hg u d)⟩).of_iff (by simp)

theorem failures_eq_nil_iff {v : Value} {rs : List FieldResult}
    (hk : ∀ i ∈ is, ∃ name, k i = .str name) (h : ∀ i ∈ is, (f i).Decides (Q i))
    (hrs : (is.map fun i => (snakeField v (k i, f i)).outcome) = rs.map .done) :
    failures rs = [] ↔ ∀ i ∈ is, ∀ name, k i = .str name →
      Q i (v.field (.str (Text.snakeCase name))) := by
  induction is generalizing rs with
  | nil => simp [List.map_eq_nil_iff.mp hrs.symm, failures]
  | cons i is ih =>
    obtain ⟨r, rs, rfl, hr, hrs⟩ := List.map_eq_cons_iff.mp hrs.symm
    have hrest := ih (fun j hj => hk j (List.mem_cons_of_mem _ hj))
      (fun j hj => h j (List.mem_cons_of_mem _ hj)) hrs.symm
    obtain ⟨name, hname⟩ := hk i (by simp)
    have hi := (h i (by simp)).onField (.str (Text.snakeCase name)) v
    simp only [List.forall_mem_cons, ← hrest, hname, Value.str.injEq, forall_eq']
    obtain ⟨key, d | y⟩ := r
    · obtain ⟨name', e, hn, -, he, -⟩ := snakeField_eq_done_error_iff.mp hr.symm
      cases hname.symm.trans hn
      simp [failures, hi.2 e he]
    · obtain ⟨name', hn, -, hy⟩ := snakeField_eq_done_ok_iff.mp hr.symm
      cases hname.symm.trans hn
      simp [failures, hi.1 y hy]

theorem snakeDict (hk : ∀ i ∈ is, ∃ name, k i = .str name) (h : ∀ i ∈ is, (f i).Decides (Q i)) :
    (snakeDict (is.map fun i => (k i, f i))).Decides fun v =>
      ∀ i ∈ is, ∀ name, k i = .str name → Q i (v.field (.str (Text.snakeCase name))) := by
  intro v
  constructor
  · intro w hw
    obtain ⟨rs, hrs, hf, -⟩ := snakeDict_eq_done_iff.mp hw
    rw [List.map_map] at hrs
    exact (failures_eq_nil_iff hk h hrs).mp hf
  · intro d hd
    obtain ⟨rs, hrs, hf, -⟩ := snakeDict_eq_rejected_iff.mp hd
    rw [List.map_map] at hrs
    exact mt (failures_eq_nil_iff hk h hrs).mpr hf

end Decides

end Checker

end Conform
