import Conform.Proofs.CheckerOutcome
import Conform.Proofs.ValidatorTree
import Mathlib.Data.List.Forall2

/-!
Two runs side by side. Checkers that are put together in the same way from parts that run alike run
alike, whatever relation their reports stand in, as long as the ways to make reports keep it.
-/

namespace Conform

/-- Both traces write the same log and come to related results, to related reports or to the same
fault. If `cut` holds, the first may also be cut short by any fault. -/
inductive Trace.Like (cut : Prop) (D : Diagnostic → Diagnostic → Prop) {α β : Type}
    (R : α → β → Prop) : Trace α → Trace β → Prop
  | done {log : List LogRecord} {a : α} {b : β} (h : R a b) :
      Like cut D R ⟨log, .done a⟩ ⟨log, .done b⟩
  | rejected {log : List LogRecord} {d e : Diagnostic} (h : D d e) :
      Like cut D R ⟨log, .rejected d⟩ ⟨log, .rejected e⟩
  | raised (log : List LogRecord) (f : Fault) : Like cut D R ⟨log, .raised f⟩ ⟨log, .raised f⟩
  | cut (h : cut) (log : List LogRecord) (f : Fault) (u : Trace β) :
      Like cut D R ⟨log, .raised f⟩ u

structure ReportCongruence (D : Diagnostic → Diagnostic → Prop) : Prop where
  refl (d : Diagnostic) : D d d
  label {d e : Diagnostic} (h : D d e) (name : String) : D (.label name d) (.label name e)
  under {d e : Diagnostic} (h : D d e) (s : String) : D (d.under s) (e.under s)
  combine {a b d e : Diagnostic} (h : D a b) (h' : D d e) : D (a.combine d) (b.combine e)

theorem ReportCongruence.eq : ReportCongruence Eq where
  refl _ := rfl
  label h _ := congrArg _ h
  under h _ := congrArg _ h
  combine h h' := congrArg₂ _ h h'

theorem ReportCongruence.any : ReportCongruence fun _ _ => True :=
  ⟨fun _ => trivial, fun _ _ => trivial, fun _ _ => trivial, fun _ _ => trivial⟩

theorem ReportCongruence.foldl_combine {D : Diagnostic → Diagnostic → Prop}
    (hD : ReportCongruence D) {ds es : List Diagnostic} (h : List.Forall₂ D ds es)
    {a b : Diagnostic} (hab : D a b) :
    D (ds.foldl Diagnostic.combine a) (es.foldl Diagnostic.combine b) := by
  induction h generalizing a b with
  | nil => exact hab
  | cons hde _ ih => exact ih (hD.combine hab hde)

namespace Trace.Like

variable {cut : Prop} {D : Diagnostic → Diagnostic → Prop} {α β α' β' ι : Type} {R : α → β → Prop}
  {S : α' → β' → Prop} {t : Trace α} {u : Trace β}

theorem refl (hD : ReportCongruence D) (t : Trace α) : t.Like cut D Eq t := by
  obtain ⟨log, a | d | f⟩ := t
  · exact .done rfl
  · exact .rejected (hD.refl d)
  · exact .raised log f

theorem after (h : t.Like cut D R u) (log : List LogRecord) :
    (t.after log).Like cut D R (u.after log) := by
  cases h with
  | done h => exact .done h
  | rejected h => exact .rejected h
  | raised log' f => exact .raised _ f
  | cut h log' f u => exact .cut h _ f _

theorem bind {f : α → Trace α'} {g : β → Trace β'} (h : t.Like cut D R u)
    (hf : ∀ a b, R a b → (f a).Like cut D S (g b)) : (t >>= f).Like cut D S (u >>= g) := by
  cases h with
  | done h => exact (hf _ _ h).after _
  | rejected h => exact .rejected h
  | raised log f => exact .raised log f
  | cut h log f u => exact .cut h log f _

theorem map {u : Trace α} (h : t.Like cut D Eq u) (f : α → α') :
    (f <$> t).Like cut D Eq (f <$> u) := by
  rw [map_eq_pure_bind, map_eq_pure_bind]
  exact h.bind fun a b hab => .done (congrArg f hab)

theorem orElse {u : Trace β} {f : Diagnostic → Trace α} {g : Diagnostic → Trace β}
    (h : t.Like cut D R u) (hf : ∀ d e, D d e → (f d).Like cut D R (g e)) :
    (t.orElse f).Like cut D R (u.orElse g) := by
  cases h with
  | done h => exact .done h
  | rejected h => exact (hf _ _ h).after _
  | raised log f => exact .raised log f
  | cut h log f u => exact .cut h log f _

theorem mapRejection {f g : Diagnostic → Diagnostic} (h : t.Like cut D R u)
    (hf : ∀ d e, D d e → D (f d) (g e)) :
    (t.mapRejection f).Like cut D R (u.mapRejection g) := by
  rw [mapRejection_eq_orElse, mapRejection_eq_orElse]
  exact h.orElse fun d e hde => .rejected (hf d e hde)

theorem inOrder {f : ι → Trace α} {g : ι → Trace β} {is : List ι}
    (h : ∀ i ∈ is, (f i).Like cut D R (g i)) :
    (inOrder (is.map f)).Like cut D (List.Forall₂ R) (inOrder (is.map g)) := by
  induction is with
  | nil => exact .done .nil
  | cons i is ih =>
    obtain ⟨hi, his⟩ := List.forall_mem_cons.mp h
    exact hi.bind fun a b hab => (ih his).bind fun as bs habs => .done (.cons hab habs)

theorem inOrder_eq {f g : ι → Trace α} {is : List ι} (h : ∀ i ∈ is, (f i).Like cut D Eq (g i)) :
    (Trace.inOrder (is.map f)).Like cut D Eq (Trace.inOrder (is.map g)) := by
  have hlike := inOrder h
  rwa [List.forall₂_eq_eq_eq] at hlike

theorem below (hD : ReportCongruence D) (h : t.Like cut D R u) (k : Value) :
    (t.below k).Like cut D R (u.below k) := by
  rw [Checker.below_eq_orElse, Checker.below_eq_orElse]
  refine h.orElse fun d e hde => ?_
  split
  · exact .rejected (hD.under hde _)
  · exact .raised _ _

end Trace.Like

namespace Checker

variable {cut : Prop} {D : Diagnostic → Diagnostic → Prop}

def Like (cut : Prop) (D : Diagnostic → Diagnostic → Prop) (c c' : Checker) : Prop :=
  ∀ v, (c v).Like cut D Eq (c' v)

inductive FieldLike (D : Diagnostic → Diagnostic → Prop) : FieldResult → FieldResult → Prop
  | ok (k y : Value) : FieldLike D (k, .ok y) (k, .ok y)
  | error (k : Value) {d e : Diagnostic} (h : D d e) : FieldLike D (k, .error d) (k, .error e)

namespace FieldLike

variable {rs ss : List FieldResult}

theorem failures (h : List.Forall₂ (FieldLike D) rs ss) :
    List.Forall₂ D (failures rs) (Checker.failures ss) := by
  induction h with
  | nil => exact .nil
  | cons hrs _ ih =>
    cases hrs with
    | ok k y => exact ih
    | error k h => exact .cons h ih

theorem narrowed_eq (h : List.Forall₂ (FieldLike D) rs ss) : narrowed rs = narrowed ss := by
  induction h with
  | nil => rfl
  | cons hrs _ ih =>
    cases hrs with
    | ok k y => exact congrArg (addEntry k y) ih
    | error k h => exact ih

theorem attempt {t u : Trace Value} (h : t.Like cut D Eq u) (k : Value) :
    ((fun r => (k, r)) <$> t.attempt).Like cut D (FieldLike D)
      ((fun r => (k, r)) <$> u.attempt) := by
  cases h with
  | done h => exact .done (h ▸ .ok k _)
  | rejected h => exact .done (.error k h)
  | raised log f => exact .raised log f
  | cut h log f u => exact .cut h log f _

end FieldLike

namespace Like

variable {ι : Type} {c c' d d' : Checker} {f g : ι → Checker} {k : ι → Value} {is : List ι}

theorem onField (hD : ReportCongruence D) (h : c.Like cut D c') (key v : Value) :
    (c.onField key v).Like cut D Eq (c'.onField key v) :=
  (Trace.Like.refl hD (lookup v key)).bind fun x _ hx => hx ▸ h x

theorem list (hD : ReportCongruence D) (h : c.Like cut D c') :
    (list c).Like cut D (list c') := by
  intro v
  unfold Checker.list
  cases v.items? with
  | none => exact .rejected (hD.refl _)
  | some xs =>
    simp only [items_eq_inOrder]
    refine Trace.Like.map (Trace.Like.inOrder_eq fun p _ => ?_) _
    refine Trace.Like.mapRejection ?_ fun _ _ h => hD.under h _
    unfold sparing
    split
    · exact .done rfl
    · exact h p.1

theorem dict (hD : ReportCongruence D) (h : ∀ i ∈ is, (f i).Like cut D (g i)) :
    (dict (is.map fun i => (k i, f i))).Like cut D (dict (is.map fun i => (k i, g i))) := by
  intro v
  unfold Checker.dict
  split
  · simp only [fields_eq_inOrder, List.map_map]
    refine Trace.Like.map (Trace.Like.map (Trace.Like.inOrder_eq fun i hi => ?_) _) _
    exact ((h i hi).onField hD (k i) v).below hD (k i)
  · exact .rejected (hD.refl _)

theorem snakeField (hD : ReportCongruence D) (h : c.Like cut D c') (v l : Value) :
    (snakeField v (l, c)).Like cut D (FieldLike D) (Checker.snakeField v (l, c')) := by
  cases l with
  | str name =>
    have hfield := (h.onField hD (.str (Text.snakeCase name)) v).mapRejection fun _ _ h =>
      hD.label (hD.under h (Text.snakeCase name)) (fieldLabel (Text.snakeCase name))
    exact FieldLike.attempt hfield _
  | _ => exact .raised _ _

theorem snakeDict (hD : ReportCongruence D) (h : ∀ i ∈ is, (f i).Like cut D (g i)) :
    (snakeDict (is.map fun i => (k i, f i))).Like cut D
      (snakeDict (is.map fun i => (k i, g i))) := by
  intro v
  unfold Checker.snakeDict
  rw [snakeFields_eq_inOrder, snakeFields_eq_inOrder, List.map_map, List.map_map]
  refine (Trace.Like.inOrder fun i hi => snakeField hD (h i hi) v (k i)).bind fun rs ss hrs => ?_
  -- the same fields fail on both sides, so both end in the same way
  have hfailures := FieldLike.failures hrs
  rw [FieldLike.narrowed_eq hrs]
  generalize failures rs = ds at hfailures
  generalize failures ss = es at hfailures
  cases hfailures with
  | nil => exact .done rfl
  | cons h hs => exact .rejected (hD.foldl_combine (.cons h hs) (hD.refl _))

theorem record (hD : ReportCongruence D) (h : c.Like cut D c') :
    (record c).Like cut D (record c') := by
  intro v
  unfold Checker.record
  cases v.entries? with
  | none => exact .rejected (hD.refl _)
  | some es =>
    simp only [entries_eq_inOrder]
    have hentries := Trace.Like.inOrder_eq fun (e : Value × Value) (_ : e ∈ es) =>
      (h e.2).below hD e.1
    refine (hentries.map _).bind fun ys zs hyz => ?_
    rw [hyz]
    exact .refl hD _

theorem firstOf (hD : ReportCongruence D) (h : ∀ i ∈ is, (f i).Like cut D (g i)) (v : Value)
    {a b : Diagnostic} (hab : D a b) :
    (firstOf v a (is.map f)).Like cut D Eq (Checker.firstOf v b (is.map g)) := by
  induction is generalizing a b with
  | nil => exact .rejected hab
  | cons i is ih =>
    obtain ⟨hi, his⟩ := List.forall_mem_cons.mp h
    exact (hi v).orElse fun d e hde => ih his (hD.combine hab hde)

theorem union (hD : ReportCongruence D) (h : ∀ i ∈ is, (f i).Like cut D (g i)) :
    (union (is.map f)).Like cut D (union (is.map g)) :=
  fun v => firstOf hD h v (hD.refl _)

theorem intersection (h : ∀ i ∈ is, (f i).Like cut D (g i)) :
    (intersection (is.map f)).Like cut D (intersection (is.map g)) := by
  intro v
  unfold Checker.intersection
  rw [allOf_eq_inOrder, allOf_eq_inOrder, List.map_map, List.map_map]
  have hparts := Trace.Like.inOrder_eq fun i hi => h i hi v
  exact (hparts.map _).bind fun _ _ _ => .done rfl

theorem label (hD : ReportCongruence D) (h : c.Like cut D c') (name : String) :
    (label name c).Like cut D (label name c') :=
  fun v => (h v).mapRejection fun _ _ h => hD.label h name

theorem andThen (h : c.Like cut D c') (h' : d.Like cut D d') :
    (andThen c d).Like cut D (andThen c' d') :=
  fun v => (h v).bind fun a _ hab => hab ▸ h' a

theorem map (hD : ReportCongruence D) (h : c.Like cut D c') (f : Value → Trace Value) :
    (map c f).Like cut D (map c' f) :=
  h.andThen fun u => .refl hD (f u)

end Like

end Checker

end Conform
