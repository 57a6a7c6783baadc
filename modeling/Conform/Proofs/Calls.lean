import Conform.Proofs.CheckerFaults
import Conform.Proofs.ValidatorTree

/-!
The calls of a run: which parts of a validator it comes to, and with which values. A fault that ends
a run is one of a validator that the run comes to.
-/

namespace Conform.Validator

variable (resolve : String → Checker) (o : Display.Options)

/-- The run of the first validator on the first value comes to that of the second on the second. The
parts before it have let the run go on. -/
inductive Calls : Validator → Value → Validator → Value → Prop
  | item {c : Validator} {v x : Value} {before after : List Value}
      (hv : v.items? = some (before ++ x :: after)) (hx : x.isUndefined = false)
      (hb : ∀ y ∈ before, ∃ z, (Checker.sparing (c.run resolve o) y).outcome = .done z) :
      Calls (.list c) v c x
  | field {f : Value × Validator} {before after : List (Value × Validator)} {v : Value}
      (hv : v.isMapping = true) (hr : v.refusal? f.1 = none)
      (hb : ∀ g ∈ before, ∃ z, ((g.2.run resolve o).onField g.1 v).outcome = .done z) :
      Calls (.dict (before ++ f :: after)) v f.2 (v.field f.1)
  | snakeField {name : String} {c : Validator} {before after : List (Value × Validator)} {v : Value}
      (hr : v.refusal? (.str (Text.snakeCase name)) = none)
      (hb : ∀ g ∈ before, Checker.Named v (g.1, g.2.run resolve o)) :
      Calls (.snakeDict (before ++ (.str name, c) :: after)) v c
        (v.field (.str (Text.snakeCase name)))
  | entry {c : Validator} {v : Value} {e : Value × Value} {before after : List (Value × Value)}
      (hv : v.entries? = some (before ++ e :: after))
      (hb : ∀ g ∈ before, ∃ z, (c.run resolve o g.2).outcome = .done z) : Calls (.record c) v c e.2
  | choice {c : Validator} {before after : List Validator} {v : Value}
      (hb : ∀ b ∈ before, ∃ d, (b.run resolve o v).outcome = .rejected d) :
      Calls (.union (before ++ c :: after)) v c v
  | part {c : Validator} {before after : List Validator} {v : Value}
      (hb : ∀ b ∈ before, ∃ z, (b.run resolve o v).outcome = .done z) :
      Calls (.intersection (before ++ c :: after)) v c v
  | label (name : String) (c : Validator) (v : Value) : Calls (.label name c) v c v
  | mapped (c : Validator) (f : UserFunction) (v : Value) : Calls (.map c f) v c v
  | first (c d : Validator) (v : Value) : Calls (.andThen c d) v c v
  | second {c d : Validator} {v w : Value} (h : (c.run resolve o v).outcome = .done w) :
      Calls (.andThen c d) v d w

inductive Unserved : Validator → Value → Fault → Prop
  | refused {f : Value × Validator} {before after : List (Value × Validator)} {v : Value}
      {name : String} (hv : v.isMapping = true) (hr : v.refusal? f.1 = some name)
      (hb : ∀ g ∈ before, ∃ z, ((g.2.run resolve o).onField g.1 v).outcome = .done z) :
      Unserved (.dict (before ++ f :: after)) v (.foreign name)
  | noText {f : Value × Validator} {before after : List (Value × Validator)} {v : Value}
      {d : Diagnostic} (hv : v.isMapping = true) (hf : f.1.hasText = false)
      (hd : ((f.2.run resolve o).onField f.1 v).outcome = .rejected d)
      (hb : ∀ g ∈ before, ∃ z, ((g.2.run resolve o).onField g.1 v).outcome = .done z) :
      Unserved (.dict (before ++ f :: after)) v .noText
  | snakeRefused {key name : String} {c : Validator} {before after : List (Value × Validator)}
      {v : Value} (hr : v.refusal? (.str (Text.snakeCase key)) = some name)
      (hb : ∀ g ∈ before, Checker.Named v (g.1, g.2.run resolve o)) :
      Unserved (.snakeDict (before ++ (.str key, c) :: after)) v (.foreign name)
  | entryText {c : Validator} {v : Value} {e : Value × Value} {before after : List (Value × Value)}
      {d : Diagnostic} (hv : v.entries? = some (before ++ e :: after)) (he : e.1.hasText = false)
      (hd : (c.run resolve o e.2).outcome = .rejected d)
      (hb : ∀ g ∈ before, ∃ z, (c.run resolve o g.2).outcome = .done z) :
      Unserved (.record c) v .noText
  | stopped {c : Validator} {v : Value} {es : List (Value × Value)} {name : String}
      (hv : v.entries? = some es) (hs : v.stop? = some name)
      (hb : ∀ g ∈ es, ∃ z, (c.run resolve o g.2).outcome = .done z) :
      Unserved (.record c) v (.foreign name)

inductive OwnFault : Validator → Value → Fault → Prop
  | function {f : UserFunction} {v : Value} {e : Fault} (h : (f o v).outcome = .raised e) :
      OwnFault (.function f) v e
  | json {s : String} (h : Json.ofText s = .error .integerTooLong) :
      OwnFault .json (.str s) .integerTooLong
  | unserved {c : Validator} {v : Value} {e : Fault} (h : Unserved resolve o c v e) : OwnFault c v e
  | noName {f : Value × Validator} {before after : List (Value × Validator)} {v : Value}
      (hf : ∀ name, f.1 ≠ .str name) (hb : ∀ g ∈ before, Checker.Named v (g.1, g.2.run resolve o)) :
      OwnFault (.snakeDict (before ++ f :: after)) v .wrongKind
  | lazy {name : String} {v : Value} {e : Fault} (h : (resolve name v).outcome = .raised e) :
      OwnFault (.lazy name) v e
  | mapped {c : Validator} {f : UserFunction} {v w : Value} {e : Fault}
      (h : (c.run resolve o v).outcome = .done w) (hf : (f o w).outcome = .raised e) :
      OwnFault (.map c f) v e
  | model {m : Model} {v : Value} {e : Fault} (h : (m.read o v).result = .error e) :
      OwnFault (.model m) v e
  | bare (v : Value) : OwnFault .bare v .notImplemented

variable {resolve o} {c d : Validator} {v w : Value} {e : Fault}

theorem json_eq_raised_iff : (Checker.json v).outcome = .raised e ↔
    ∃ s, v = .str s ∧ Json.ofText s = .error .integerTooLong ∧ .integerTooLong = e := by
  constructor
  · intro h
    unfold Checker.json at h
    split at h
    next s =>
      split at h
      next => contradiction
      next => contradiction
      next hs =>
        cases h
        exact ⟨s, rfl, hs, rfl⟩
    next => contradiction
  · rintro ⟨s, rfl, hs, rfl⟩
    rw [Checker.json, hs]
    rfl

theorem model_eq_rejected_iff {m : Model} {d : Diagnostic} :
    (Checker.model m o v).outcome = .rejected d ↔ ∃ is, (m.read o v).result = .ok (.error is) ∧
      .label ("a valid " ++ m.name) (.ofIssues is v) = d := by
  unfold Checker.model
  split <;> simp_all

theorem model_eq_raised_iff {m : Model} :
    (Checker.model m o v).outcome = .raised e ↔ (m.read o v).result = .error e := by
  unfold Checker.model
  split <;> simp_all

theorem test_ne_raised (p : Value → Option Bool) (l : String) (v : Value) (e : Fault) :
    (Checker.test p l v).outcome ≠ .raised e := by
  unfold Checker.test
  split <;> simp

theorem Unserved.raised (h : Unserved resolve o c v e) :
    (c.run resolve o v).outcome = .raised e := by
  cases h with
  | refused hv hr hb =>
    rw [run_dict, List.map_append, List.map_cons]
    refine Checker.dict_eq_raised_iff.mpr ⟨hv, _, _, _, rfl, ?_, List.forall_mem_map.mpr hb⟩
    refine Checker.below_eq_raised_iff.mpr (.inl ?_)
    rw [Checker.onField_of_refusal?_eq_some hr]
    rfl
  | noText hv hf hd hb =>
    rw [run_dict, List.map_append, List.map_cons]
    refine Checker.dict_eq_raised_iff.mpr ⟨hv, _, _, _, rfl, ?_, List.forall_mem_map.mpr hb⟩
    exact Checker.below_eq_raised_iff.mpr (.inr ⟨hf, ⟨_, hd⟩, rfl⟩)
  | snakeRefused hr hb =>
    rw [run_snakeDict, List.map_append, List.map_cons]
    refine Checker.snakeDict_eq_raised_iff.mpr ⟨_, _, _, rfl, ?_, List.forall_mem_map.mpr hb⟩
    exact Checker.snakeField_eq_raised_iff.mpr
      (.inl ⟨_, rfl, Checker.onField_eq_raised_iff.mpr (.inl ⟨_, hr, rfl⟩)⟩)
  | entryText hv he hd hb =>
    refine Checker.record_eq_raised_iff.mpr ⟨_, hv, .inl ⟨_, _, _, rfl, ?_, hb⟩⟩
    exact Checker.below_eq_raised_iff.mpr (.inr ⟨he, ⟨_, hd⟩, rfl⟩)
  | stopped hv hs hb => exact Checker.record_eq_raised_iff.mpr ⟨_, hv, .inr ⟨hb, _, hs, rfl⟩⟩

theorem OwnFault.raised (h : OwnFault resolve o c v e) :
    (c.run resolve o v).outcome = .raised e := by
  cases h with
  | function h => exact h
  | json h => exact json_eq_raised_iff.mpr ⟨_, rfl, h, rfl⟩
  | unserved h => exact h.raised
  | noName hf hb =>
    rw [run_snakeDict, List.map_append, List.map_cons]
    apply Checker.snakeDict_eq_raised_iff.mpr
    exact ⟨_, _, _, rfl, Checker.snakeField_eq_raised_iff.mpr (.inr ⟨hf, rfl⟩),
      List.forall_mem_map.mpr hb⟩
  | lazy h => exact h
  | mapped h hf => exact Trace.bind_eq_raised_iff.mpr (.inr ⟨_, h, hf⟩)
  | model h => exact model_eq_raised_iff.mpr h
  | bare => rfl

theorem Calls.raised (h : Calls resolve o c v d w) (hw : (d.run resolve o w).outcome = .raised e) :
    (c.run resolve o v).outcome = .raised e := by
  cases h with
  | item hv hx hb => exact Checker.list_eq_raised_iff.mpr ⟨_, _, _, hv, hx, hw, hb⟩
  | field hv hr hb =>
    rw [run_dict, List.map_append, List.map_cons]
    refine Checker.dict_eq_raised_iff.mpr ⟨hv, _, _, _, rfl, ?_, List.forall_mem_map.mpr hb⟩
    exact Checker.below_eq_raised_iff.mpr (.inl (Checker.onField_eq_raised_iff.mpr (.inr ⟨hr, hw⟩)))
  | snakeField hr hb =>
    rw [run_snakeDict, List.map_append, List.map_cons]
    refine Checker.snakeDict_eq_raised_iff.mpr ⟨_, _, _, rfl, ?_, List.forall_mem_map.mpr hb⟩
    exact Checker.snakeField_eq_raised_iff.mpr
      (.inl ⟨_, rfl, Checker.onField_eq_raised_iff.mpr (.inr ⟨hr, hw⟩)⟩)
  | entry hv hb =>
    refine Checker.record_eq_raised_iff.mpr ⟨_, hv, .inl ⟨_, _, _, rfl, ?_, hb⟩⟩
    exact Checker.below_eq_raised_iff.mpr (.inl hw)
  | choice hb =>
    rw [run_union, List.map_append, List.map_cons]
    exact Checker.firstOf_eq_raised_iff.mpr ⟨_, _, _, rfl, hw, List.forall_mem_map.mpr hb⟩
  | part hb =>
    rw [run_intersection, List.map_append, List.map_cons]
    exact Checker.intersection_eq_raised_iff.mpr ⟨_, _, _, rfl, hw, List.forall_mem_map.mpr hb⟩
  | label => exact Trace.mapRejection_eq_raised_iff.mpr hw
  | mapped => exact Trace.bind_eq_raised_iff.mpr (.inl hw)
  | first => exact Trace.bind_eq_raised_iff.mpr (.inl hw)
  | second h => exact Trace.bind_eq_raised_iff.mpr (.inr ⟨_, h, hw⟩)

variable (resolve o) in
inductive Visits : Validator → Value → Validator → Value → Prop
  | here (c : Validator) (v : Value) : Visits c v c v
  | call {c d b : Validator} {v w x : Value} (h : Calls resolve o c v d w) (hs : Visits d w b x) :
      Visits c v b x

theorem Visits.raised (h : Visits resolve o c v d w) (hf : OwnFault resolve o d w e) :
    (c.run resolve o v).outcome = .raised e := by
  induction h with
  | here => exact hf.raised
  | call h _ ih => exact h.raised (ih hf)

end Conform.Validator

namespace Conform.Definitions

open Validator

variable (defs : Definitions) (o : Display.Options)

/-- The run of the first validator on the first value comes to that of the second on the second; the
numbers tell how many lookups may still follow, one inside the other. -/
inductive Enters : Nat → Validator → Value → Nat → Validator → Value → Prop
  | here (n : Nat) (c : Validator) (v : Value) : Enters n c v n c v
  | call {n m : Nat} {c d b : Validator} {v w x : Value}
      (h : Calls (defs.resolve o n) o c v d w) (hs : Enters n d w m b x) : Enters n c v m b x
  | lookup {n m : Nat} {name : String} {d b : Validator} {v x : Value}
      (hd : (defs.find? name >>= Schema.elaborate) = .ok d) (hs : Enters n d v m b x) :
      Enters (n + 1) (.lazy name) v m b x

variable {defs o} {n m : Nat} {c d b : Validator} {v w x : Value} {e : Fault}

theorem Enters.raised (h : defs.Enters o n c v m b x)
    (hb : (b.run (defs.resolve o m) o x).outcome = .raised e) :
    (c.run (defs.resolve o n) o v).outcome = .raised e := by
  induction h with
  | here => exact hb
  | call h _ ih => exact h.raised (ih hb)
  | @lookup n m name d b v x hd _ ih =>
    change (defs.resolve o (n + 1) name v).outcome = .raised e
    rw [resolve, hd]
    exact ih hb

end Conform.Definitions
