import Conform.Proofs.Calls
import Conform.Proofs.Grounded
import Conform.Proofs.Settling
import Conform.Proofs.ValidatorTree
import Conform.Validator.Stock
import Mathlib.Logic.Function.Iterate

/-!
Recursive definitions. Where references stand below the items of a list, the fields of a dict or the
values of a record, every lookup goes one step down the data, so that its depth bounds how many
lookups there are one inside the other.
-/

namespace Conform

namespace Validator

def Finishes (f : UserFunction) : Prop := ∀ o v, (f o v).outcome ≠ .raised .unfinished

/-- No reference is followed with the whole input, or with the input itself if only a part of the
whole is checked `below` a list, dict or record. A dict in snake case can check what is absent, over
and over, and makes no part of anything. -/
inductive Guarded (refs : Set String) : Bool → Validator → Prop
  | test {below : Bool} (p : Value → Option Bool) (l : String) : Guarded refs below (.test p l)
  | json {below : Bool} : Guarded refs below .json
  | constant {below : Bool} (v : Value) : Guarded refs below (.constant v)
  | model {below : Bool} {m : Model} (hm : Finishes (Checker.model m)) :
      Guarded refs below (.model m)
  | bare {below : Bool} : Guarded refs below .bare
  | list {below : Bool} {c : Validator} (h : Guarded refs true c) : Guarded refs below (.list c)
  | dict {below : Bool} {fs : List (Value × Validator)} (h : ∀ f ∈ fs, Guarded refs true f.2) :
      Guarded refs below (.dict fs)
  | record {below : Bool} {c : Validator} (h : Guarded refs true c) :
      Guarded refs below (.record c)
  | snakeDict {below : Bool} {fs : List (Value × Validator)}
      (h : ∀ f ∈ fs, Guarded refs below f.2) : Guarded refs below (.snakeDict fs)
  | union {below : Bool} {cs : List Validator} (h : ∀ c ∈ cs, Guarded refs below c) :
      Guarded refs below (.union cs)
  | intersection {below : Bool} {cs : List Validator} (h : ∀ c ∈ cs, Guarded refs below c) :
      Guarded refs below (.intersection cs)
  | label {below : Bool} {c : Validator} (name : String) (h : Guarded refs below c) :
      Guarded refs below (.label name c)
  | map {below : Bool} {c : Validator} {f : UserFunction} (h : Guarded refs below c)
      (hf : Finishes f) : Guarded refs below (.map c f)
  | lazy {name : String} (h : name ∈ refs) : Guarded refs true (.lazy name)

variable {refs : Set String} {o : Display.Options}

theorem copyOf_finishes (d : Value) : Finishes (copyOf d) := by
  intro o v
  unfold copyOf
  split <;> simp

theorem Guarded.withDefault {below : Bool} {c : Validator} (d : Value) (h : c.Guarded refs below) :
    (Validator.withDefault d c).Guarded refs below := by
  refine .union (List.forall_mem_cons.mpr ⟨h, List.forall_mem_singleton.mpr ?_⟩)
  exact .map (.test _ _) (copyOf_finishes d)

theorem json_finished (v : Value) : (Checker.json v).outcome ≠ .raised .unfinished := by
  intro h
  obtain ⟨s, -, -, he⟩ := json_eq_raised_iff.mp h
  contradiction

theorem Guarded.settles {below : Bool} {c : Validator} (h : c.Guarded refs below)
    {resolve resolve' : String → Checker} {k : Nat}
    (hr : ∀ name ∈ refs, ∀ v : Value, v.Grounded → v.depth < k →
      (resolve name v).Settles (resolve' name v)) (o : Display.Options) {v : Value}
    (hv : v.Grounded) (hk : v.depth + below.toNat ≤ k) :
    (c.run resolve o v).Settles (c.run resolve' o v) := by
  induction h generalizing v with
  | test p l => exact .refl (test_ne_raised p l v _)
  | json => exact .refl (json_finished v)
  | constant w => exact .pure w
  | model hm => exact .refl (hm o v)
  | bare => exact .refl (by simp [run])
  | list _ ih =>
    apply Checker.settles_list
    intro xs hxs x hx
    have hlt := hv.depth_item_lt hxs hx
    exact ih (hv.item hxs hx) (by simp only [Bool.toNat_true]; omega)
  | dict _ ih =>
    rw [run_dict, run_dict]
    apply Checker.settles_dict
    intro hm f hf
    have hlt := hv.depth_field_lt hm f.1
    exact ih f hf (hv.field f.1) (by simp only [Bool.toNat_true]; omega)
  | record _ ih =>
    apply Checker.settles_record
    intro es hes e he
    have hlt := hv.depth_entry_lt hes he
    exact ih (hv.entry hes he) (by simp only [Bool.toNat_true]; omega)
  | snakeDict _ ih =>
    rw [run_snakeDict, run_snakeDict]
    apply Checker.settles_snakeDict
    intro f hf key
    have hle := hv.depth_field_le key
    exact ih f hf (hv.field key) (by omega)
  | union _ ih =>
    rw [run_union, run_union]
    apply Checker.settles_firstOf
    intro c hc
    exact ih c hc hv hk
  | intersection _ ih =>
    rw [run_intersection, run_intersection]
    apply Checker.settles_intersection
    intro c hc
    exact ih c hc hv hk
  | label name _ ih => exact (ih hv hk).mapRejection _
  | map _ hf ih => exact (ih hv hk).bind fun w => .refl (hf o w)
  | lazy hn => exact hr _ hn v hv hk

end Validator

namespace Definitions

variable (defs : Definitions) (o : Display.Options)

/-- The check comes to an end with `n` lookups one inside the other, and more are never made. -/
def Terminates (c : Validator) (v : Value) (n : Nat) : Prop :=
  (c.run (defs.resolve o n) o v).outcome ≠ .raised .unfinished ∧
    ∀ m, n ≤ m → c.run (defs.resolve o m) o v = c.run (defs.resolve o n) o v

variable {defs} {refs : Set String}

theorem resolve_settles
    (hdefs : ∀ name ∈ refs, ∀ c, (defs.find? name >>= Schema.elaborate) = .ok c →
      c.Guarded refs false) {n m : Nat} (h : n ≤ m) :
    ∀ name ∈ refs, ∀ v : Value, v.Grounded → v.depth < n →
      (defs.resolve o n name v).Settles (defs.resolve o m name v) := by
  induction n generalizing m with
  | zero =>
    intro name _ v _ hd
    exact absurd hd (Nat.not_lt_zero _)
  | succ n ih =>
    obtain ⟨m, rfl⟩ : ∃ k, m = k + 1 := ⟨m - 1, by omega⟩
    intro name hname v hv hd
    rw [resolve, resolve]
    cases hc : defs.find? name >>= Schema.elaborate with
    | ok c =>
      -- inside the definition one lookup less is left, for values less deep by one
      have hn : n ≤ m := Nat.le_of_succ_le_succ h
      exact (hdefs name hname c hc).settles (ih hn) o hv (Nat.le_of_lt_succ hd)
    | error e => exact .refl (by simp)

def Refuses (key v : Value) (e : Fault) : Prop :=
  ∃ (n : Nat) (name : String), ((·.field key)^[n] v).refusal? key = some name ∧ e = .foreign name

theorem snakeDict_eq_raised_of_field {field : String} {c : Checker} {v : Value} {e : Fault}
    (h : (c.onField (.str (Text.snakeCase field)) v).outcome = .raised e) :
    (Checker.snakeDict [(.str field, c)] v).outcome = .raised e := by
  apply Checker.snakeDict_eq_raised_iff.mpr
  refine ⟨[], _, [], rfl, ?_, by simp⟩
  exact Checker.snakeField_eq_raised_iff.mpr (.inl ⟨field, rfl, h⟩)

theorem resolve_snakeDict_self {name : String} {field : String}
    (h : (defs.find? name >>= Schema.elaborate) =
      .ok (.snakeDict [(.str field, .lazy name)])) (n : Nat) (v : Value) :
    (defs.resolve o n name v).outcome = .raised .unfinished ∨
      ∃ e, Refuses (.str (Text.snakeCase field)) v e ∧
        (defs.resolve o n name v).outcome = .raised e := by
  induction n generalizing v with
  | zero => exact .inl rfl
  | succ n ih =>
    rw [resolve, h]
    change (Checker.snakeDict [(.str field, defs.resolve o n name)] v).outcome = _ ∨
      ∃ e, _ ∧ (Checker.snakeDict [(.str field, defs.resolve o n name)] v).outcome = _
    cases hr : v.refusal? (.str (Text.snakeCase field)) with
    | some e =>
      refine .inr ⟨.foreign e, ⟨0, e, hr, rfl⟩, snakeDict_eq_raised_of_field ?_⟩
      exact Checker.onField_eq_raised_iff.mpr (.inl ⟨e, hr, rfl⟩)
    | none =>
      have hfield := Checker.onField_of_refusal?_eq_none (c := defs.resolve o n name) hr
      rcases ih (v.field (.str (Text.snakeCase field))) with hu | ⟨e, ⟨k, name, hk, rfl⟩, he⟩
      · exact .inl (snakeDict_eq_raised_of_field (hfield ▸ hu))
      · exact .inr ⟨_, ⟨k + 1, name, hk, rfl⟩, snakeDict_eq_raised_of_field (hfield ▸ he)⟩

theorem terminates_of_guarded {c : Validator} (hc : c.Guarded refs false)
    (hdefs : ∀ name ∈ refs, ∀ c, (defs.find? name >>= Schema.elaborate) = .ok c →
      c.Guarded refs false) {v : Value} (hv : v.Grounded) : defs.Terminates o c v v.depth := by
  have hsettles {m : Nat} (hm : v.depth ≤ m) :
      (c.run (defs.resolve o v.depth) o v).Settles (c.run (defs.resolve o m) o v) :=
    hc.settles (resolve_settles o hdefs hm) o hv (Nat.le_refl _)
  exact ⟨(hsettles (Nat.le_refl _)).finished, fun m hm => (hsettles hm).eq.symm⟩

theorem terminates_within_depth
    (hdefs : ∀ name ∈ refs, ∀ c, (defs.find? name >>= Schema.elaborate) = .ok c →
      c.Guarded refs false) :
    (∀ c : Validator, c.Guarded refs false → ∀ v : Value, v.Grounded →
      defs.Terminates o c v v.depth) ∧
    ∀ (defs : Definitions) (name field : String),
      (defs.find? name >>= Schema.elaborate) = .ok (.snakeDict [(.str field, .lazy name)]) →
      ∀ n v, ((Validator.snakeDict [(.str field, .lazy name)]).run (defs.resolve o n) o v).outcome =
          .raised .unfinished ∨
        ∃ e, Refuses (.str (Text.snakeCase field)) v e ∧
          ((Validator.snakeDict [(.str field, .lazy name)]).run (defs.resolve o n) o v).outcome =
            .raised e := by
  refine ⟨fun c hc v hv => terminates_of_guarded o hc hdefs hv, fun defs name field h n v => ?_⟩
  have hsucc := resolve_snakeDict_self o h (n + 1) v
  rwa [resolve, h] at hsucc

theorem terminates_within_depth_tree :
    let fields : List (Value × Validator) := [(.str "left", .union [.lazy "tree", .undefined]),
      (.str "rest", .withDefault (.list []) (.list (.lazy "tree")))]
    let tree : Validator := .dict fields
    let defs : Definitions := [("tree", .validator tree)]
    let c : Validator := .union [.null, .record (.lazy "tree")]
    let v : Value := .dict [(.str "a", .dict [(.str "left", .dict [(.str "left", .null)])])]
    let loop : Validator := .snakeDict [(.str "next", .lazy "n")]
    (∀ name ∈ ({"tree"} : Set String), ∀ c, (defs.find? name >>= Schema.elaborate) = .ok c →
        c.Guarded {"tree"} false) ∧
      c.Guarded {"tree"} false ∧ v.Grounded ∧ v.depth = 3 ∧ defs.Terminates .default c v 3 ∧
      ∀ n, (loop.run (resolve [("n", .validator loop)] .default n) .default v).outcome =
        .raised .unfinished := by
  intro fields tree defs c v loop
  have hlazy : (Validator.lazy "tree").Guarded {"tree"} true := .lazy rfl
  have htree : tree.Guarded {"tree"} false := by
    refine .dict (List.forall_mem_cons.mpr ⟨.union ?_, List.forall_mem_singleton.mpr ?_⟩)
    · exact List.forall_mem_cons.mpr ⟨hlazy, List.forall_mem_singleton.mpr (.test _ _)⟩
    · exact .withDefault _ (.list hlazy)
  have hdefs : ∀ name ∈ ({"tree"} : Set String), ∀ c,
      (defs.find? name >>= Schema.elaborate) = .ok c → c.Guarded {"tree"} false := by
    rintro name rfl c hc
    cases hc
    exact htree
  have hc : c.Guarded {"tree"} false := by
    refine .union (List.forall_mem_cons.mpr ⟨.test _ _, ?_⟩)
    exact List.forall_mem_singleton.mpr (.record hlazy)
  have hv : v.Grounded := by
    refine .dict (List.forall_mem_singleton.mpr ?_)
    refine .dict (List.forall_mem_singleton.mpr ?_)
    exact .dict (List.forall_mem_singleton.mpr (.of_scalar rfl rfl rfl rfl))
  have h := terminates_within_depth .default hdefs
  refine ⟨hdefs, hc, hv, rfl, h.1 c hc v hv, fun n => ?_⟩
  rcases h.2 [("n", .validator loop)] "n" "next" rfl n v with hn | ⟨e, ⟨k, name, hk, -⟩, -⟩
  · exact hn
  · cases k with
    | zero => contradiction
    | succ k =>
      have hv : v.field (.str (Text.snakeCase "next")) = .undefined := rfl
      rw [Function.iterate_succ_apply, hv, Function.iterate_fixed rfl] at hk
      contradiction

end Definitions

end Conform
