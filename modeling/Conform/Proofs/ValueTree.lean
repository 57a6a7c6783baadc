import Conform.Value.Table
import Mathlib.Data.List.Forall2

namespace Conform.Value

@[elab_as_elim, induction_eliminator]
theorem tree_induction {motive : Value → Prop}
    (undefined : motive .undefined)
    (null : motive .null)
    (bool : ∀ b, motive (.bool b))
    (int : ∀ n, motive (.int n))
    (float : ∀ x, motive (.float x))
    (decimal : ∀ x, motive (.decimal x))
    (str : ∀ s, motive (.str s))
    (bytes : ∀ bs, motive (.bytes bs))
    (date : ∀ d, motive (.date d))
    (datetime : ∀ t, motive (.datetime t))
    (object : ∀ type i, motive (.object type i))
    (list : ∀ xs, (∀ x ∈ xs, motive x) → motive (.list xs))
    (tuple : ∀ xs, (∀ x ∈ xs, motive x) → motive (.tuple xs))
    (set : ∀ xs, (∀ x ∈ xs, motive x) → motive (.set xs))
    (dict : ∀ es, (∀ e ∈ es, motive e.1 ∧ motive e.2) → motive (.dict es))
    (view : ∀ es, (∀ e ∈ es, motive e.1 ∧ motive e.2) → motive (.view es))
    (mapping : ∀ type held refusal walked stop, (∀ e ∈ held, motive e.1 ∧ motive e.2) →
      (∀ e ∈ walked, motive e.1 ∧ motive e.2) → motive (.mapping type held refusal walked stop))
    (record : ∀ type fs, (∀ f ∈ fs, motive f.2) → motive (.record type fs))
    (cyclic : ∀ i nodes n, (∀ x ∈ nodes, motive x) → motive (.cyclic i nodes n))
    (again : ∀ n, motive (.again n)) (v : Value) : motive v :=
  @Value.rec motive (fun xs => ∀ x ∈ xs, motive x) (fun es => ∀ e ∈ es, motive e.1 ∧ motive e.2)
    (fun fs => ∀ f ∈ fs, motive f.2) (fun e => motive e.1 ∧ motive e.2) (fun f => motive f.2)
    undefined null bool int float decimal str bytes date datetime object list tuple set dict view
    (fun type held refusal walked stop hh hw => mapping type held refusal walked stop hh hw)
    record (fun i nodes n h => cyclic i nodes n h) again (by simp)
    (fun _ _ hx hxs => List.forall_mem_cons.mpr ⟨hx, hxs⟩) (by simp)
    (fun _ _ he hes => List.forall_mem_cons.mpr ⟨he, hes⟩) (by simp)
    (fun _ _ hf hfs => List.forall_mem_cons.mpr ⟨hf, hfs⟩) (fun _ _ hk hv => ⟨hk, hv⟩)
    (fun _ _ h => h) v

variable {known : Nat → Value → Bool} {b : Value}

theorem allVia_iff {xs ys : List Value} : allVia known xs ys = true ↔
    List.Forall₂ (fun x y => equalVia known x y = true) xs ys := by
  induction xs generalizing ys with
  | nil => cases ys <;> simp [allVia]
  | cons x xs ih =>
    cases ys with
    | nil => simp [allVia]
    | cons y ys => rw [allVia, Bool.and_eq_true, ih, List.forall₂_cons]

theorem withinVia_iff {xs ys : List Value} : withinVia known xs ys = true ↔
    ∀ x ∈ xs, ∃ y ∈ ys, equalVia known x y = true := by
  induction xs with
  | nil => simp [withinVia]
  | cons x xs ih => rw [withinVia, Bool.and_eq_true, ih, List.any_eq_true, List.forall_mem_cons]

theorem entriesVia_iff {es fs : List (Value × Value)} : entriesVia known es fs = true ↔
    ∀ e ∈ es, ∃ f ∈ fs, equalVia known e.1 f.1 = true ∧ equalVia known e.2 f.2 = true := by
  induction es with
  | nil => simp [entriesVia]
  | cons e es ih =>
    rw [entriesVia, Bool.and_eq_true, ih, List.any_eq_true, List.forall_mem_cons]
    simp only [Bool.and_eq_true]

theorem fieldsVia_iff {fs gs : List (String × Value)} : fieldsVia known fs gs = true ↔
    List.Forall₂ (fun f g => f.1 = g.1 ∧ equalVia known f.2 g.2 = true) fs gs := by
  induction fs generalizing gs with
  | nil => cases gs <;> simp [fieldsVia]
  | cons f fs ih =>
    cases gs with
    | nil => simp [fieldsVia]
    | cons g gs =>
      rw [fieldsVia, Bool.and_eq_true, Bool.and_eq_true, ih, List.forall₂_cons, beq_iff_eq]

theorem list_equalVia_iff {xs : List Value} : equalVia known (.list xs) b = true ↔
    ∃ ys, b.unrolled = .list ys ∧
      List.Forall₂ (fun x y => equalVia known x y = true) xs ys := by
  rw [equalVia]
  split <;> simp_all [allVia_iff]

theorem tuple_equalVia_iff {xs : List Value} : equalVia known (.tuple xs) b = true ↔
    ∃ ys, b.unrolled = .tuple ys ∧
      List.Forall₂ (fun x y => equalVia known x y = true) xs ys := by
  rw [equalVia]
  split <;> simp_all [allVia_iff]

theorem set_equalVia_iff {xs : List Value} : equalVia known (.set xs) b = true ↔
    ∃ ys, b.unrolled = .set ys ∧ xs.length = ys.length ∧
      ∀ x ∈ xs, ∃ y ∈ ys, equalVia known x y = true := by
  rw [equalVia]
  split <;> simp_all [withinVia_iff]

theorem record_equalVia_iff {type : String} {fs : List (String × Value)} :
    equalVia known (.record type fs) b = true ↔ ∃ gs, b.unrolled = .record type gs ∧
      List.Forall₂ (fun f g => f.1 = g.1 ∧ equalVia known f.2 g.2 = true) fs gs := by
  rw [equalVia]
  constructor
  · intro h
    split at h
    next gs hb =>
      rw [Bool.and_eq_true, beq_iff_eq, fieldsVia_iff] at h
      exact ⟨gs, by rw [hb, h.1], h.2⟩
    next => contradiction
  · rintro ⟨gs, hb, h⟩
    simp [hb, fieldsVia_iff, h]

theorem mapping_equalVia_iff {a : Value} {es : List (Value × Value)}
    (ha : a.unrolled = a) (hes : a.entries? = some es) : equalVia known a b = true ↔
      ∃ fs, b.entries? = some fs ∧ es.length = fs.length ∧
        ∀ e ∈ es, ∃ f ∈ fs, equalVia known e.1 f.1 = true ∧ equalVia known e.2 f.2 = true := by
  have hmatch : equalVia known a b =
      b.entries?.elim false fun fs => es.length == fs.length && entriesVia known es fs := by
    rw [entries?, ha] at hes
    cases a with
    | dict | view | mapping =>
      cases hes
      rw [equalVia]
      cases b.entries? <;> rfl
    | _ => contradiction
  rw [hmatch]
  cases b.entries? <;> simp [entriesVia_iff]

def isScalar : Value → Bool
  | .list _ | .tuple _ | .set _ | .dict _ | .view _ | .mapping .. | .record .. | .cyclic ..
  | .again _ => false
  | _ => true

theorem scalar_equalVia {a : Value} (ha : a.isScalar = true) : equalVia known a b = a.equal b := by
  cases a <;> first | rfl | contradiction

theorem isScalar_of_scalar_equal {a : Value} (ha : a.isScalar = true) (h : a.equal b = true) :
    b.isScalar = true := by
  cases b with
  | list | tuple | set | dict | view | mapping | record | cyclic | again =>
    cases a <;> contradiction
  | _ => rfl

def isNodeOf (i : Identity) (nodes : List Value) (n : Nat) : Value → Bool
  | .cyclic j others m =>
    i = j && n = m && nodes.map isContainer == others.map isContainer &&
      allVia (fun n b => b.isReferenceTo n) nodes others
  | _ => false

def knownAfter (i : Identity) (nodes : List Value) (k : Nat) : Nat → Value → Bool :=
  Nat.repeat (fun known n b => isNodeOf i nodes n b || nodeVia known nodes n b) k
    (fun _ _ => false)

theorem cyclic_equalVia (i : Identity) (nodes : List Value) (n : Nat) :
    equalVia known (.cyclic i nodes n) b = knownAfter i nodes rounds n b := rfl

theorem nodeVia_iff {nodes : List Value} {n : Nat} : nodeVia known nodes n b = true ↔
    ∃ v, nodes[n]? = some v ∧ v.isContainer = true ∧ equalVia known v b = true := by
  induction nodes generalizing n with
  | nil => simp [nodeVia]
  | cons v nodes ih =>
    cases n with
    | zero => simp [nodeVia]
    | succ n => rw [nodeVia, ih, List.getElem?_cons_succ]

theorem knownAfter_succ_iff {i : Identity} {nodes : List Value} {k n : Nat} :
    knownAfter i nodes (k + 1) n b = true ↔ isNodeOf i nodes n b = true ∨
      ∃ v, nodes[n]? = some v ∧ v.isContainer = true ∧
        equalVia (knownAfter i nodes k) v b = true := by
  rw [← nodeVia_iff, ← Bool.or_eq_true]
  rfl

theorem equal_self (v : Value) : v.equal v = true := by
  induction v with
  | list xs ih => exact list_equalVia_iff.mpr ⟨xs, rfl, List.forall₂_same.mpr ih⟩
  | tuple xs ih => exact tuple_equalVia_iff.mpr ⟨xs, rfl, List.forall₂_same.mpr ih⟩
  | set xs ih => exact set_equalVia_iff.mpr ⟨xs, rfl, rfl, fun x hx => ⟨x, hx, ih x hx⟩⟩
  | dict es ih | view es ih | mapping _ _ _ es _ _ ih =>
    exact (mapping_equalVia_iff rfl rfl).mpr ⟨es, rfl, rfl, fun e he => ⟨e, he, ih e he⟩⟩
  | record type fs ih =>
    exact record_equalVia_iff.mpr ⟨fs, rfl, List.forall₂_same.mpr fun f hf => ⟨rfl, ih f hf⟩⟩
  | cyclic i nodes n ih =>
    have hnodes : allVia (fun n b => b.isReferenceTo n) nodes nodes = true :=
      allVia_iff.mpr (List.forall₂_same.mpr ih)
    have hsame : isNodeOf i nodes n (.cyclic i nodes n) = true := by simp [isNodeOf, hnodes]
    exact (knownAfter_succ_iff (k := 19999)).mpr (.inl hsame)
  | again n => simp [equal, equalVia, isReferenceTo]
  | datetime t => simp [equal, equalVia, DateTime.equal]
  | bool b => simp [equal, equalVia, number?, Number.equal]
  | int n => simp [equal, equalVia, number?, Number.equal]
  | float x => simp [equal, equalVia, number?, Number.equal]
  | decimal x => simp [equal, equalVia, number?, Number.equal]
  | _ => simp [equal, equalVia, isUndefined]

end Conform.Value
