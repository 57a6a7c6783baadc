import Conform.Value.Arithmetic
import Conform.Value.Table

namespace Conform.Value

def isReference : Value → Bool
  | .cyclic .. => true
  | .again _ => true
  | _ => false

inductive Grounded : Value → Prop
  | intro {v : Value} (loose : v.isReference = false)
      (items : ∀ xs, v.items? = some xs → ∀ x ∈ xs, Grounded x)
      (entries : ∀ es, v.entries? = some es → ∀ e ∈ es, Grounded e.2)
      (held : ∀ es, v.held? = some es → ∀ e ∈ es, Grounded e.2) : Grounded v

variable {v x : Value} {xs : List Value} {e : Value × Value} {es : List (Value × Value)}

theorem field_eq_undefined_or_mem (v k : Value) :
    v.field k = .undefined ∨ ∃ es, v.held? = some es ∧ ∃ e ∈ es, v.field k = e.2 := by
  unfold field
  cases hes : v.held? with
  | none => exact .inl rfl
  | some es =>
    cases hx : Table.lookup? es k with
    | none => exact .inl (by simp only [hx, Option.getD_none])
    | some x =>
      obtain ⟨e, he, rfl⟩ := Option.map_eq_some_iff.mp hx
      refine .inr ⟨es, rfl, e, List.mem_of_find?_eq_some he, ?_⟩
      simp only [hx, Option.getD_some]

theorem depth_le_depthAll (hx : x ∈ xs) : x.depth ≤ depthAll xs := by
  induction xs with
  | nil => contradiction
  | cons y ys ih =>
    rw [depthAll]
    rcases List.mem_cons.mp hx with rfl | hx
    · omega
    · have hy := ih hx
      omega

theorem depth_le_depthEntries (he : e ∈ es) : e.2.depth ≤ depthEntries es := by
  induction es with
  | nil => contradiction
  | cons f fs ih =>
    rw [depthEntries]
    rcases List.mem_cons.mp he with rfl | he
    · omega
    · have hf := ih he
      omega

namespace Grounded

theorem of_scalar (hv : v.isReference = false) (hi : v.items? = none) (he : v.entries? = none)
    (hh : v.held? = none) : v.Grounded :=
  ⟨hv, by simp [hi], by simp [he], by simp [hh]⟩

theorem list (h : ∀ x ∈ xs, x.Grounded) : (Value.list xs).Grounded := by
  constructor
  · rfl
  · intro _ hi
    cases hi
    exact h
  · intro _ he
    contradiction
  · intro _ he
    contradiction

theorem dict (h : ∀ e ∈ es, e.2.Grounded) : (Value.dict es).Grounded := by
  constructor
  · rfl
  · intro _ hi
    contradiction
  · intro _ he
    cases he
    exact h
  · intro _ he
    cases he
    exact h

theorem item (h : v.Grounded) (hv : v.items? = some xs) (hx : x ∈ xs) : x.Grounded := by
  cases h with
  | intro _ items _ _ => exact items xs hv x hx

theorem entry (h : v.Grounded) (hv : v.entries? = some es) (he : e ∈ es) : e.2.Grounded := by
  cases h with
  | intro _ _ entries _ => exact entries es hv e he

theorem field (h : v.Grounded) (k : Value) : (v.field k).Grounded := by
  rcases field_eq_undefined_or_mem v k with hk | ⟨es, hes, e, he, hk⟩
  · rw [hk]
    exact .of_scalar rfl rfl rfl rfl
  · rw [hk]
    cases h with
    | intro _ _ _ held => exact held es hes e he

theorem not_cyclic (i : Identity) (nodes : List Value) (n : Nat) :
    ¬ Grounded (.cyclic i nodes n) := by
  rintro ⟨loose, -⟩
  contradiction

theorem depth_item_lt (h : v.Grounded) (hv : v.items? = some xs) (hx : x ∈ xs) :
    x.depth < v.depth := by
  have hle := depth_le_depthAll hx
  cases v with
  | list ys | tuple ys =>
    cases hv
    rw [depth]
    omega
  | cyclic i nodes n => exact absurd h (not_cyclic i nodes n)
  | _ => contradiction

theorem depth_entry_lt (h : v.Grounded) (hv : v.entries? = some es) (he : e ∈ es) :
    e.2.depth < v.depth := by
  have hle := depth_le_depthEntries he
  cases v with
  | dict fs | view fs | mapping type held refusal walked stop =>
    cases hv
    rw [depth]
    omega
  | cyclic i nodes n => exact absurd h (not_cyclic i nodes n)
  | _ => contradiction

theorem depth_held_lt (h : v.Grounded) (hv : v.held? = some es) (he : e ∈ es) :
    e.2.depth < v.depth := by
  have hle := depth_le_depthEntries he
  cases v with
  | dict fs | view fs | mapping type held refusal walked stop =>
    cases hv
    rw [depth]
    omega
  | cyclic i nodes n => exact absurd h (not_cyclic i nodes n)
  | _ => contradiction

theorem depth_pos_of_isMapping (h : v.Grounded) (hv : v.isMapping = true) : 0 < v.depth := by
  cases v with
  | dict fs | view fs | mapping type held refusal walked stop =>
    rw [depth]
    omega
  | cyclic i nodes n => exact absurd h (not_cyclic i nodes n)
  | _ => contradiction

theorem depth_field_le (h : v.Grounded) (k : Value) : (v.field k).depth ≤ v.depth := by
  rcases field_eq_undefined_or_mem v k with hk | ⟨es, hes, e, he, hk⟩
  · rw [hk]
    exact Nat.zero_le _
  · rw [hk]
    exact Nat.le_of_lt (h.depth_held_lt hes he)

theorem depth_field_lt (h : v.Grounded) (hv : v.isMapping = true) (k : Value) :
    (v.field k).depth < v.depth := by
  rcases field_eq_undefined_or_mem v k with hk | ⟨es, hes, e, he, hk⟩
  · rw [hk]
    exact h.depth_pos_of_isMapping hv
  · rw [hk]
    exact h.depth_held_lt hes he

end Grounded

end Conform.Value
