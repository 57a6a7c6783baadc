import Conform.Schema.Expr

namespace Conform

theorem bind_eq_ok_iff {ε α β : Type} {x : Except ε α} {f : α → Except ε β} {b : β} :
    (x >>= f) = .ok b ↔ ∃ a, x = .ok a ∧ f a = .ok b := by
  cases x <;> simp [bind, Except.bind]

namespace Schema

theorem elaborateAll_cons {s : Schema} {ss : List Schema} {w : Validator} {ws : List Validator}
    (h : s.elaborate = .ok w) (hs : elaborateAll ss = .ok ws) :
    elaborateAll (s :: ss) = .ok (w :: ws) := by
  rw [elaborateAll, h, hs]
  rfl

theorem union_eq_ok {ss : List Schema} {ws : List Validator} (hne : ss ≠ [])
    (h : elaborateAll ss = .ok ws) : union ss = .ok (.union ws) := by
  cases ss with
  | nil => contradiction
  | cons s ss => simp only [union, h]; rfl

theorem union_pair {a b : Schema} {v w : Validator} (ha : a.elaborate = .ok v)
    (hb : b.elaborate = .ok w) : union [a, b] = .ok (.union [v, w]) :=
  union_eq_ok (by simp) (elaborateAll_cons ha (elaborateAll_cons hb rfl))

theorem exists_of_union {ss : List Schema} {w : Validator} (h : union ss = .ok w) :
    ∃ ws, w = .union ws := by
  unfold union at h
  split at h
  · contradiction
  · cases hs : elaborateAll ss with
    | error e => rw [hs] at h; contradiction
    | ok ws => rw [hs] at h; cases h; exact ⟨ws, rfl⟩

theorem elaborate_unwrapped {s : Schema} {w : Validator} (h : s.elaborate = .ok w) :
    s.unwrapped.elaborate = .ok w := by
  unfold unwrapped
  split
  · simp [elaborate] at h
  · exact h

theorem either_eq_ok {a b : Schema} {v w : Validator} (ha : a.elaborate = .ok v)
    (hb : b.elaborate = .ok w) (h : a = .validator v ∨ b = .validator w) :
    a.either b = .ok (.union (v.choices ++ w.choices)) := by
  rcases h with rfl | rfl
  · rw [either, hb]
    rfl
  · cases a with
    | validator u => cases ha; rfl
    | _ => simp only [either, elaborate_unwrapped ha]; rfl

theorem exists_of_either {a b : Schema} {w : Validator} (h : a.either b = .ok w) :
    ∃ ws, w = .union ws := by
  unfold either at h
  split at h
  · obtain ⟨v, -, hw⟩ := bind_eq_ok_iff.mp h
    cases hw
    exact ⟨_, rfl⟩
  · obtain ⟨v, -, hw⟩ := bind_eq_ok_iff.mp h
    cases hw
    exact ⟨_, rfl⟩
  · contradiction

end Schema

namespace Expr

def isUnion : Expr → Bool
  | .oneOf _ | .or2 .. | .or3 .. | .or4 .. | .optional _ | .nullable _ | .withDefault ..
  | .either .. => true
  | _ => false

theorem exists_of_bind_validator {x : Except SchemaError Validator} {s : Schema}
    (hx : ∀ w, x = .ok w → ∃ ws, w = .union ws) (h : (x >>= fun w => .ok (.validator w)) = .ok s) :
    ∃ ws, s = .validator (.union ws) := by
  obtain ⟨w, hw, hs⟩ := bind_eq_ok_iff.mp h
  obtain ⟨ws, rfl⟩ := hx w hw
  cases hs
  exact ⟨ws, rfl⟩

theorem exists_of_isUnion {defs : Definitions} {e : Expr} {s : Schema} (hu : e.isUnion = true)
    (h : e.build defs = .ok s) : ∃ ws, s = .validator (.union ws) := by
  cases e with
  | oneOf es =>
    obtain ⟨ss, -, h⟩ := bind_eq_ok_iff.mp h
    exact exists_of_bind_validator (fun w => Schema.exists_of_union) h
  | or2 a b =>
    obtain ⟨sa, -, h⟩ := bind_eq_ok_iff.mp h
    obtain ⟨sb, -, h⟩ := bind_eq_ok_iff.mp h
    exact exists_of_bind_validator (fun w => Schema.exists_of_union) h
  | or3 a b c =>
    obtain ⟨sa, -, h⟩ := bind_eq_ok_iff.mp h
    obtain ⟨sb, -, h⟩ := bind_eq_ok_iff.mp h
    obtain ⟨sc, -, h⟩ := bind_eq_ok_iff.mp h
    obtain ⟨inner, -, h⟩ := bind_eq_ok_iff.mp h
    exact exists_of_bind_validator (fun w => Schema.exists_of_union) h
  | or4 a b c d =>
    obtain ⟨sa, -, h⟩ := bind_eq_ok_iff.mp h
    obtain ⟨sb, -, h⟩ := bind_eq_ok_iff.mp h
    obtain ⟨sc, -, h⟩ := bind_eq_ok_iff.mp h
    obtain ⟨sd, -, h⟩ := bind_eq_ok_iff.mp h
    obtain ⟨left, -, h⟩ := bind_eq_ok_iff.mp h
    obtain ⟨right, -, h⟩ := bind_eq_ok_iff.mp h
    exact exists_of_bind_validator (fun w => Schema.exists_of_union) h
  | optional e | nullable e | withDefault d e =>
    obtain ⟨se, -, h⟩ := bind_eq_ok_iff.mp h
    obtain ⟨w, -, h⟩ := bind_eq_ok_iff.mp h
    cases h
    exact ⟨_, rfl⟩
  | either a b =>
    obtain ⟨sa, -, h⟩ := bind_eq_ok_iff.mp h
    obtain ⟨sb, -, h⟩ := bind_eq_ok_iff.mp h
    exact exists_of_bind_validator (fun w => Schema.exists_of_either) h
  | _ => contradiction

end Expr

end Conform
