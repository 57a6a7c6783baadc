import Conform.Proofs.IntegerText

namespace Conform.Json

inductive Position
  | value
  | items
  | members

def Starts (cs : List Char) (v : Value) (rest : List Char) : Prop :=
  value (2 * cs.length) cs = .ok (v, rest)

inductive Oversized : Position → List Char → Prop
  | literal {cs : List Char} (h : LongInteger cs) : Oversized .value cs
  | list {cs : List Char} (h : Oversized .items (skipBlanks cs)) : Oversized .value ('[' :: cs)
  | dict {cs : List Char} (h : Oversized .members (skipBlanks cs)) :
      Oversized .value ('\x7b' :: cs)
  | item {cs : List Char} (h : Oversized .value cs) : Oversized .items cs
  | laterItem {cs rest more : List Char} {v : Value} (hv : Starts cs v rest)
      (hc : skipBlanks rest = ',' :: more) (h : Oversized .items (skipBlanks more)) :
      Oversized .items cs
  | member {cs rest : List Char} {name : String} (hn : memberName cs = .ok (name, rest))
      (h : Oversized .value rest) : Oversized .members cs
  | laterMember {cs mid rest more : List Char} {name : String} {v : Value}
      (hn : memberName cs = .ok (name, mid)) (hv : Starts mid v rest)
      (hc : skipBlanks rest = ',' :: more) (h : Oversized .members (skipBlanks more)) :
      Oversized .members cs

variable {cs rest : List Char} {n : Nat} {v : Value}

theorem bind_eq_error_iff {ε α β : Type} {x : Except ε α} {f : α → Except ε β} {e : ε} :
    (x >>= f) = .error e ↔ x = .error e ∨ ∃ a, x = .ok a ∧ f a = .error e := by
  cases x <;> simp [bind, Except.bind]

theorem Starts.of_value (h : value n cs = .ok (v, rest)) (hn : 2 * cs.length ≤ n) :
    Starts cs v rest :=
  (value_eq (Nat.le_refl _) hn).trans h

theorem Starts.value (h : Starts cs v rest) (hn : 2 * cs.length ≤ n) :
    value n cs = .ok (v, rest) :=
  (value_eq hn (Nat.le_refl _)).trans h

theorem Starts.shorter {more : List Char} (h : Starts cs v rest)
    (hc : skipBlanks rest = ',' :: more) : (skipBlanks more).length < cs.length := by
  have hl := (ReadsOn.of_bound _).value h
  have hl' := length_lt_of_skipBlanks hc
  have hb := length_skipBlanks_le more
  omega

theorem string_ne_tooLong (cs : List Char) : string cs ≠ .error .integerTooLong := by
  unfold string
  split <;> simp

theorem memberName_ne_tooLong (cs : List Char) : memberName cs ≠ .error .integerTooLong := by
  unfold memberName
  split
  next tail =>
    intro h
    rcases bind_eq_error_iff.mp h with h | ⟨⟨name, rest⟩, -, h⟩
    · exact string_ne_tooLong tail h
    · dsimp only at h
      split at h <;> contradiction
  next => simp

structure Refuses (n : Nat) : Prop where
  value : ∀ {cs}, value n cs = .error .integerTooLong → 2 * cs.length ≤ n → Oversized .value cs
  items : ∀ {cs}, items n cs = .error .integerTooLong → 2 * cs.length < n → Oversized .items cs
  members : ∀ {cs}, members n cs = .error .integerTooLong → 2 * cs.length < n →
    Oversized .members cs

namespace Refuses

theorem value_succ (ih : Refuses n) (h : Json.value (n + 1) cs = .error .integerTooLong)
    (hn : 2 * cs.length ≤ n + 1) : Oversized .value cs := by
  unfold Json.value at h
  split at h
  next tail =>
    rcases bind_eq_error_iff.mp h with h | ⟨_, -, h⟩
    · exact absurd h (string_ne_tooLong tail)
    · contradiction
  next tail =>
    have hb := length_skipBlanks_le tail
    rw [List.length_cons] at hn
    split at h
    next => contradiction
    next =>
      rcases bind_eq_error_iff.mp h with h | ⟨_, -, h⟩
      · exact .list (ih.items h (by omega))
      · contradiction
  next tail =>
    have hb := length_skipBlanks_le tail
    rw [List.length_cons] at hn
    split at h
    next => contradiction
    next =>
      rcases bind_eq_error_iff.mp h with h | ⟨_, -, h⟩
      · exact .dict (ih.members h (by omega))
      · contradiction
  next => exact .literal (scalar_eq_tooLong_iff.mp h)

theorem items_succ (ih : Refuses n) (h : Json.items (n + 1) cs = .error .integerTooLong)
    (hn : 2 * cs.length < n + 1) : Oversized .items cs := by
  rw [Json.items] at h
  rcases bind_eq_error_iff.mp h with h | ⟨⟨x, rest⟩, hx, h⟩
  · exact .item (ih.value h (by omega))
  · have hs : Starts cs x rest := .of_value hx (by omega)
    dsimp only at h
    split at h
    next more hc =>
      have hl := hs.shorter hc
      rcases bind_eq_error_iff.mp h with h | ⟨_, -, h⟩
      · exact .laterItem hs hc (ih.items h (by omega))
      · contradiction
    next => contradiction
    next => cases h

theorem members_succ (ih : Refuses n) (h : Json.members (n + 1) cs = .error .integerTooLong)
    (hn : 2 * cs.length < n + 1) : Oversized .members cs := by
  rw [Json.members] at h
  rcases bind_eq_error_iff.mp h with h | ⟨⟨name, mid⟩, hname, h⟩
  · exact absurd h (memberName_ne_tooLong cs)
  · have hm := memberName_shorter hname
    dsimp only at h
    rcases bind_eq_error_iff.mp h with h | ⟨⟨x, rest⟩, hx, h⟩
    · exact .member hname (ih.value h (by omega))
    · have hs : Starts mid x rest := .of_value hx (by omega)
      dsimp only at h
      split at h
      next more hc =>
        have hl := hs.shorter hc
        rcases bind_eq_error_iff.mp h with h | ⟨_, -, h⟩
        · exact .laterMember hname hs hc (ih.members h (by omega))
        · contradiction
      next => contradiction
      next => cases h

theorem of_bound (n : Nat) : Refuses n := by
  induction n with
  | zero =>
    refine ⟨fun h _ => ?_, fun _ hn => absurd hn (Nat.not_lt_zero _),
      fun _ hn => absurd hn (Nat.not_lt_zero _)⟩
    rw [Json.value] at h
    cases h
  | succ n ih => exact ⟨ih.value_succ, ih.items_succ, ih.members_succ⟩

end Refuses

def Position.Refused : Position → List Char → Prop
  | .value, cs => ∀ n, 2 * cs.length ≤ n → Json.value n cs = .error .integerTooLong
  | .items, cs => ∀ n, 2 * cs.length < n → Json.items n cs = .error .integerTooLong
  | .members, cs => ∀ n, 2 * cs.length < n → Json.members n cs = .error .integerTooLong

theorem LongInteger.start (h : LongInteger cs) :
    ∃ c tail, cs = c :: tail ∧ (c = '-' ∨ c.isDigit = true) := by
  obtain ⟨sign, ds, rest, rfl, hs, hds, -, -⟩ := h
  obtain ⟨d, ds, rfl⟩ := List.exists_cons_of_ne_nil hds.ne_nil
  rcases hs with rfl | rfl
  · exact ⟨d, _, rfl, .inr (hds.isDigit d (by simp))⟩
  · exact ⟨'-', _, rfl, .inl rfl⟩

namespace Position.Refused

theorem literal (h : LongInteger cs) : Position.value.Refused cs := by
  intro n hn
  obtain ⟨c, tail, rfl, hc⟩ := h.start
  rw [List.length_cons] at hn
  obtain ⟨n, rfl⟩ := Nat.exists_eq_add_one.mpr (show 0 < n by omega)
  rw [value_eq_scalar, scalar_eq_tooLong_iff.mpr h] <;> rintro rfl <;> simp at hc

theorem list (h : Position.items.Refused (skipBlanks cs)) :
    Position.value.Refused ('[' :: cs) := by
  intro n hn
  have hb := length_skipBlanks_le cs
  rw [List.length_cons] at hn
  obtain ⟨n, rfl⟩ := Nat.exists_eq_add_one.mpr (show 0 < n by omega)
  have hi : Json.items n (skipBlanks cs) = .error .integerTooLong := h n (by omega)
  rw [Json.value]
  split
  next tail hc =>
    -- a bracket that closes is no item
    obtain ⟨n, rfl⟩ := Nat.exists_eq_add_one.mpr (show 0 < n by omega)
    rw [hc, Json.items, value_not_start (.inr rfl)] at hi
    cases hi
  next =>
    rw [hi]
    rfl

theorem dict (h : Position.members.Refused (skipBlanks cs)) :
    Position.value.Refused ('\x7b' :: cs) := by
  intro n hn
  have hb := length_skipBlanks_le cs
  rw [List.length_cons] at hn
  obtain ⟨n, rfl⟩ := Nat.exists_eq_add_one.mpr (show 0 < n by omega)
  have hm : Json.members n (skipBlanks cs) = .error .integerTooLong := h n (by omega)
  rw [Json.value]
  split
  next tail hc =>
    -- a brace that closes is no name
    obtain ⟨n, rfl⟩ := Nat.exists_eq_add_one.mpr (show 0 < n by omega)
    rw [hc] at hm
    cases hm
  next =>
    rw [hm]
    rfl

theorem item (h : Position.value.Refused cs) : Position.items.Refused cs := by
  intro n hn
  obtain ⟨n, rfl⟩ := Nat.exists_eq_add_one.mpr (show 0 < n by omega)
  rw [Json.items, h n (by omega)]
  rfl

theorem laterItem {more : List Char} (hv : Starts cs v rest) (hc : skipBlanks rest = ',' :: more)
    (h : Position.items.Refused (skipBlanks more)) : Position.items.Refused cs := by
  intro n hn
  obtain ⟨n, rfl⟩ := Nat.exists_eq_add_one.mpr (show 0 < n by omega)
  have hx := hv.value (n := n) (by omega)
  have hl := hv.shorter hc
  have hi : Json.items n (skipBlanks more) = .error .integerTooLong := h n (by omega)
  rw [Json.items, hx]
  simp only [bind, Except.bind, hc, hi]

theorem member {name : String} (hname : memberName cs = .ok (name, rest))
    (h : Position.value.Refused rest) : Position.members.Refused cs := by
  intro n hn
  obtain ⟨n, rfl⟩ := Nat.exists_eq_add_one.mpr (show 0 < n by omega)
  have hl := memberName_shorter hname
  rw [Json.members, hname]
  dsimp only [bind, Except.bind]
  rw [h n (by omega)]

theorem laterMember {mid more : List Char} {name : String}
    (hname : memberName cs = .ok (name, mid)) (hv : Starts mid v rest)
    (hc : skipBlanks rest = ',' :: more) (h : Position.members.Refused (skipBlanks more)) :
    Position.members.Refused cs := by
  intro n hn
  obtain ⟨n, rfl⟩ := Nat.exists_eq_add_one.mpr (show 0 < n by omega)
  have hm := memberName_shorter hname
  have hx := hv.value (n := n) (by omega)
  have hl := hv.shorter hc
  have hi : Json.members n (skipBlanks more) = .error .integerTooLong := h n (by omega)
  rw [Json.members, hname]
  simp only [bind, Except.bind, hx, hc, hi]

end Position.Refused

theorem Oversized.refused {p : Position} (h : Oversized p cs) : p.Refused cs := by
  induction h with
  | literal h => exact .literal h
  | list _ ih => exact .list ih
  | dict _ ih => exact .dict ih
  | item _ ih => exact .item ih
  | laterItem hv hc _ ih => exact .laterItem hv hc ih
  | member hname _ ih => exact .member hname ih
  | laterMember hname hv hc _ ih => exact .laterMember hname hv hc ih

end Conform.Json
