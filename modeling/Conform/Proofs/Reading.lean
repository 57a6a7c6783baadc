import Conform.Json.Reader
import Conform.Proofs.Coercion
import Mathlib.Data.List.TakeDrop

namespace Conform.Json

variable {n m : Nat} {c : Char} {cs rest : List Char}

theorem length_skipBlanks_le (cs : List Char) : (skipBlanks cs).length ≤ cs.length :=
  (List.dropWhile_sublist _).length_le

theorem length_lt_of_skipBlanks {c : Char} {tail : List Char} (h : skipBlanks cs = c :: tail) :
    tail.length < cs.length := by
  have hl := length_skipBlanks_le cs
  rw [h, List.length_cons] at hl
  omega

theorem skipBlanks_cons (h : isBlank c = false) : skipBlanks (c :: cs) = c :: cs :=
  List.dropWhile_cons_of_neg (by simp [h])

theorem stringUnits_shorter {us : List Nat} (h : stringUnits cs = some (us, rest)) :
    rest.length < cs.length := by
  fun_induction stringUnits cs generalizing us rest with
  | case1 => contradiction
  | case2 tail => cases h; simp
  | case3 a b c d tail ih =>
    obtain ⟨u, -, h⟩ := Option.bind_eq_some_iff.mp h
    obtain ⟨⟨vs, tail'⟩, hvs, h⟩ := Option.bind_eq_some_iff.mp h
    cases h
    have hl := ih hvs
    simp only [List.length_cons]
    omega
  | case4 c tail _ ih =>
    obtain ⟨u, -, h⟩ := Option.bind_eq_some_iff.mp h
    obtain ⟨⟨vs, tail'⟩, hvs, h⟩ := Option.bind_eq_some_iff.mp h
    cases h
    have hl := ih hvs
    simp only [List.length_cons]
    omega
  | case5 => contradiction
  | case6 c tail _ _ _ _ ih =>
    obtain ⟨⟨vs, tail'⟩, hvs, h⟩ := Option.bind_eq_some_iff.mp h
    cases h
    have hl := ih hvs
    simp only [List.length_cons]
    omega

theorem string_shorter {s : String} (h : string cs = .ok (s, rest)) : rest.length < cs.length := by
  unfold string at h
  split at h
  next hus =>
    cases h
    exact stringUnits_shorter hus
  next => contradiction

theorem wholeDigits_append (cs : List Char) : (wholeDigits cs).1 ++ (wholeDigits cs).2 = cs := by
  unfold wholeDigits
  split
  · rfl
  · rw [List.span_eq_takeWhile_dropWhile]
    exact List.takeWhile_append_dropWhile

theorem length_fractionDigits_le (cs : List Char) : (fractionDigits cs).2.length ≤ cs.length := by
  unfold fractionDigits
  split
  next tail =>
    have hl := (tail.dropWhile_sublist Char.isDigit).length_le
    rw [List.span_eq_takeWhile_dropWhile]
    split
    next => exact Nat.le_refl _
    next h =>
      obtain ⟨-, rfl⟩ := Prod.mk.inj h
      simp only [List.length_cons]
      omega
  next => exact Nat.le_refl _

theorem length_exponentSign_le (cs : List Char) : (exponentSign cs).2.length ≤ cs.length := by
  unfold exponentSign
  split <;> simp

theorem length_exponentPart_le (cs : List Char) : (exponentPart cs).2.length ≤ cs.length := by
  unfold exponentPart
  split
  next => exact Nat.le_refl _
  next c tail =>
    have hs := length_exponentSign_le tail
    have hl := ((exponentSign tail).2.dropWhile_sublist Char.isDigit).length_le
    simp only [List.span_eq_takeWhile_dropWhile]
    split
    next =>
      split
      next => exact Nat.le_refl _
      next h =>
        obtain ⟨-, rfl⟩ := Prod.mk.inj h
        simp only [List.length_cons]
        omega
    next => exact Nat.le_refl _

theorem magnitude_shorter {negative : Bool} {v : Value}
    (h : magnitude negative cs = .ok (v, rest)) : rest.length < cs.length := by
  have hw := congrArg List.length (wholeDigits_append cs)
  have hf := length_fractionDigits_le (wholeDigits cs).2
  have he := length_exponentPart_le (fractionDigits (wholeDigits cs).2).2
  rw [List.length_append] at hw
  simp only [magnitude] at h
  split at h
  next => contradiction
  next hne =>
    have hpos : 0 < (wholeDigits cs).1.length := List.length_pos_iff.mpr (by simpa using hne)
    split at h
    next =>
      split at h
      next => contradiction
      next => cases h; omega
    next => cases h; omega

theorem scalar_shorter {v : Value} (h : scalar cs = .ok (v, rest)) : rest.length < cs.length := by
  unfold scalar at h
  split at h
  case h_7 tail _ =>
    have hl := magnitude_shorter h
    simp only [List.length_cons]
    omega
  case h_8 => exact magnitude_shorter h
  all_goals
    cases h
    simp only [List.length_cons]
    omega

theorem memberName_shorter {name : String} (h : memberName cs = .ok (name, rest)) :
    rest.length < cs.length := by
  unfold memberName at h
  split at h
  next tail =>
    obtain ⟨⟨s, afterName⟩, hs, h⟩ := bind_eq_ok_iff.mp h
    have hl := string_shorter hs
    dsimp only at h
    split at h
    next afterColon hc =>
      cases h
      have hc' := length_lt_of_skipBlanks hc
      have hb := length_skipBlanks_le afterColon
      simp only [List.length_cons]
      omega
    next => contradiction
  next => contradiction

structure ReadsOn (n : Nat) : Prop where
  value : ∀ {cs v rest}, value n cs = .ok (v, rest) → rest.length < cs.length
  items : ∀ {cs xs rest}, items n cs = .ok (xs, rest) → rest.length < cs.length
  members : ∀ {cs es rest}, members n cs = .ok (es, rest) → rest.length < cs.length

namespace ReadsOn

theorem value_succ (ih : ReadsOn n) {v : Value} (h : Json.value (n + 1) cs = .ok (v, rest)) :
    rest.length < cs.length := by
  unfold Json.value at h
  split at h
  next tail =>
    obtain ⟨⟨s, rest'⟩, hs, h⟩ := bind_eq_ok_iff.mp h
    cases h
    have hl := string_shorter hs
    simp only [List.length_cons]
    omega
  next tail =>
    have hb := length_skipBlanks_le tail
    split at h
    next hc =>
      cases h
      have hl := length_lt_of_skipBlanks hc
      simp only [List.length_cons]
      omega
    next =>
      obtain ⟨⟨xs, rest'⟩, hxs, h⟩ := bind_eq_ok_iff.mp h
      cases h
      have hl := ih.items hxs
      simp only [List.length_cons]
      omega
  next tail =>
    have hb := length_skipBlanks_le tail
    split at h
    next hc =>
      cases h
      have hl := length_lt_of_skipBlanks hc
      simp only [List.length_cons]
      omega
    next =>
      obtain ⟨⟨es, rest'⟩, hes, h⟩ := bind_eq_ok_iff.mp h
      cases h
      have hl := ih.members hes
      simp only [List.length_cons]
      omega
  next => exact scalar_shorter h

theorem items_succ (ih : ReadsOn n) {xs : List Value} (h : Json.items (n + 1) cs = .ok (xs, rest)) :
    rest.length < cs.length := by
  rw [Json.items] at h
  obtain ⟨⟨x, rest'⟩, hx, h⟩ := bind_eq_ok_iff.mp h
  have hl := ih.value hx
  dsimp only at h
  split at h
  next tail hc =>
    obtain ⟨⟨ys, rest''⟩, hys, h⟩ := bind_eq_ok_iff.mp h
    dsimp only at h
    cases h
    have hl' := length_lt_of_skipBlanks hc
    have hb := length_skipBlanks_le tail
    have hl'' := ih.items hys
    omega
  next hc =>
    cases h
    have hl' := length_lt_of_skipBlanks hc
    omega
  next => contradiction

theorem members_succ (ih : ReadsOn n) {es : List (Value × Value)}
    (h : Json.members (n + 1) cs = .ok (es, rest)) : rest.length < cs.length := by
  rw [Json.members] at h
  obtain ⟨⟨name, afterName⟩, hname, h⟩ := bind_eq_ok_iff.mp h
  obtain ⟨⟨x, rest'⟩, hx, h⟩ := bind_eq_ok_iff.mp h
  have hn := memberName_shorter hname
  have hl := ih.value hx
  dsimp only at h
  split at h
  next tail hc =>
    obtain ⟨⟨fs, rest''⟩, hfs, h⟩ := bind_eq_ok_iff.mp h
    dsimp only at h
    cases h
    have hl' := length_lt_of_skipBlanks hc
    have hb := length_skipBlanks_le tail
    have hl'' := ih.members hfs
    omega
  next hc =>
    cases h
    have hl' := length_lt_of_skipBlanks hc
    omega
  next => contradiction

theorem of_bound (n : Nat) : ReadsOn n := by
  induction n with
  | zero => exact ⟨fun h => by contradiction, fun h => by contradiction, fun h => by contradiction⟩
  | succ n ih => exact ⟨ih.value_succ, ih.items_succ, ih.members_succ⟩

end ReadsOn

theorem value_nil (n : Nat) : value n [] = .error .malformed := by
  cases n <;> rfl

theorem value_not_start (h : isBlank c = true ∨ c = ']') :
    value n (c :: cs) = .error .malformed := by
  cases n with
  | zero => rfl
  | succ n =>
    simp only [isBlank, Bool.or_eq_true, beq_iff_eq] at h
    rcases h with (((rfl | rfl) | rfl) | rfl) | rfl <;> rfl

theorem value_eq_scalar (hs : c ≠ '"') (hl : c ≠ '[') (hd : c ≠ '\x7b') :
    value (n + 1) (c :: cs) = scalar (c :: cs) := by
  unfold value
  split
  next h => exact absurd (List.cons.inj h).1 hs
  next h => exact absurd (List.cons.inj h).1 hl
  next h => exact absurd (List.cons.inj h).1 hd
  next => rfl

structure SameReading (n : Nat) : Prop where
  value : ∀ {m cs}, 2 * cs.length ≤ n → 2 * cs.length ≤ m → value n cs = value m cs
  items : ∀ {m cs}, 2 * cs.length < n → 2 * cs.length < m → items n cs = items m cs
  members : ∀ {m cs}, 2 * cs.length < n → 2 * cs.length < m → members n cs = members m cs

namespace SameReading

theorem value_succ (ih : SameReading n) (hn : 2 * cs.length ≤ n + 1) (hm : 2 * cs.length ≤ m) :
    Json.value (n + 1) cs = Json.value m cs := by
  cases m with
  | zero =>
    obtain rfl : cs = [] := List.eq_nil_of_length_eq_zero (by omega)
    rfl
  | succ m =>
    unfold Json.value
    split
    next => rfl
    next tail =>
      have hb := length_skipBlanks_le tail
      rw [List.length_cons] at hn hm
      split
      next => rfl
      next =>
        have hi : Json.items n (skipBlanks tail) = Json.items m (skipBlanks tail) :=
          ih.items (by omega) (by omega)
        rw [hi]
    next tail =>
      have hb := length_skipBlanks_le tail
      rw [List.length_cons] at hn hm
      split
      next => rfl
      next =>
        have hi : Json.members n (skipBlanks tail) = Json.members m (skipBlanks tail) :=
          ih.members (by omega) (by omega)
        rw [hi]
    next => rfl

theorem items_succ (ih : SameReading n) (hn : 2 * cs.length < n + 1) (hm : 2 * cs.length < m) :
    Json.items (n + 1) cs = Json.items m cs := by
  obtain ⟨m, rfl⟩ : ∃ k, m = k + 1 := ⟨m - 1, by omega⟩
  have hv : Json.value n cs = Json.value m cs := ih.value (by omega) (by omega)
  rw [Json.items, Json.items, hv]
  cases hx : Json.value m cs with
  | error e => rfl
  | ok r =>
    obtain ⟨x, rest⟩ := r
    have hl := (ReadsOn.of_bound m).value hx
    dsimp only [bind, Except.bind]
    split
    next tail hc =>
      have hl' := length_lt_of_skipBlanks hc
      have hb := length_skipBlanks_le tail
      have hi : Json.items n (skipBlanks tail) = Json.items m (skipBlanks tail) :=
        ih.items (by omega) (by omega)
      rw [hi]
    next => rfl
    next => rfl

theorem members_succ (ih : SameReading n) (hn : 2 * cs.length < n + 1) (hm : 2 * cs.length < m) :
    Json.members (n + 1) cs = Json.members m cs := by
  obtain ⟨m, rfl⟩ : ∃ k, m = k + 1 := ⟨m - 1, by omega⟩
  rw [Json.members, Json.members]
  cases hname : memberName cs with
  | error e => rfl
  | ok r =>
    obtain ⟨name, afterName⟩ := r
    have hl := memberName_shorter hname
    have hv : Json.value n afterName = Json.value m afterName := ih.value (by omega) (by omega)
    dsimp only [bind, Except.bind]
    rw [hv]
    cases hx : Json.value m afterName with
    | error e => rfl
    | ok r =>
      obtain ⟨x, rest⟩ := r
      have hl' := (ReadsOn.of_bound m).value hx
      dsimp only
      split
      next tail hc =>
        have hl'' := length_lt_of_skipBlanks hc
        have hb := length_skipBlanks_le tail
        have hi : Json.members n (skipBlanks tail) = Json.members m (skipBlanks tail) :=
          ih.members (by omega) (by omega)
        rw [hi]
      next => rfl
      next => rfl

theorem of_bound (n : Nat) : SameReading n := by
  induction n with
  | zero =>
    refine ⟨fun {m cs} hn _ => ?_, fun hn _ => ?_, fun hn _ => ?_⟩
    · obtain rfl : cs = [] := List.eq_nil_of_length_eq_zero (by omega)
      rw [value_nil, value_nil]
    · omega
    · omega
  | succ n ih => exact ⟨ih.value_succ, ih.items_succ, ih.members_succ⟩

end SameReading

theorem value_eq (h : 2 * cs.length ≤ n) (h' : 2 * cs.length ≤ m) : value n cs = value m cs :=
  (SameReading.of_bound n).value h h'

end Conform.Json
