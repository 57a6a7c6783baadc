import Conform.Proofs.Reading

namespace Conform.Json

structure EndsInteger (rest : List Char) : Prop where
  digit : ∀ c ∈ rest.head?, c.isDigit = false
  fraction : (fractionDigits rest).1 = []
  exponent : (exponentPart rest).1 = none

structure IntegerDigits (ds : List Char) : Prop where
  ne_nil : ds ≠ []
  isDigit : ∀ d ∈ ds, d.isDigit = true
  zero : ds.head? = some '0' → ds = ['0']

variable {ds rest cs : List Char} {negative : Bool} {n : Nat}

theorem fractionDigits_of_nil (h : (fractionDigits cs).1 = []) : fractionDigits cs = ([], cs) := by
  unfold fractionDigits at h ⊢
  split
  next =>
    split
    next => rfl
    next hs => simp_all
  next => rfl

theorem exponentPart_of_none (h : (exponentPart cs).1 = none) : exponentPart cs = (none, cs) := by
  unfold exponentPart at h ⊢
  split
  next => rfl
  next =>
    dsimp only at h ⊢
    split at h
    next hm =>
      rw [if_pos hm]
      split at h
      next => rfl
      next => contradiction
    next hm => rw [if_neg hm]

theorem wholeDigits_of_digits (hds : IntegerDigits ds) (hr : ∀ c ∈ rest.head?, c.isDigit = false) :
    wholeDigits (ds ++ rest) = (ds, rest) := by
  by_cases hz : ds.head? = some '0'
  · rw [hds.zero hz]
    rfl
  · have hspan : (ds ++ rest).span Char.isDigit = (ds, rest) := by
      rw [List.span_eq_takeWhile_dropWhile, List.takeWhile_append_of_pos hds.isDigit,
        List.dropWhile_append_of_pos hds.isDigit]
      cases rest with
      | nil => simp
      | cons c rest => simp [hr c rfl]
    unfold wholeDigits
    split
    next tail h =>
      obtain ⟨d, ds, rfl⟩ := List.exists_cons_of_ne_nil hds.ne_nil
      obtain ⟨rfl, -⟩ := List.cons.inj h
      exact absurd rfl hz
    next => exact hspan

theorem magnitude_of_digits (hds : IntegerDigits ds) (hr : EndsInteger rest) :
    magnitude negative (ds ++ rest) =
      if maxDigits < ds.length then .error .integerTooLong
      else
        let n : Int := Nat.ofDigitChars 10 ds 0
        .ok (.int (if negative then -n else n), rest) := by
  have hne : ds.isEmpty = false := by simpa using hds.ne_nil
  simp only [magnitude, wholeDigits_of_digits hds hr.digit, fractionDigits_of_nil hr.fraction,
    exponentPart_of_none hr.exponent, hne]
  rfl

theorem eq_zero_of_head_toDigits (h : (Nat.toDigits 10 n).head? = some '0') : n = 0 := by
  induction n using Nat.strongRecOn with
  | ind n ih =>
    rw [Nat.toDigits_eq_if (by decide)] at h
    split at h
    next => simpa using h
    next hn =>
      have hne : Nat.toDigits 10 (n / 10) ≠ [] := Nat.toDigits_ne_nil
      rw [List.head?_append, List.head?_eq_some_head hne, Option.some_or,
        ← List.head?_eq_some_head hne] at h
      have hq := ih (n / 10) (by omega) h
      omega

theorem IntegerDigits.toDigits (n : Nat) : IntegerDigits (Nat.toDigits 10 n) where
  ne_nil := Nat.toDigits_ne_nil
  isDigit d hd := Nat.isDigit_of_mem_toDigits (by decide) (by decide) hd
  zero h := by rw [eq_zero_of_head_toDigits h, Nat.toDigits_zero]

theorem scalar_of_digit {d : Char} (hd : d.isDigit = true) (cs : List Char) :
    scalar (d :: cs) = magnitude false (d :: cs) := by
  unfold scalar
  split
  case h_8 => rfl
  all_goals
    rename_i h
    obtain ⟨rfl, -⟩ := List.cons.inj h
    contradiction

theorem scalar_of_minus {d : Char} (hd : d.isDigit = true) (cs : List Char) :
    scalar ('-' :: d :: cs) = magnitude true (d :: cs) := by
  unfold scalar
  split
  case h_6 h =>
    obtain ⟨rfl, -⟩ := List.cons.inj (List.cons.inj h).2
    contradiction
  case h_7 h =>
    obtain ⟨-, rfl⟩ := List.cons.inj h
    rfl
  case h_8 h => exact absurd rfl (h _)
  all_goals
    rename_i h
    obtain ⟨h, -⟩ := List.cons.inj h
    contradiction

def LongInteger (cs : List Char) : Prop :=
  ∃ sign ds rest, cs = sign ++ ds ++ rest ∧ (sign = [] ∨ sign = ['-']) ∧ IntegerDigits ds ∧
    maxDigits < ds.length ∧ EndsInteger rest

theorem wholeDigits_of_long (h : 1 < (wholeDigits cs).1.length) :
    IntegerDigits (wholeDigits cs).1 ∧ ∀ c ∈ (wholeDigits cs).2.head?, c.isDigit = false := by
  unfold wholeDigits at h ⊢
  split
  next => contradiction
  next hz =>
    rw [List.span_eq_takeWhile_dropWhile]
    refine ⟨⟨?_, ?_, ?_⟩, ?_⟩
    · intro hn
      simp [List.span_eq_takeWhile_dropWhile, hn] at h
    · intro d hd
      exact List.all_eq_true.mp List.all_takeWhile d hd
    · intro hd
      cases cs with
      | nil => contradiction
      | cons c cs =>
        rw [List.takeWhile_cons] at hd
        split at hd
        next =>
          obtain rfl : c = '0' := by simpa using hd
          exact absurd rfl (hz cs)
        next => contradiction
    · intro c hc
      have hne := List.head?_dropWhile_not Char.isDigit cs
      rw [hc] at hne
      simpa using hne

theorem digits_of_magnitude (h : magnitude negative cs = .error .integerTooLong) :
    ∃ ds rest, cs = ds ++ rest ∧ IntegerDigits ds ∧ maxDigits < ds.length ∧ EndsInteger rest := by
  simp only [magnitude] at h
  split at h
  next => cases h
  next =>
    split at h
    next hint =>
      split at h
      next hlong =>
        obtain ⟨hf, he⟩ := Bool.and_eq_true_iff.mp hint
        have hf' : (fractionDigits (wholeDigits cs).2).1 = [] := by simpa using hf
        rw [fractionDigits_of_nil hf'] at he
        have hone : 1 < (wholeDigits cs).1.length := by
          simp only [maxDigits] at hlong
          omega
        obtain ⟨hds, hd⟩ := wholeDigits_of_long hone
        exact ⟨_, _, (wholeDigits_append cs).symm, hds, hlong, hd, hf', by simpa using he⟩
      next => contradiction
    next => contradiction

theorem scalar_eq_tooLong_iff : scalar cs = .error .integerTooLong ↔ LongInteger cs := by
  constructor
  · intro h
    unfold scalar at h
    split at h
    case h_7 tail _ =>
      obtain ⟨ds, rest, rfl, hds, hl, hr⟩ := digits_of_magnitude h
      exact ⟨['-'], ds, rest, rfl, .inr rfl, hds, hl, hr⟩
    case h_8 =>
      obtain ⟨ds, rest, rfl, hds, hl, hr⟩ := digits_of_magnitude h
      exact ⟨[], ds, rest, rfl, .inl rfl, hds, hl, hr⟩
    all_goals contradiction
  · rintro ⟨sign, ds, rest, rfl, hs, hds, hl, hr⟩
    have hm (negative : Bool) : magnitude negative (ds ++ rest) = .error .integerTooLong := by
      rw [magnitude_of_digits hds hr, if_pos hl]
    obtain ⟨d, ds, rfl⟩ := List.exists_cons_of_ne_nil hds.ne_nil
    have hd := hds.isDigit d (by simp)
    rcases hs with rfl | rfl
    · exact (scalar_of_digit hd _).trans (hm false)
    · exact (scalar_of_minus hd _).trans (hm true)

end Conform.Json
