import Conform.Json.Writer
import Conform.Proofs.IntegerText
import Conform.Proofs.NamedTable
import Conform.Proofs.QuotedText
import Mathlib.Algebra.Group.Nat.Defs
import Mathlib.Data.List.Forall2

namespace Conform.Json

variable {t cs rest : List Char} {c : Char} {n : Nat} {v : Value}

theorem EndsInteger.nil : EndsInteger [] := ⟨by simp, rfl, rfl⟩

theorem EndsInteger.cons (hc : c.isDigit = false) (hp : c ≠ '.') (he : c ≠ 'e') (hE : c ≠ 'E') :
    EndsInteger (c :: rest) where
  digit := by simpa using hc
  fraction := by
    unfold fractionDigits
    split
    next h => exact absurd (List.cons.inj h).1 hp
    next => rfl
  exponent := by simp [exponentPart, he, hE]

structure Spells (t : List Char) (v : Value) : Prop where
  reads : ∀ {rest n}, EndsInteger rest → 2 * (t ++ rest).length ≤ n →
    value n (t ++ rest) = .ok (v, rest)

theorem scalar_intChars {i : Int} (h : i.natAbs < 10 ^ maxDigits) (hr : EndsInteger rest) :
    scalar (intChars i ++ rest) = .ok (.int i, rest) := by
  have hl : ¬ maxDigits < (Nat.toDigits 10 i.natAbs).length :=
    Nat.not_lt.mpr ((Nat.length_toDigits_le_iff (by decide) (by decide)).mpr h)
  have hds := IntegerDigits.toDigits i.natAbs
  have hm (negative : Bool) : magnitude negative (Nat.toDigits 10 i.natAbs ++ rest) =
      .ok (.int (if negative then -(i.natAbs : Int) else i.natAbs), rest) := by
    rw [magnitude_of_digits hds hr, if_neg hl, Nat.ofDigitChars_ten_toDigits]
  obtain ⟨d, ds, hd⟩ := List.exists_cons_of_ne_nil hds.ne_nil
  have hd' : d.isDigit = true := hds.isDigit d (by simp [hd])
  rw [hd] at hm
  unfold intChars
  rw [hd]
  by_cases hi : i < 0
  · have hs := (scalar_of_minus hd' (ds ++ rest)).trans (hm true)
    rw [if_pos hi]
    rwa [if_pos rfl, show -(i.natAbs : Int) = i by omega] at hs
  · have hs := (scalar_of_digit hd' (ds ++ rest)).trans (hm false)
    rw [if_neg hi]
    rwa [if_neg (by decide), show (i.natAbs : Int) = i by omega] at hs

namespace Spells

theorem start (h : Spells t v) : ∃ c cs, t = c :: cs ∧ isBlank c = false ∧ c ≠ ']' := by
  have hr := h.reads .nil (Nat.le_refl _)
  rw [List.append_nil] at hr
  cases t with
  | nil => contradiction
  | cons c cs =>
    refine ⟨c, cs, rfl, Bool.eq_false_iff.mpr fun hb => ?_, fun hc => ?_⟩
    · rw [value_not_start (.inl hb)] at hr
      contradiction
    · rw [value_not_start (.inr hc)] at hr
      contradiction

theorem of_scalar (hs : c ≠ '"') (hl : c ≠ '[') (hd : c ≠ '\x7b')
    (h : ∀ {rest}, EndsInteger rest → scalar (c :: cs ++ rest) = .ok (v, rest)) :
    Spells (c :: cs) v := by
  constructor
  intro rest n hr hn
  obtain ⟨n, rfl⟩ : ∃ k, n = k + 1 := ⟨n - 1, by simp at hn; omega⟩
  exact (value_eq_scalar hs hl hd).trans (h hr)

theorem null : Spells "null".toList .null :=
  of_scalar (by decide) (by decide) (by decide) fun _ => rfl

theorem bool (b : Bool) :
    Spells (if b then "true".toList else "false".toList) (.bool b) := by
  cases b
  · exact of_scalar (by decide) (by decide) (by decide) fun _ => rfl
  · exact of_scalar (by decide) (by decide) (by decide) fun _ => rfl

theorem int {i : Int} (h : i.natAbs < 10 ^ maxDigits) : Spells (intChars i) (.int i) := by
  have hhead : ∃ c cs, intChars i = c :: cs ∧ (c = '-' ∨ c.isDigit = true) := by
    have hds := IntegerDigits.toDigits i.natAbs
    obtain ⟨d, ds, hd⟩ := List.exists_cons_of_ne_nil hds.ne_nil
    unfold intChars
    split
    · exact ⟨_, _, rfl, .inl rfl⟩
    · exact ⟨d, ds, hd, .inr (hds.isDigit d (by simp [hd]))⟩
  obtain ⟨c, cs, he, hc⟩ := hhead
  have hs {rest} (hr : EndsInteger rest) : scalar (c :: cs ++ rest) = .ok (.int i, rest) := by
    rw [← he]
    exact scalar_intChars h hr
  rw [he]
  apply of_scalar _ _ _ hs <;> rintro rfl <;> simp at hc

theorem str (s : String) : Spells (stringChars s.toList) (.str s) := by
  constructor
  intro rest n hr hn
  obtain ⟨n, rfl⟩ : ∃ k, n = k + 1 := ⟨n - 1, by simp [stringChars] at hn; omega⟩
  rw [stringChars_append, value, string_quoted, String.ofList_toList]
  rfl

end Spells

theorem commaJoin_cons {u : List Char} {ts : List (List Char)} :
    commaJoin (t :: u :: ts) ++ rest = t ++ ',' :: (commaJoin (u :: ts) ++ rest) := by
  simp [commaJoin]

theorem commaJoin_start (h : t = c :: cs) (ts : List (List Char)) (rest : List Char) :
    ∃ tail, commaJoin (t :: ts) ++ rest = c :: tail := by
  subst h
  cases ts with
  | nil => exact ⟨_, rfl⟩
  | cons u ts => exact ⟨_, by rw [commaJoin_cons, List.cons_append]⟩

theorem items_joined {ts : List (List Char)} {xs : List Value} (h : List.Forall₂ Spells ts xs)
    (hne : xs ≠ []) (hn : 2 * (commaJoin ts ++ ']' :: rest).length < n) :
    items n (commaJoin ts ++ ']' :: rest) = .ok (xs, rest) := by
  induction h generalizing n with
  | nil => contradiction
  | @cons t x ts xs ht hts ih =>
    obtain ⟨n, rfl⟩ : ∃ k, n = k + 1 := ⟨n - 1, by omega⟩
    cases hts with
    | nil =>
      change 2 * (t ++ ']' :: rest).length < n + 1 at hn
      have hend : EndsInteger (']' :: rest) := .cons rfl (by decide) (by decide) (by decide)
      have hv : value n (t ++ ']' :: rest) = .ok (x, ']' :: rest) := ht.reads hend (by omega)
      rw [items]
      change (value n (t ++ ']' :: rest) >>= _) = _
      rw [hv]
      rfl
    | @cons u y ts ys hu hts =>
      obtain ⟨c, cs, hc, hb, -⟩ := hu.start
      obtain ⟨tail, htail⟩ := commaJoin_start hc ts (']' :: rest)
      rw [commaJoin_cons] at hn ⊢
      have hend : EndsInteger (',' :: (commaJoin (u :: ts) ++ ']' :: rest)) :=
        .cons rfl (by decide) (by decide) (by decide)
      have hv := ht.reads (n := n) hend (by omega)
      have hi : items n (commaJoin (u :: ts) ++ ']' :: rest) = .ok (y :: ys, rest) := by
        apply ih (by simp)
        simp only [List.length_append, List.length_cons] at hn ⊢
        omega
      rw [htail] at hv hi ⊢
      rw [items, hv]
      change (items n (skipBlanks (c :: tail)) >>= _) = _
      rw [skipBlanks_cons hb, hi]
      rfl

theorem Spells.list {ts : List (List Char)} {xs : List Value} (h : List.Forall₂ Spells ts xs) :
    Spells ('[' :: commaJoin ts ++ [']']) (.list xs) := by
  constructor
  intro rest n hr hn
  obtain ⟨n, rfl⟩ : ∃ k, n = k + 1 := ⟨n - 1, by simp at hn; omega⟩
  cases h with
  | nil => rfl
  | @cons t x ts xs ht hts =>
    obtain ⟨c, cs, hc, hb, hne⟩ := ht.start
    obtain ⟨tail, htail⟩ := commaJoin_start hc ts (']' :: rest)
    have he : '[' :: commaJoin (t :: ts) ++ [']'] ++ rest =
        '[' :: (commaJoin (t :: ts) ++ ']' :: rest) := by
      simp
    rw [he] at hn ⊢
    have hi : items n (commaJoin (t :: ts) ++ ']' :: rest) = .ok (x :: xs, rest) := by
      apply items_joined (.cons ht hts) (by simp)
      rw [List.length_cons] at hn
      omega
    rw [htail] at hi ⊢
    rw [value, skipBlanks_cons hb]
    split
    next h => exact absurd (List.cons.inj h).1 hne
    next =>
      rw [hi]
      rfl

def SpellsMember (t : List Char) (e : String × Value) : Prop :=
  ∃ u, t = stringChars e.1.toList ++ ':' :: u ∧ Spells u e.2

theorem SpellsMember.reads {e : String × Value} (h : SpellsMember t e) (hr : EndsInteger rest)
    (hn : 2 * (t ++ rest).length ≤ n) :
    ∃ after, memberName (t ++ rest) = .ok (e.1, after) ∧ value n after = .ok (e.2, rest) := by
  obtain ⟨u, rfl, hu⟩ := h
  obtain ⟨c, cs, hc, hb, -⟩ := hu.start
  have hskip : skipBlanks (u ++ rest) = u ++ rest := by
    rw [hc]
    exact skipBlanks_cons hb
  refine ⟨u ++ rest, ?_, ?_⟩
  · rw [List.append_assoc, List.cons_append, memberName_quoted, String.ofList_toList, hskip]
  · apply hu.reads hr
    simp only [List.length_append, List.length_cons] at hn ⊢
    omega

theorem SpellsMember.start {e : String × Value} (h : SpellsMember t e) : ∃ cs, t = '"' :: cs := by
  obtain ⟨u, rfl, -⟩ := h
  exact ⟨_, stringChars_append ..⟩

theorem members_joined {ts : List (List Char)} {es : List (String × Value)}
    (h : List.Forall₂ SpellsMember ts es) (hne : es ≠ [])
    (hn : 2 * (commaJoin ts ++ '\x7d' :: rest).length < n) :
    members n (commaJoin ts ++ '\x7d' :: rest) = .ok (Table.named es, rest) := by
  induction h generalizing n with
  | nil => contradiction
  | @cons t e ts es ht hts ih =>
    obtain ⟨n, rfl⟩ : ∃ k, n = k + 1 := ⟨n - 1, by omega⟩
    cases hts with
    | nil =>
      change 2 * (t ++ '\x7d' :: rest).length < n + 1 at hn
      have hend : EndsInteger ('\x7d' :: rest) := .cons rfl (by decide) (by decide) (by decide)
      obtain ⟨after, hname, hv⟩ := ht.reads (n := n) hend (by omega)
      rw [members]
      change (memberName (t ++ '\x7d' :: rest) >>= _) = _
      rw [hname]
      change (value n after >>= _) = _
      rw [hv]
      rfl
    | @cons u f ts fs hu hts =>
      obtain ⟨cs, hc⟩ := hu.start
      obtain ⟨tail, htail⟩ := commaJoin_start hc ts ('\x7d' :: rest)
      rw [commaJoin_cons] at hn ⊢
      have hend : EndsInteger (',' :: (commaJoin (u :: ts) ++ '\x7d' :: rest)) :=
        .cons rfl (by decide) (by decide) (by decide)
      obtain ⟨after, hname, hv⟩ := ht.reads (n := n) hend (by omega)
      have hm : members n (commaJoin (u :: ts) ++ '\x7d' :: rest) =
          .ok (Table.named (f :: fs), rest) := by
        apply ih (by simp)
        simp only [List.length_append, List.length_cons] at hn ⊢
        omega
      rw [htail] at hname hv hm ⊢
      rw [members, hname]
      change (value n after >>= _) = _
      rw [hv]
      change (members n (skipBlanks ('"' :: tail)) >>= _) = _
      rw [skipBlanks_cons rfl, hm]
      rfl

theorem Spells.dict {ts : List (List Char)} {es : List (String × Value)}
    (h : List.Forall₂ SpellsMember ts es) (hd : (es.map Prod.fst).Nodup) :
    Spells ('\x7b' :: commaJoin ts ++ ['\x7d']) (.dict (Table.named es)) := by
  constructor
  intro rest n hr hn
  obtain ⟨n, rfl⟩ : ∃ k, n = k + 1 := ⟨n - 1, by simp at hn; omega⟩
  cases h with
  | nil => rfl
  | @cons t e ts es ht hts =>
    obtain ⟨cs, hc⟩ := ht.start
    obtain ⟨tail, htail⟩ := commaJoin_start hc ts ('\x7d' :: rest)
    have he : '\x7b' :: commaJoin (t :: ts) ++ ['\x7d'] ++ rest =
        '\x7b' :: (commaJoin (t :: ts) ++ '\x7d' :: rest) := by
      simp
    rw [he] at hn ⊢
    have hm : members n (commaJoin (t :: ts) ++ '\x7d' :: rest) =
        .ok (Table.named (e :: es), rest) := by
      apply members_joined (.cons ht hts) (by simp)
      rw [List.length_cons] at hn
      omega
    rw [htail] at hm ⊢
    rw [value, skipBlanks_cons rfl]
    change (members n ('"' :: tail) >>= _) = _
    rw [hm]
    change Except.ok (Value.dict (Table.ofPairs (Table.named (e :: es))), rest) = _
    rw [Table.ofPairs_named hd]

end Conform.Json
