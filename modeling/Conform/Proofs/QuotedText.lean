import Conform.Json.Reader
import Conform.Json.Writer

namespace Conform.Json

variable {cs rest : List Char} {c : Char} {n : Nat}

theorem hexDigits_control : n < 0x20 →
    Text.hexDigits 4 n = ['0', '0', Nat.digitChar (n / 16), Nat.digitChar (n % 16)] := by
  revert n
  decide

theorem hexUnit?_control : n < 0x20 →
    hexUnit? '0' '0' (Nat.digitChar (n / 16)) (Nat.digitChar (n % 16)) = some n := by
  revert n
  decide

def pushUnit (c : Char) : Option (List Nat × List Char) → Option (List Nat × List Char) :=
  Option.map fun p => (c.toNat :: p.1, p.2)

theorem stringUnits_escaped {letter : Char} (hu : letter ≠ 'u') (h : unescape? letter = some c) :
    stringUnits ('\\' :: letter :: cs) = pushUnit c (stringUnits cs) := by
  rw [stringUnits, h]
  · cases stringUnits cs <;> rfl
  · intro _ _ _ _ _ hl
    exact absurd hl hu

theorem stringUnits_control (h : c.toNat < 0x20) :
    stringUnits ('\\' :: 'u' :: (Text.hexDigits 4 c.toNat ++ cs)) =
      pushUnit c (stringUnits cs) := by
  rw [hexDigits_control h]
  change stringUnits ('\\' :: 'u' :: '0' :: '0' :: _ :: _ :: cs) = _
  rw [stringUnits, hexUnit?_control h]
  cases stringUnits cs <;> rfl

theorem stringUnits_plain (hq : c ≠ '"') (hb : c ≠ '\\') (h : ¬ c.toNat < 0x20) :
    stringUnits (c :: cs) = pushUnit c (stringUnits cs) := by
  rw [stringUnits, if_neg (by simpa [hb] using h)]
  · cases stringUnits cs <;> rfl
  · exact hq
  · intro _ _ _ _ _ hc
    exact absurd hc hb
  · intro _ _ hc
    exact absurd hc hb

theorem stringUnits_escapeChar (c : Char) (cs : List Char) :
    stringUnits (escapeChar c ++ cs) = pushUnit c (stringUnits cs) := by
  unfold escapeChar
  simp only [beq_iff_eq]
  split
  next h => subst h; exact stringUnits_escaped (by decide) rfl
  next hq =>
    split
    next h => subst h; exact stringUnits_escaped (by decide) rfl
    next hb =>
      split
      next h => subst h; exact stringUnits_escaped (by decide) rfl
      split
      next h => subst h; exact stringUnits_escaped (by decide) rfl
      split
      next h => subst h; exact stringUnits_escaped (by decide) rfl
      split
      next h => subst h; exact stringUnits_escaped (by decide) rfl
      split
      next h => subst h; exact stringUnits_escaped (by decide) rfl
      split
      next h => exact stringUnits_control h
      next h => exact stringUnits_plain hq hb h

theorem stringUnits_quoted (cs rest : List Char) :
    stringUnits (cs.flatMap escapeChar ++ '"' :: rest) = some (cs.map Char.toNat, rest) := by
  induction cs with
  | nil => rfl
  | cons c cs ih =>
    rw [List.flatMap_cons, List.append_assoc, stringUnits_escapeChar, ih]
    rfl

theorem not_surrogate (c : Char) :
    isHighSurrogate c.toNat = false ∧ isLowSurrogate c.toNat = false := by
  have h := c.valid
  simp only [UInt32.isValidChar, Nat.isValidChar] at h
  simp only [isHighSurrogate, isLowSurrogate, Char.toNat, Bool.and_eq_false_iff,
    decide_eq_false_iff_not]
  omega

theorem unitChar_toNat (c : Char) : unitChar c.toNat = c := by
  rw [unitChar, (not_surrogate c).1, (not_surrogate c).2]
  exact Char.ofNat_toNat c

theorem ofUnits_toNat (cs : List Char) : ofUnits (cs.map Char.toNat) = cs := by
  induction cs with
  | nil => rfl
  | cons c cs ih =>
    cases cs with
    | nil => simp [ofUnits, unitChar_toNat]
    | cons d cs =>
      rw [List.map_cons, List.map_cons, ofUnits, (not_surrogate c).1, unitChar_toNat]
      simpa using ih

theorem string_quoted (cs rest : List Char) :
    string (cs.flatMap escapeChar ++ '"' :: rest) = .ok (String.ofList cs, rest) := by
  rw [string, stringUnits_quoted]
  simp only [ofUnits_toNat]

theorem stringChars_append (cs rest : List Char) :
    stringChars cs ++ rest = '"' :: (cs.flatMap escapeChar ++ '"' :: rest) := by
  simp [stringChars]

theorem memberName_quoted (cs rest : List Char) :
    memberName (stringChars cs ++ ':' :: rest) = .ok (String.ofList cs, skipBlanks rest) := by
  rw [stringChars_append, memberName, string_quoted]
  rfl

end Conform.Json
