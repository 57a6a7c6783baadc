import Conform.Display.Render
import Conform.Proofs.QuotedText
import Conform.Proofs.Writing

namespace Conform

namespace Binary64

def IsNumberChar (c : Char) : Prop := c.isDigit = true ∨ c ∈ ['-', '+', '.', 'e']

instance (c : Char) : Decidable (IsNumberChar c) := inferInstanceAs (Decidable (_ ∨ _))

variable {digits : List Char}

theorem toDigits_isNumberChar (n : Nat) : ∀ c ∈ Nat.toDigits 10 n, IsNumberChar c :=
  fun _ hc => .inl (Nat.isDigit_of_mem_toDigits (by decide) (by decide) hc)

theorem padding_isNumberChar (n : Nat) : ∀ c ∈ List.replicate n '0', IsNumberChar c := by
  intro c hc
  rw [List.eq_of_mem_replicate hc]
  exact .inl rfl

theorem exponentText_isNumberChar (e : Int) : ∀ c ∈ exponentText e, IsNumberChar c := by
  have hdigits := toDigits_isNumberChar e.natAbs
  unfold exponentText
  refine List.forall_mem_cons.mpr ⟨?_, ?_⟩
  · split <;> exact .inr (by decide)
  · split
    · exact List.forall_mem_cons.mpr ⟨.inl rfl, hdigits⟩
    · exact hdigits

theorem layout_isNumberChar (hd : ∀ c ∈ digits, IsNumberChar c) (lead : Int) :
    ∀ c ∈ layout digits lead, IsNumberChar c := by
  have hzero : IsNumberChar '0' := .inl rfl
  have hpoint : IsNumberChar '.' := .inr (by decide)
  have hmark : IsNumberChar 'e' := .inr (by decide)
  have hexponent := exponentText_isNumberChar lead
  unfold layout
  split
  · split
    · simp only [List.cons_append, List.forall_mem_cons, List.forall_mem_append]
      exact ⟨hzero, hpoint, padding_isNumberChar _, hd⟩
    · -- the digits before and after the point are parts of the padded ones
      have hpadded : ∀ c ∈ digits ++ List.replicate (lead.toNat + 1 - digits.length) '0',
          IsNumberChar c :=
        List.forall_mem_append.mpr ⟨hd, padding_isNumberChar _⟩
      refine List.forall_mem_append.mpr ⟨fun c hc => hpadded c (List.mem_of_mem_take hc),
        List.forall_mem_cons.mpr ⟨hpoint, ?_⟩⟩
      split
      · exact List.forall_mem_singleton.mpr hzero
      · exact fun c hc => hpadded c (List.mem_of_mem_drop hc)
  · split
    · simp
    · exact List.forall_mem_cons.mpr ⟨hd _ (by simp), List.forall_mem_cons.mpr ⟨hmark, hexponent⟩⟩
    · obtain ⟨hfirst, hrest⟩ := List.forall_mem_cons.mp hd
      simp only [List.cons_append, List.forall_mem_cons, List.forall_mem_append]
      exact ⟨hfirst, hpoint, hrest, hmark, hexponent⟩

theorem magnitudeText_isNumberChar (m : Nat) (e : Int) :
    ∀ c ∈ magnitudeText m e, IsNumberChar c := by
  unfold magnitudeText
  split
  · simp only [List.forall_mem_cons, List.not_mem_nil, false_imp_iff, implies_true, and_true]
    exact ⟨.inl rfl, .inr (by decide), .inl rfl⟩
  · apply layout_isNumberChar
    intro c hc
    have hmem : c ∈ Nat.toDigits 10 (shortest m e).1 :=
      List.mem_reverse.mp ((List.dropWhile_suffix _).subset (List.mem_reverse.mp hc))
    exact toDigits_isNumberChar _ c hmem

theorem chars_isNumberChar (s : Bool) (m : Nat) (e : Int) :
    ∀ c ∈ (finite s m e).chars, IsNumberChar c := by
  cases s
  · exact magnitudeText_isNumberChar m e
  · exact List.forall_mem_cons.mpr ⟨.inr (by decide), magnitudeText_isNumberChar m e⟩

end Binary64

namespace Text

def Visible (cs : List Char) : Prop := ∀ c ∈ cs, 0x20 ≤ c.toNat

instance (cs : List Char) : Decidable (Visible cs) :=
  decidable_of_iff (cs.all fun c => 0x20 ≤ c.toNat) (by simp [Visible])

namespace Visible

variable {cs ds : List Char} {c : Char}

theorem append (h : Visible cs) (h' : Visible ds) : Visible (cs ++ ds) :=
  List.forall_mem_append.mpr ⟨h, h'⟩

theorem cons (h : 0x20 ≤ c.toNat) (h' : Visible cs) : Visible (c :: cs) :=
  List.forall_mem_cons.mpr ⟨h, h'⟩

end Visible

theorem visible_of_isDigit {c : Char} (h : c.isDigit = true) : 0x20 ≤ c.toNat := by
  simp only [Char.isDigit, Bool.and_eq_true, decide_eq_true_eq, UInt32.le_iff_toNat_le] at h
  have hl : 48 ≤ c.toNat := h.1
  omega

end Text

namespace Json

open Text

variable {v : Value} {t : List Char} {ts : List (List Char)}

theorem intChars_isNumberChar (n : Int) : ∀ c ∈ intChars n, Binary64.IsNumberChar c := by
  have hdigits := Binary64.toDigits_isNumberChar n.natAbs
  unfold intChars
  split
  · exact List.forall_mem_cons.mpr ⟨.inr (by decide), hdigits⟩
  · exact hdigits

theorem floatChars_finite (s : Bool) (m : Nat) (e : Int) :
    floatChars (.finite s m e) = (Binary64.finite s m e).chars := rfl

theorem floatChars_cases (x : Binary64) :
    (∀ c ∈ floatChars x, Binary64.IsNumberChar c) ∨ floatChars x = "NaN".toList ∨
      floatChars x = "Infinity".toList ∨ floatChars x = "-Infinity".toList := by
  cases x with
  | nan i => exact .inr (.inl rfl)
  | infinite s =>
    cases s with
    | false => exact .inr (.inr (.inl rfl))
    | true => exact .inr (.inr (.inr rfl))
  | finite s m e =>
    rw [floatChars_finite]
    exact .inl (Binary64.chars_isNumberChar s m e)

theorem visible_of_isNumberChar {c : Char} (h : Binary64.IsNumberChar c) : 0x20 ≤ c.toNat := by
  have hsigns : Visible ['-', '+', '.', 'e'] := by decide
  rcases h with h | h
  · exact visible_of_isDigit h
  · exact hsigns c h

theorem intChars_visible (n : Int) : Visible (intChars n) :=
  fun c hc => visible_of_isNumberChar (intChars_isNumberChar n c hc)

theorem floatChars_visible (x : Binary64) : Visible (floatChars x) := by
  rcases floatChars_cases x with h | h | h | h
  · exact fun c hc => visible_of_isNumberChar (h c hc)
  all_goals
    rw [h]
    decide

theorem hexDigits_visible : ∀ n < 0x20, Visible (hexDigits 4 n) := by decide

theorem escapeChar_visible (c : Char) : Visible (escapeChar c) := by
  unfold escapeChar
  split
  · exact .cons (by decide) (.cons (by decide) nofun)
  split
  · exact .cons (by decide) (.cons (by decide) nofun)
  split
  · exact .cons (by decide) (.cons (by decide) nofun)
  split
  · exact .cons (by decide) (.cons (by decide) nofun)
  split
  · exact .cons (by decide) (.cons (by decide) nofun)
  split
  · exact .cons (by decide) (.cons (by decide) nofun)
  split
  · exact .cons (by decide) (.cons (by decide) nofun)
  split
  next hc => exact .cons (by decide) (.cons (by decide) (hexDigits_visible _ hc))
  next hc => exact .cons (Nat.not_lt.mp hc) nofun

theorem stringChars_visible (cs : List Char) : Visible (stringChars cs) := by
  have hescaped : Visible (cs.flatMap escapeChar) :=
    List.forall_mem_flatMap.mpr fun c _ => escapeChar_visible c
  exact (hescaped.cons (by decide)).append (.cons (by decide) nofun)

theorem commaJoin_visible (h : ∀ t ∈ ts, Visible t) : Visible (commaJoin ts) := by
  induction ts with
  | nil => nofun
  | cons t ts ih =>
    obtain ⟨ht, hts⟩ := List.forall_mem_cons.mp h
    cases ts with
    | nil => exact ht
    | cons u us => exact ht.append (.cons (by decide) (ih hts))

theorem member_visible {keys : List (List Char)} (h : ∀ t ∈ ts, Visible t) :
    ∀ t ∈ List.zipWith member keys ts, Visible t := by
  induction keys generalizing ts with
  | nil => nofun
  | cons key keys ih =>
    cases ts with
    | nil => nofun
    | cons t ts =>
      obtain ⟨ht, hts⟩ := List.forall_mem_cons.mp h
      refine List.forall_mem_cons.mpr ⟨?_, ih hts⟩
      exact (stringChars_visible key).append (.cons (by decide) ht)

theorem writeVia_visible {refer : List Nat → Nat → Writing (List Char)} {around : List Nat}
    (h : ∀ around m t, (refer around m).text? = some t → Visible t)
    (ht : (writeVia refer around v).text? = some t) : Visible t := by
  induction v generalizing refer around t with
  | undefined | null =>
    cases ht
    decide
  | bool b =>
    cases b <;> cases ht <;> decide
  | int n =>
    rw [writeVia, intChars?] at ht
    split at ht
    · cases ht
      exact intChars_visible n
    · contradiction
  | float x =>
    cases ht
    exact floatChars_visible x
  | str s =>
    cases ht
    exact stringChars_visible _
  | list xs ih | tuple xs ih =>
    obtain ⟨ts, hts, rfl⟩ := Option.map_eq_some_iff.mp ht
    have hitems : ∀ t ∈ ts, Visible t := by
      intro t hmem
      obtain ⟨x, hx, ht⟩ := exists_forall₂_right (writeItemsVia_eq_some_iff.mp hts) hmem
      exact ih x hx h ht
    exact ((commaJoin_visible hitems).cons (by decide)).append (by decide)
  | dict es ih =>
    obtain ⟨ts, hts, rfl⟩ := Option.map_eq_some_iff.mp ht
    obtain ⟨keys, us, -, hus, rfl⟩ := writeMembersVia_eq_some_iff.mp hts
    have hmembers : ∀ t ∈ us, Visible t := by
      intro t hmem
      obtain ⟨x, hx, ht⟩ := exists_forall₂_right hus hmem
      obtain ⟨e, he, rfl⟩ := List.mem_map.mp hx
      exact (ih e he).2 h ht
    exact ((commaJoin_visible (member_visible hmembers)).cons (by decide)).append (by decide)
  | cyclic i nodes n ih =>
    have hafter : ∀ k around m t, (writeAfter nodes k around m).text? = some t → Visible t := by
      intro k
      induction k with
      | zero =>
        intro around m t ht
        contradiction
      | succ k ihk =>
        intro around m t ht
        change (revisit nodes (writeAfter nodes k) around m).text? = some t at ht
        unfold revisit at ht
        split at ht
        · contradiction
        · rcases writeNodeVia_eq_or (writeAfter nodes k) (m :: around) nodes m with
            ⟨v, hv, -, hnode⟩ | ⟨-, hnode⟩
          · rw [hnode] at ht
            exact ih v (List.mem_of_getElem? hv) ihk ht
          · rw [hnode] at ht
            contradiction
    exact hafter _ _ _ _ ht
  | again m => exact h _ _ _ ht
  | _ => contradiction

theorem chars_visible (h : chars? v = some t) : Visible t := by
  refine writeVia_visible (fun _ _ _ hrefer => ?_) h
  contradiction

end Json

namespace Display

open Text

theorem mem_fullText {v : Value} {c : Char} (h : c ∈ fullText v) :
    0x20 ≤ c.toNat ∨ Json.chars? v = none ∧ c ∈ v.kind.name.toList := by
  unfold fullText at h
  split at h
  · have hword : Visible "undefined".toList := by decide
    exact .inl (hword c h)
  · cases ht : Json.chars? v with
    | none =>
      rw [ht] at h
      exact .inr ⟨rfl, h⟩
    | some t =>
      rw [ht] at h
      exact .inl (Json.chars_visible ht c h)

theorem mem_received {o : Options} {v : Value} {c : Char} (h : c ∈ (received o v).toList) :
    0x20 ≤ c.toNat ∨ Json.chars? v = none ∧ c ∈ v.kind.name.toList := by
  rw [received, String.toList_ofList, truncate] at h
  split at h
  · rcases List.mem_append.mp h with h | h
    · exact mem_fullText (List.mem_of_mem_take h)
    · have hdots : Visible ['.', '.', '.'] := by decide
      exact .inl (hdots c h)
  · exact mem_fullText h

end Display

end Conform
