import Conform.Json.Writer
import Conform.Proofs.ShortestDecimal

namespace Conform

namespace Binary64

def signedExponent (e : Int) : List Char :=
  (if e < 0 then '-' else '+') ::
    (List.replicate (2 - (Nat.toDigits 10 e.natAbs).length) '0' ++ Nat.toDigits 10 e.natAbs)

/-- How digits are written of which the first stands at the place `lead`. -/
inductive Laid : (ds : List Char) → (lead : Int) → List Char → Prop
  | whole {ds : List Char} {zeros : Nat} (hds : ds ≠ []) (hl : ds.length + zeros ≤ 16) :
    Laid ds (ds.length + zeros - 1) (ds ++ List.replicate zeros '0' ++ ['.', '0'])
  | point {ws fs : List Char} (hws : ws ≠ []) (hfs : fs ≠ []) (hl : ws.length ≤ 16) :
    Laid (ws ++ fs) (ws.length - 1) (ws ++ '.' :: fs)
  | small {ds : List Char} {zeros : Nat} (hl : zeros < 4) :
    Laid ds (-(zeros + 1)) ('0' :: '.' :: List.replicate zeros '0' ++ ds)
  | digit {d : Char} {lead : Int} (hl : lead < -4 ∨ 16 ≤ lead) :
    Laid [d] lead (d :: 'e' :: signedExponent lead)
  | digits {d d' : Char} {ds : List Char} {lead : Int} (hl : lead < -4 ∨ 16 ≤ lead) :
    Laid (d :: d' :: ds) lead (d :: '.' :: d' :: ds ++ 'e' :: signedExponent lead)

variable {d m n : Nat} {e lead p : Int} {ds t : List Char}

theorem exponentText_eq (e : Int) : exponentText e = signedExponent e := by
  have hpos : 0 < (Nat.toDigits 10 e.natAbs).length := Nat.length_toDigits_pos
  rw [exponentText, signedExponent]
  generalize Nat.toDigits 10 e.natAbs = ds at *
  by_cases h : ds.length < 2
  · rw [if_pos h, show 2 - ds.length = 1 by omega]
    rfl
  · rw [if_neg h, show 2 - ds.length = 0 by omega]
    rfl

theorem isPositional_iff : isPositional lead = true ↔ -4 ≤ lead ∧ lead < 16 := by
  simp [isPositional]

theorem Laid.eq_layout (h : Laid ds lead t) : layout ds lead = t := by
  rw [layout.eq_def]
  cases h with
  | @whole _ zeros hds hl =>
    have hpos := List.length_pos_iff.mpr hds
    have hlength : (ds ++ List.replicate zeros '0').length = ds.length + zeros := by
      rw [List.length_append, List.length_replicate]
    have hwhole : ((ds.length : Int) + zeros - 1).toNat + 1 = ds.length + zeros := by omega
    rw [if_pos (isPositional_iff.mpr (by omega)), if_neg (by omega)]
    simp only [hwhole, Nat.add_sub_cancel_left]
    rw [← hlength, List.drop_length, List.take_length]
    rfl
  | @point ws fs hws hfs hl =>
    have hpos := List.length_pos_iff.mpr hws
    have hlength : (ws ++ fs).length = ws.length + fs.length := List.length_append
    have hwhole : ((ws.length : Int) - 1).toNat + 1 = ws.length := by omega
    rw [if_pos (isPositional_iff.mpr (by omega)), if_neg (by omega)]
    simp only [hwhole, show ws.length - (ws ++ fs).length = 0 by omega, List.replicate_zero,
      List.append_nil, List.drop_left, List.take_left]
    rw [if_neg (mt List.isEmpty_iff.mp hfs)]
  | @small _ zeros hl =>
    rw [if_pos (isPositional_iff.mpr (by omega)), if_pos (by omega),
      show (-(-((zeros : Int) + 1)) - 1).toNat = zeros by omega]
  | digit hl => rw [if_neg (mt isPositional_iff.mp (by omega)), exponentText_eq]
  | digits hl => rw [if_neg (mt isPositional_iff.mp (by omega)), exponentText_eq]

theorem exists_laid (hds : ds ≠ []) (lead : Int) : ∃ t, Laid ds lead t := by
  have hpos := List.length_pos_iff.mpr hds
  by_cases hl : lead < -4 ∨ 16 ≤ lead
  · cases ds with
    | nil => contradiction
    | cons d ds =>
      cases ds with
      | nil => exact ⟨_, .digit hl⟩
      | cons => exact ⟨_, .digits hl⟩
  · by_cases hs : lead < 0
    · obtain ⟨zeros, rfl⟩ : ∃ zeros : Nat, lead = -(zeros + 1) := ⟨(-lead - 1).toNat, by omega⟩
      exact ⟨_, .small (by omega)⟩
    · by_cases hw : (ds.length : Int) ≤ lead + 1
      · obtain ⟨zeros, rfl⟩ : ∃ zeros : Nat, lead = ds.length + zeros - 1 :=
          ⟨(lead + 1 - ds.length).toNat, by omega⟩
        exact ⟨_, .whole hds (by omega)⟩
      · have hlength : (ds.take (lead + 1).toNat).length = (lead + 1).toNat := by
          rw [List.length_take]
          omega
        have hpoint : Laid (ds.take (lead + 1).toNat ++ ds.drop (lead + 1).toNat)
            ((ds.take (lead + 1).toNat).length - 1) _ :=
          .point (List.ne_nil_of_length_pos (by omega)) (by rw [Ne, List.drop_eq_nil_iff]; omega)
            (by omega)
        rw [List.take_append_drop, hlength,
          show (((lead + 1).toNat : Nat) : Int) - 1 = lead by omega] at hpoint
        exact ⟨_, hpoint⟩

theorem laid_layout (hds : ds ≠ []) : Laid ds lead (layout ds lead) := by
  obtain ⟨t, ht⟩ := exists_laid hds lead
  rwa [ht.eq_layout]

theorem toDigits_mul_ten_pow (hd : d ≠ 0) (z : Nat) :
    Nat.toDigits 10 (d * 10 ^ z) = Nat.toDigits 10 d ++ List.replicate z '0' := by
  induction z with
  | zero => rw [pow_zero, Nat.mul_one, List.replicate_zero, List.append_nil]
  | succ z ih =>
    have hpos : 0 < d * 10 ^ z := Nat.mul_pos (Nat.pos_of_ne_zero hd) (by positivity)
    have hlast := Nat.toDigits_append_toDigits (b := 10) (d := 0) (by decide) hpos (by decide)
    rw [List.replicate_succ', ← List.append_assoc, ← ih, pow_succ, ← Nat.mul_assoc,
      Nat.mul_comm _ 10]
    exact hlast.symm

theorem digitChar_ne_zero {k : Nat} (hk : k < 10) (hne : k ≠ 0) : Nat.digitChar k ≠ '0' := by
  have hall : ∀ k < 10, k ≠ 0 → Nat.digitChar k ≠ '0' := by decide
  exact hall k hk hne

theorem exists_toDigits_eq_concat (hd : ¬ 10 ∣ d) :
    ∃ ds c, Nat.toDigits 10 d = ds ++ [c] ∧ c ≠ '0' := by
  have hchar : Nat.digitChar (d % 10) ≠ '0' := digitChar_ne_zero (by omega) (by omega)
  rcases Nat.lt_or_ge d 10 with h | h
  · rw [Nat.mod_eq_of_lt h] at hchar
    exact ⟨[], _, Nat.toDigits_of_lt_base h, hchar⟩
  · have hlast := Nat.toDigits_append_toDigits (b := 10) (n := d / 10) (d := d % 10) (by decide)
      (by omega) (by omega)
    rw [Nat.div_add_mod, Nat.toDigits_of_lt_base (n := d % 10) (by omega)] at hlast
    exact ⟨_, _, hlast.symm, hchar⟩

theorem dropTrailingZeros_toDigits (hd : ¬ 10 ∣ d) (z : Nat) :
    dropTrailingZeros (Nat.toDigits 10 (d * 10 ^ z)) = Nat.toDigits 10 d := by
  obtain ⟨ds, c, hds, hc⟩ := exists_toDigits_eq_concat hd
  have hzeros : ∀ a ∈ List.replicate z '0', (a == '0') = true := by
    intro a ha
    rw [List.eq_of_mem_replicate ha]
    rfl
  rw [toDigits_mul_ten_pow (by omega), hds, dropTrailingZeros,
    List.reverse_append, List.reverse_replicate, List.dropWhile_append_of_pos hzeros,
    List.reverse_concat, List.dropWhile_cons_of_neg (by simpa using hc), List.reverse_cons,
    List.reverse_reverse]

def Canonical : Binary64 → Prop
  | .finite _ m e => InUse m e ∧ e ≤ 971
  | _ => True

def MagnitudeText (m : Nat) (e : Int) (t : List Char) : Prop :=
  ∃ n p, Shortest m e n p ∧
    Laid (Nat.toDigits 10 n) ((Nat.toDigits 10 n).length + p - 1) t

theorem MagnitudeText.unique {u : List Char} (hm : 0 < m) (ht : MagnitudeText m e t)
    (hu : MagnitudeText m e u) : t = u := by
  obtain ⟨n, p, hs, ht⟩ := ht
  obtain ⟨n', p', hs', hu⟩ := hu
  obtain ⟨rfl, rfl⟩ := hs.unique hm hs'
  exact ht.eq_layout.symm.trans hu.eq_layout

theorem magnitudeText_spec (hu : InUse m e) (he : e ≤ greatestExponent) (hm : 0 < m) :
    MagnitudeText m e (magnitudeText m e) := by
  obtain ⟨d, z, p, hd, hfound, hs⟩ := exists_shortest hu he hm
  refine ⟨d, p + z, hs, ?_⟩
  rw [magnitudeText, if_neg hm.ne', hfound]
  simp only
  rw [dropTrailingZeros_toDigits hd, toDigits_mul_ten_pow (by omega),
    List.length_append, List.length_replicate]
  have hlead : (((Nat.toDigits 10 d).length + z : Nat) : Int) + p - 1 =
      (Nat.toDigits 10 d).length + (p + z) - 1 := by
    omega
  rw [hlead]
  exact laid_layout (List.ne_nil_of_length_pos Nat.length_toDigits_pos)

end Binary64

namespace Json

open Binary64

inductive FloatText : Binary64 → List Char → Prop
  | nan (i : Identity) : FloatText (.nan i) "NaN".toList
  | infinity : FloatText (.infinite false) "Infinity".toList
  | negativeInfinity : FloatText (.infinite true) "-Infinity".toList
  | zero (e : Int) : FloatText (.finite false 0 e) "0.0".toList
  | negativeZero (e : Int) : FloatText (.finite true 0 e) "-0.0".toList
  | positive {m : Nat} {e : Int} {t : List Char} (hm : 0 < m) (h : MagnitudeText m e t) :
    FloatText (.finite false m e) t
  | negative {m : Nat} {e : Int} {t : List Char} (hm : 0 < m) (h : MagnitudeText m e t) :
    FloatText (.finite true m e) ('-' :: t)

variable {x : Binary64} {t u : List Char}

theorem FloatText.unique (ht : FloatText x t) (hu : FloatText x u) : t = u := by
  cases ht with
  | positive hm h =>
    cases hu with
    | zero => exact absurd hm (Nat.lt_irrefl 0)
    | positive _ h' => exact h.unique hm h'
  | negative hm h =>
    cases hu with
    | negativeZero => exact absurd hm (Nat.lt_irrefl 0)
    | negative _ h' => rw [h.unique hm h']
  | zero =>
    cases hu with
    | zero => rfl
    | positive hm => exact absurd hm (Nat.lt_irrefl 0)
  | negativeZero =>
    cases hu with
    | negativeZero => rfl
    | negative hm => exact absurd hm (Nat.lt_irrefl 0)
  | _ =>
    cases hu
    rfl

theorem floatText_floatChars (hx : x.Canonical) : FloatText x (floatChars x) := by
  cases x with
  | nan i => exact .nan i
  | infinite s =>
    cases s with
    | false => exact .infinity
    | true => exact .negativeInfinity
  | finite s m e =>
    obtain ⟨hu, he⟩ := hx
    rcases Nat.eq_zero_or_pos m with rfl | hm
    · cases s with
      | false => exact .zero e
      | true => exact .negativeZero e
    · have htext := magnitudeText_spec hu he hm
      cases s with
      | false => exact .positive hm htext
      | true => exact .negative hm htext

end Json

end Conform
