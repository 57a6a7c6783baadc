import Conform.Proofs.Rounding

namespace Conform.Binary64

structure NearestAt (m : Nat) (e : Int) (n : Nat) (p : Int) : Prop where
  reads : Reads m e (n * 10 ^ p)
  nearest : ∀ k : Nat, Reads m e (k * 10 ^ p) →
    |(n : Rat) * 10 ^ p - m * 2 ^ e| ≤ |(k : Rat) * 10 ^ p - m * 2 ^ e|
  even : ∀ k : Nat, Reads m e (k * 10 ^ p) →
    |(n : Rat) * 10 ^ p - m * 2 ^ e| = |(k : Rat) * 10 ^ p - m * 2 ^ e| → k = n ∨ n % 2 = 0

variable {m n k : Nat} {e p r : Int} {a b c q : Rat}

theorem Reads.convex (ha : Reads m e a) (hb : Reads m e b) (hac : a ≤ c) (hcb : c ≤ b) :
    Reads m e c := by
  rw [Reads] at ha hb ⊢
  split at ha
  next h =>
    rw [if_pos h] at hb ⊢
    exact ⟨ha.1.trans hac, hcb.trans hb.2⟩
  next h =>
    rw [if_neg h] at hb ⊢
    exact ⟨ha.1.trans_le hac, hcb.trans_lt hb.2⟩

theorem reads_self (m : Nat) (e : Int) : Reads m e (m * 2 ^ e) := by
  have he : (0 : Rat) < 2 ^ e := by positivity
  have hbelow : (if m = 2 ^ 52 ∧ -1074 < e then (m : Rat) - 1 / 4 else m - 1 / 2) < m := by
    split <;> linarith
  have habove : (m : Rat) < m + 1 / 2 := by linarith
  rw [Reads]
  split
  · exact ⟨mul_le_mul_of_nonneg_right hbelow.le he.le, mul_le_mul_of_nonneg_right habove.le he.le⟩
  · exact ⟨mul_lt_mul_of_pos_right hbelow he, mul_lt_mul_of_pos_right habove he⟩

theorem abs_scaled (n : Nat) (p : Int) (x : Rat) :
    |(n : Rat) * 10 ^ p - x| = |(n : Rat) - x / 10 ^ p| * 10 ^ p := by
  have hp : (0 : Rat) < 10 ^ p := by positivity
  rw [← abs_of_pos hp, ← abs_mul, abs_of_pos hp, sub_mul, div_mul_cancel₀ _ hp.ne']

theorem one_le_abs_sub_add (h : k ≠ n) (q : Rat) : 1 ≤ |(n : Rat) - q| + |(k : Rat) - q| := by
  have hint : (1 : Rat) ≤ |(n : Rat) - k| := by
    exact_mod_cast Int.one_le_abs (show (n : Int) - k ≠ 0 by omega)
  have htriangle := abs_sub_le (n : Rat) q k
  rw [abs_sub_comm q] at htriangle
  linarith

theorem nearestAt_roundHalfEven (hreads : Reads m e (roundHalfEven (m * 2 ^ e / 10 ^ p) * 10 ^ p)) :
    NearestAt m e (roundHalfEven (m * 2 ^ e / 10 ^ p)) p := by
  have hp : (0 : Rat) < 10 ^ p := by positivity
  have hq : (0 : Rat) ≤ m * 2 ^ e / 10 ^ p := by positivity
  have hhalf := abs_roundHalfEven_sub_le hq
  refine ⟨hreads, fun k _ => ?_, fun k _ => ?_⟩
  · rw [abs_scaled, abs_scaled]
    apply mul_le_mul_of_nonneg_right _ hp.le
    by_cases hk : k = roundHalfEven (m * 2 ^ e / 10 ^ p)
    · rw [hk]
    · linarith [one_le_abs_sub_add hk (m * 2 ^ e / 10 ^ p)]
  · rw [abs_scaled, abs_scaled, mul_left_inj' hp.ne']
    intro htie
    by_cases hk : k = roundHalfEven (m * 2 ^ e / 10 ^ p)
    · exact .inl hk
    · right
      have hone := one_le_abs_sub_add hk (m * 2 ^ e / 10 ^ p)
      by_contra hodd
      have hround := (roundHalfEven_eq_iff hq).mp rfl
      rw [if_neg hodd] at hround
      have hlt : |(roundHalfEven (m * 2 ^ e / 10 ^ p) : Rat) - m * 2 ^ e / 10 ^ p| < 1 / 2 :=
        abs_lt.mpr ⟨by linarith, by linarith⟩
      linarith

theorem floor_toNat_bounds (hq : 0 ≤ q) :
    (q.floor.toNat : Rat) ≤ q ∧ q < (q.floor.toNat + 1 : Nat) := by
  have hfloor : ((q.floor.toNat : Int) : Rat) = q.floor := by
    rw [Int.toNat_of_nonneg (Rat.le_floor_iff.mpr (by exact_mod_cast hq))]
  have hlt := Rat.lt_floor_add_one q
  rw [Int.cast_natCast] at hfloor
  push_cast at hlt ⊢
  rw [hfloor]
  exact ⟨Rat.floor_le q, hlt⟩

theorem Reads.neighbour (h : Reads m e (k * 10 ^ p)) {low : Nat}
    (hlow : (low : Rat) * 10 ^ p ≤ m * 2 ^ e)
    (hhigh : (m : Rat) * 2 ^ e ≤ (low + 1 : Nat) * 10 ^ p) :
    (k ≤ low → Reads m e (low * 10 ^ p)) ∧
      (low + 1 ≤ k → Reads m e ((low + 1 : Nat) * 10 ^ p)) := by
  constructor
  · intro hk
    refine h.convex (reads_self m e) ?_ hlow
    gcongr
  · intro hk
    refine (reads_self m e).convex h hhigh ?_
    gcongr

theorem abs_sub_lt_of_below {x : Rat} (hba : b < a) (hax : a ≤ x) : |a - x| < |b - x| := by
  rw [abs_of_nonpos (by linarith), abs_of_nonpos (by linarith)]
  linarith

theorem abs_sub_lt_of_above {x : Rat} (hab : a < b) (hxa : x ≤ a) : |a - x| < |b - x| := by
  rw [abs_of_nonneg (by linarith), abs_of_nonneg (by linarith)]
  linarith

theorem nearestAt_of_side (hreads : Reads m e (n * 10 ^ p))
    (hside : ∀ k : Nat, Reads m e (k * 10 ^ p) → k ≠ n →
      |(n : Rat) * 10 ^ p - m * 2 ^ e| < |(k : Rat) * 10 ^ p - m * 2 ^ e|) : NearestAt m e n p := by
  refine ⟨hreads, fun k hk => ?_, fun k hk htie => ?_⟩
  · by_cases hkn : k = n
    · rw [hkn]
    · exact (hside k hk hkn).le
  · by_cases hkn : k = n
    · exact .inl hkn
    · exact absurd htie (hside k hk hkn).ne

theorem reads_of_near {y : Rat} (h : |y - m * 2 ^ e| <
    if m = 2 ^ 52 ∧ -1074 < e then (2 : Rat) ^ e / 4 else 2 ^ e / 2) : Reads m e y := by
  have hpos : (0 : Rat) < 2 ^ e := by positivity
  obtain ⟨hlow, hhigh⟩ := abs_lt.mp h
  have hbelow : (if m = 2 ^ 52 ∧ -1074 < e then (m : Rat) - 1 / 4 else m - 1 / 2) * 2 ^ e < y := by
    split_ifs at hlow ⊢ <;> linarith
  have habove : y < ((m : Rat) + 1 / 2) * 2 ^ e := by
    split at hhigh <;> linarith
  rw [Reads]
  split
  · exact ⟨hbelow.le, habove.le⟩
  · exact ⟨hbelow, habove⟩

section

variable (hu : InUse m e) (he : e ≤ greatestExponent) (hm : 0 < m)
include hu he hm

theorem decimalAt?_eq (p : Int) :
    (∃ n, decimalAt? m e p = some (n, p) ∧ NearestAt m e n p) ∨
      decimalAt? m e p = none ∧ ∀ n : Nat, ¬ Reads m e (n * 10 ^ p) := by
  have hp : (0 : Rat) < 10 ^ p := by positivity
  obtain ⟨q, hq⟩ : ∃ q : Rat, q = m * 2 ^ e / 10 ^ p := ⟨_, rfl⟩
  obtain ⟨hle, hlt⟩ := floor_toNat_bounds (q := q) (by rw [hq]; positivity)
  rw [decimalAt?, ← hq]
  have hread {n : Nat} (h : Reads m e (n * 10 ^ p)) :
      decide (ofDecimal false n p = .finite false m e) = true :=
    decide_eq_true ((ofDecimal_eq_finite_iff hu he hm).mpr h)
  have hother {n : Nat} (h : ¬ Reads m e (n * 10 ^ p)) :
      decide (ofDecimal false n p = .finite false m e) = false :=
    decide_eq_false (mt (ofDecimal_eq_finite_iff hu he hm).mp h)
  generalize q.floor.toNat = low at *
  have hlow : (low : Rat) * 10 ^ p ≤ m * 2 ^ e := (le_div_iff₀ hp).mp (hq ▸ hle)
  have hhigh : m * 2 ^ e ≤ ((low + 1 : Nat) : Rat) * 10 ^ p := (div_le_iff₀ hp).mp (hq ▸ hlt.le)
  have hside (k : Nat) (hk : Reads m e (k * 10 ^ p)) := hk.neighbour hlow hhigh
  by_cases h0 : Reads m e (low * 10 ^ p) <;> by_cases h1 : Reads m e ((low + 1 : Nat) * 10 ^ p)
  · refine .inl ⟨roundHalfEven q, by simp only [hread h0, hread h1], ?_⟩
    have hq0 : 0 ≤ q := le_trans (Nat.cast_nonneg low) hle
    have hround : roundHalfEven q = low ∨ roundHalfEven q = low + 1 := by
      have hfirst := le_roundHalfEven hq0 hle
      have hlast := roundHalfEven_le hq0 hlt.le
      omega
    rw [hq]
    apply nearestAt_roundHalfEven
    rw [← hq]
    rcases hround with h | h <;> rwa [h]
  · refine .inl ⟨low, by simp only [hread h0, hother h1], nearestAt_of_side h0 ?_⟩
    intro k hk hne
    have hkl : ¬ low + 1 ≤ k := mt (hside k hk).2 h1
    refine abs_sub_lt_of_below ?_ hlow
    gcongr
    omega
  · refine .inl ⟨low + 1, by simp only [hother h0, hread h1], nearestAt_of_side h1 ?_⟩
    intro k hk hne
    have hkl : ¬ k ≤ low := mt (hside k hk).1 h0
    refine abs_sub_lt_of_above ?_ hhigh
    gcongr
    omega
  · refine .inr ⟨by simp only [hother h0, hother h1], fun k hk => ?_⟩
    rcases Nat.lt_or_ge low k with h | h
    · exact h1 ((hside k hk).2 h)
    · exact h0 ((hside k hk).1 h)

omit he in
theorem leadingPlace_bounds : (10 : Rat) ^ leadingPlace (m * 2 ^ e) ≤ m * 2 ^ e ∧
    (m : Rat) * 2 ^ e < 10 ^ (leadingPlace (m * 2 ^ e) + 1) := by
  have hpower : (0 : Rat) < 10 ^ (350 : Int) := by positivity
  obtain ⟨x, hx⟩ : ∃ x : Rat, x = m * 2 ^ e := ⟨_, rfl⟩
  have hsmall : (10 : Rat) ^ (-350 : Int) ≤ x := by
    refine le_trans ?_ (hx ▸ (reads_self m e).ten_zpow_lt hu hm).le
    exact zpow_le_zpow_right₀ (by norm_num) (by norm_num)
  have hone : 1 ≤ x * 10 ^ (350 : Int) := by
    rwa [← div_le_iff₀ hpower, one_div, ← zpow_neg]
  obtain ⟨hle, hlt⟩ := floor_toNat_bounds (q := x * 10 ^ (350 : Int)) (by linarith)
  have hpow : Rat.pow 10 350 = (10 : Rat) ^ (350 : Int) := by
    rw [zpow_ofNat]
    rfl
  rw [← hx, leadingPlace, hpow]
  generalize (x * 10 ^ (350 : Int)).floor.toNat = N at *
  have hN : N ≠ 0 := by
    rintro rfl
    rw [Nat.zero_add, Nat.cast_one] at hlt
    linarith
  have hlow := (decimal_bounds hN (-350)).1
  have hhigh : ((N + 1 : Nat) : Rat) ≤ ((10 ^ (Nat.toDigits 10 N).length : Nat) : Rat) := by
    exact_mod_cast (toDigits_bounds hN).2
  constructor
  · calc (10 : Rat) ^ (((Nat.toDigits 10 N).length : Int) - 351)
        = 10 ^ ((Nat.toDigits 10 N).length + -350 - 1 : Int) := by congr 1; omega
      _ ≤ N * 10 ^ (-350 : Int) := hlow
      _ ≤ x := by rwa [zpow_neg, ← div_eq_mul_inv, div_le_iff₀ hpower]
  · calc x < 10 ^ ((Nat.toDigits 10 N).length : Int) / 10 ^ (350 : Int) := by
          rw [lt_div_iff₀ hpower, zpow_natCast]
          exact hlt.trans_le (by exact_mod_cast hhigh)
      _ = 10 ^ (((Nat.toDigits 10 N).length : Int) - 351 + 1) := by
          rw [← zpow_sub₀ (by norm_num)]
          congr 1
          omega

omit he in
theorem reads_seventeen :
    Reads m e (roundHalfEven (m * 2 ^ e / 10 ^ (leadingPlace (m * 2 ^ e) - 16)) *
      10 ^ (leadingPlace (m * 2 ^ e) - 16)) := by
  obtain ⟨hle, -⟩ := leadingPlace_bounds hu hm
  generalize leadingPlace (m * 2 ^ e) = lead at *
  have hstep : (10 : Rat) ^ lead = 10 ^ (lead - 16) * 10 ^ 16 := by
    rw [← zpow_natCast, ← zpow_add₀ (by norm_num)]
    congr 1
    omega
  have hp : (0 : Rat) < 10 ^ (lead - 16) := by positivity
  have hpos : (0 : Rat) < 2 ^ e := by positivity
  have hnear := abs_roundHalfEven_sub_le (r := m * 2 ^ e / 10 ^ (lead - 16)) (by positivity)
  have hscaled :
      |(roundHalfEven (m * 2 ^ e / 10 ^ (lead - 16)) : Rat) * 10 ^ (lead - 16) - m * 2 ^ e| ≤
        10 ^ (lead - 16) / 2 := by
    rw [abs_scaled]
    linarith [mul_le_mul_of_nonneg_right hnear hp.le]
  refine reads_of_near (hscaled.trans_lt ?_)
  rw [hstep] at hle
  split
  next h =>
    rw [h.1] at hle
    norm_num at hle
    linarith
  next =>
    have hcast : (m : Rat) * 2 ^ e < ((2 ^ 53 : Nat) : Rat) * 2 ^ e := by
      gcongr
      exact hu.lt
    norm_num at hle hcast
    linarith

theorem shortest_eq : ∃ n p, shortest m e = (n, p) ∧ NearestAt m e n p ∧
    p ≤ leadingPlace (m * 2 ^ e) ∧
    ∀ r, p < r → r ≤ leadingPlace (m * 2 ^ e) → ∀ k : Nat, ¬ Reads m e (k * 10 ^ r) := by
  have hlast := reads_seventeen hu hm
  rw [shortest]
  generalize leadingPlace (m * 2 ^ e) = lead at *
  have hplaces := decimalAt?_eq hu he hm
  cases hfound : (List.range 17).findSome? fun (n : Nat) => decimalAt? m e (lead - n) with
  | none =>
    have hnone : decimalAt? m e (lead - 16) = none :=
      List.findSome?_eq_none_iff.mp hfound 16 (by decide)
    rcases hplaces (lead - 16) with ⟨n, hn, -⟩ | ⟨-, hno⟩
    · rw [hn] at hnone
      contradiction
    · exact absurd hlast (hno _)
  | some found =>
    obtain ⟨before, i, after, hrange, hi, hbefore⟩ := List.findSome?_eq_some_iff.mp hfound
    rcases hplaces (lead - i) with ⟨n, hn, hnearest⟩ | ⟨hnone, -⟩
    · obtain rfl : (n, lead - i) = found := Option.some.inj (hn.symm.trans hi)
      refine ⟨n, lead - i, rfl, hnearest, by omega, fun r hr hle => ?_⟩
      obtain ⟨j, rfl⟩ : ∃ j : Nat, r = lead - j := ⟨(lead - r).toNat, by omega⟩
      have hj : j ∈ before := by
        rw [List.range_eq_range', List.range'_eq_append_iff] at hrange
        obtain ⟨k, -, rfl, hrest⟩ := hrange
        obtain ⟨hki, -, -⟩ := List.range'_eq_cons_iff.mp hrest.symm
        rw [List.mem_range'_1]
        omega
      rcases hplaces (lead - j) with ⟨n', hn', -⟩ | ⟨-, hno⟩
      · rw [hbefore j hj] at hn'
        contradiction
      · exact hno
    · rw [hnone] at hi
      contradiction

end

end Conform.Binary64
