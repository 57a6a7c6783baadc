import Conform.Number.Shortest
import Mathlib.Algebra.Order.Field.Power
import Mathlib.Data.Rat.Floor
import Mathlib.Tactic.FieldSimp
import Mathlib.Tactic.Linarith
import Mathlib.Tactic.NormNum
import Mathlib.Tactic.Positivity
import Mathlib.Tactic.Ring

namespace Conform

theorem num_natAbs_eq {q : Rat} (hq : 0 ≤ q) : (q.num.natAbs : Rat) = q * q.den := by
  have hnum : ((q.num.natAbs : Int) : Rat) = q.num := by
    rw [Int.natAbs_of_nonneg (Rat.num_nonneg.mpr hq)]
  rw [Rat.mul_den_eq_num, ← hnum, Int.cast_natCast]

theorem roundHalfEven_eq_iff {q : Rat} (hq : 0 ≤ q) {n : Nat} : roundHalfEven q = n ↔
    if n % 2 = 0 then (n : Rat) - 1 / 2 ≤ q ∧ q ≤ n + 1 / 2
    else (n : Rat) - 1 / 2 < q ∧ q < n + 1 / 2 := by
  have hden : (0 : Rat) < q.den := by exact_mod_cast q.den_pos
  have hnum := num_natAbs_eq hq
  have hbelow : (n : Rat) - 1 / 2 < q ↔ 2 * (n * q.den) < 2 * q.num.natAbs + q.den := by
    rw [← mul_lt_mul_iff_of_pos_right hden, ← hnum, ← Nat.cast_lt (α := Rat)]
    push_cast
    constructor <;> intro h <;> linarith
  have habove : q < (n : Rat) + 1 / 2 ↔ 2 * q.num.natAbs < 2 * (n * q.den) + q.den := by
    rw [← mul_lt_mul_iff_of_pos_right hden, ← hnum, ← Nat.cast_lt (α := Rat)]
    push_cast
    constructor <;> intro h <;> linarith
  have hbelow' : (n : Rat) - 1 / 2 ≤ q ↔ 2 * (n * q.den) ≤ 2 * q.num.natAbs + q.den := by
    rw [← mul_le_mul_iff_of_pos_right hden, ← hnum, ← Nat.cast_le (α := Rat)]
    push_cast
    constructor <;> intro h <;> linarith
  have habove' : q ≤ (n : Rat) + 1 / 2 ↔ 2 * q.num.natAbs ≤ 2 * (n * q.den) + q.den := by
    rw [← mul_le_mul_iff_of_pos_right hden, ← hnum, ← Nat.cast_le (α := Rat)]
    push_cast
    constructor <;> intro h <;> linarith
  rw [hbelow, habove, hbelow', habove', roundHalfEven]
  have hdiv := Nat.div_add_mod' q.num.natAbs q.den
  have hmod := Nat.mod_lt q.num.natAbs q.den_pos
  generalize q.num.natAbs / q.den = low at *
  generalize q.num.natAbs % q.den = r at *
  rcases Nat.lt_trichotomy n low with hlt | rfl | hlt
  · have hle : (n + 1) * q.den ≤ low * q.den := Nat.mul_le_mul_right _ hlt
    rw [Nat.add_mul, Nat.one_mul] at hle
    grind
  · grind
  · rcases Nat.lt_or_eq_of_le (Nat.succ_le_of_lt hlt) with hlt' | rfl
    · have hle : (low + 2) * q.den ≤ n * q.den := Nat.mul_le_mul_right _ hlt'
      rw [Nat.add_mul] at hle
      grind
    · rw [Nat.succ_eq_add_one, Nat.add_mul, Nat.one_mul]
      grind

namespace Binary64

theorem two_zpow_log2_le {n : Nat} (hn : n ≠ 0) : (2 : Rat) ^ (n.log2 : Int) ≤ n := by
  rw [zpow_natCast]
  exact_mod_cast Nat.log2_self_le hn

theorem lt_two_zpow_log2 (n : Nat) : (n : Rat) < 2 ^ ((n.log2 : Int) + 1) := by
  exact_mod_cast Nat.lt_log2_self (n := n)

theorem exponentFor_spec {q : Rat} (hq : 0 < q) :
    -1074 ≤ exponentFor q ∧ q < 2 ^ (exponentFor q + 53) ∧
      (2 ^ (exponentFor q + 52) ≤ q ∨ exponentFor q = -1074) := by
  have hden : (0 : Rat) < q.den := by exact_mod_cast q.den_pos
  have hnum := num_natAbs_eq hq.le
  have hpos : q.num.natAbs ≠ 0 := Int.natAbs_ne_zero.mpr (Rat.num_pos.mpr hq).ne'
  obtain ⟨guess, hguess⟩ : ∃ g : Int, g = (q.num.natAbs.log2 : Int) - q.den.log2 - 52 := ⟨_, rfl⟩
  have hlow : (2 : Rat) ^ (guess + 51) ≤ q := by
    rw [← mul_le_mul_iff_of_pos_right hden, ← hnum]
    calc (2 : Rat) ^ (guess + 51) * q.den
        ≤ 2 ^ (guess + 51) * 2 ^ ((q.den.log2 : Int) + 1) := by
          gcongr
          exact (lt_two_zpow_log2 _).le
      _ = 2 ^ (q.num.natAbs.log2 : Int) := by
          rw [← zpow_add₀ two_ne_zero, hguess]
          congr 1
          omega
      _ ≤ q.num.natAbs := two_zpow_log2_le hpos
  have hhigh : q < (2 : Rat) ^ (guess + 53) := by
    rw [← mul_lt_mul_iff_of_pos_right hden, ← hnum]
    calc (q.num.natAbs : Rat) < 2 ^ ((q.num.natAbs.log2 : Int) + 1) := lt_two_zpow_log2 _
      _ = 2 ^ (guess + 53) * 2 ^ (q.den.log2 : Int) := by
          rw [← zpow_add₀ two_ne_zero, hguess]
          congr 1
          omega
      _ ≤ 2 ^ (guess + 53) * q.den := by
          gcongr
          exact two_zpow_log2_le q.den_nz
  have hfit : ∃ e : Int, exponentFor q = max e (-1074) ∧ 2 ^ (e + 52) ≤ q ∧ q < 2 ^ (e + 53) := by
    rw [exponentFor, ← hguess]
    by_cases hless : q < 2 ^ (guess + 52)
    · refine ⟨guess - 1, by rw [if_pos hless]; rfl, ?_, ?_⟩
      · rwa [show guess - 1 + 52 = guess + 51 by omega]
      · rwa [show guess - 1 + 53 = guess + 52 by omega]
    · exact ⟨guess, by rw [if_neg hless]; rfl, not_lt.mp hless, hhigh⟩
  obtain ⟨e, he, hle, hlt⟩ := hfit
  rw [he]
  refine ⟨le_max_right _ _, hlt.trans_le ?_, ?_⟩
  · exact zpow_le_zpow_right₀ one_le_two (by omega)
  · rcases max_choice e (-1074) with h | h
    · rw [h]
      exact .inl hle
    · exact .inr h

/-- The numbers that are nearer to `m * 2 ^ e` than to its neighbours, and those halfway if `m` is
even. Below a power of two the neighbours lie twice as close. -/
def Reads (m : Nat) (e : Int) (q : Rat) : Prop :=
  let below : Rat := if m = 2 ^ 52 ∧ -1074 < e then m - 1 / 4 else m - 1 / 2
  let above : Rat := m + 1 / 2
  if m % 2 = 0 then below * 2 ^ e ≤ q ∧ q ≤ above * 2 ^ e
  else below * 2 ^ e < q ∧ q < above * 2 ^ e

structure InUse (m : Nat) (e : Int) : Prop where
  lt : m < 2 ^ 53
  least_le : -1074 ≤ e
  full : 2 ^ 52 ≤ m ∨ e = -1074

variable {m m' : Nat} {e e' : Int} {q r x : Rat}

theorem reads_iff_of_ne (h : ¬ (m = 2 ^ 52 ∧ -1074 < e)) : Reads m e q ↔
    if m % 2 = 0 then (m : Rat) - 1 / 2 ≤ q / 2 ^ e ∧ q / 2 ^ e ≤ m + 1 / 2
    else (m : Rat) - 1 / 2 < q / 2 ^ e ∧ q / 2 ^ e < m + 1 / 2 := by
  have he : (0 : Rat) < 2 ^ e := by positivity
  simp only [Reads, if_neg h, le_div_iff₀ he, div_le_iff₀ he, lt_div_iff₀ he, div_lt_iff₀ he]

theorem reads_power_iff (he : -1074 < e) : Reads (2 ^ 52) e q ↔
    ((2 : Rat) ^ 52 - 1 / 4) * 2 ^ e ≤ q ∧ q ≤ (2 ^ 52 + 1 / 2) * 2 ^ e := by
  simp only [Reads, true_and, if_pos he]
  norm_num

theorem Reads.ge (h : Reads m e q) : ((m : Rat) - 1 / 2) * 2 ^ e ≤ q := by
  have he : (0 : Rat) < 2 ^ e := by positivity
  have hle : ((m : Rat) - 1 / 2) * 2 ^ e ≤
      (if m = 2 ^ 52 ∧ -1074 < e then (m : Rat) - 1 / 4 else m - 1 / 2) * 2 ^ e := by
    gcongr
    split <;> linarith
  rw [Reads] at h
  split at h
  · exact hle.trans h.1
  · exact hle.trans h.1.le

theorem Reads.le (h : Reads m e q) : q ≤ ((m : Rat) + 1 / 2) * 2 ^ e := by
  rw [Reads] at h
  split at h
  · exact h.2
  · exact h.2.le

theorem Reads.lt_of_odd (h : Reads m e q) (hm : m % 2 ≠ 0) :
    ((m : Rat) - 1 / 2) * 2 ^ e < q ∧ q < ((m : Rat) + 1 / 2) * 2 ^ e := by
  rw [Reads, if_neg hm, if_neg] at h
  · exact h
  · rintro ⟨rfl, -⟩
    exact hm (by norm_num)

theorem Reads.mantissa_le (h : Reads m e q) (h' : Reads m' e q) : m' ≤ m := by
  have he : (0 : Rat) < 2 ^ e := by positivity
  have hle : (m' : Rat) - 1 / 2 ≤ m + 1 / 2 := le_of_mul_le_mul_right (h'.ge.trans h.le) he
  have hsucc : m' ≤ m + 1 := by
    have hle' : (m' : Rat) ≤ (m + 1 : Nat) := by
      push_cast
      linarith
    exact_mod_cast hle'
  by_contra hlt
  obtain rfl : m' = m + 1 := by omega
  -- one of two neighbours is odd, and reads nothing that is halfway to the other
  rcases Nat.mod_two_eq_zero_or_one m with hm | hm
  · have hodd := (h'.lt_of_odd (by omega)).1
    have hge := h.le
    push_cast at hodd
    linarith
  · have hodd := (h.lt_of_odd (by omega)).2
    have hge := h'.ge
    push_cast at hge
    linarith

theorem Reads.exponent_le (h : Reads m e q) (h' : Reads m' e' q) (hm : m < 2 ^ 53)
    (hu' : InUse m' e') (hleast : -1074 ≤ e) : e' ≤ e := by
  by_contra! hlt
  have hfull : 2 ^ 52 ≤ m' := hu'.full.resolve_right (by omega)
  have he : (0 : Rat) < 2 ^ e := by positivity
  have htwice : (2 : Rat) ^ e * 2 ≤ 2 ^ e' := by
    rw [← zpow_add_one₀ two_ne_zero]
    exact zpow_le_zpow_right₀ one_le_two (by omega)
  have hlow : ((2 : Rat) ^ 52 - 1 / 4) * 2 ^ e' ≤ q := by
    rcases Nat.lt_or_eq_of_le hfull with hmore | rfl
    · have hcast : ((2 ^ 52 + 1 : Nat) : Rat) ≤ m' := by exact_mod_cast hmore
      push_cast at hcast
      refine le_trans (mul_le_mul_of_nonneg_right ?_ (by positivity)) h'.ge
      linarith
    · exact ((reads_power_iff (by omega)).mp h').1
  have hhigh : q < ((2 : Rat) ^ 53 - 1 / 2) * 2 ^ e := by
    by_cases hlast : m = 2 ^ 53 - 1
    · have hodd := (h.lt_of_odd (by rw [hlast]; norm_num)).2
      rw [hlast] at hodd
      norm_num at hodd ⊢
      exact hodd
    · have hcast : (m : Rat) ≤ (2 ^ 53 - 2 : Nat) := by exact_mod_cast (by omega)
      push_cast at hcast
      refine h.le.trans_lt ?_
      gcongr
      linarith
  have hend : ((2 : Rat) ^ 53 - 1 / 2) * 2 ^ e ≤ ((2 : Rat) ^ 52 - 1 / 4) * 2 ^ e' := by
    calc ((2 : Rat) ^ 53 - 1 / 2) * 2 ^ e = ((2 : Rat) ^ 52 - 1 / 4) * (2 ^ e * 2) := by ring
      _ ≤ _ := by gcongr
  exact absurd (hlow.trans_lt hhigh) (not_lt.mpr hend)

theorem Reads.unique (h : Reads m e q) (h' : Reads m' e' q) (hu : InUse m e) (hu' : InUse m' e') :
    m = m' ∧ e = e' := by
  obtain rfl : e = e' :=
    le_antisymm (h'.exponent_le h hu'.lt hu hu'.least_le) (h.exponent_le h' hu.lt hu' hu.least_le)
  exact ⟨le_antisymm (h'.mantissa_le h) (h.mantissa_le h'), rfl⟩

theorem reads_round (hq : 0 ≤ q) (h : ¬ (roundHalfEven (q / 2 ^ e) = 2 ^ 52 ∧ -1074 < e)) :
    Reads (roundHalfEven (q / 2 ^ e)) e q := by
  rw [reads_iff_of_ne h]
  exact (roundHalfEven_eq_iff (by positivity)).mp rfl

theorem abs_roundHalfEven_sub_le (hr : 0 ≤ r) : |(roundHalfEven r : Rat) - r| ≤ 1 / 2 := by
  have hround := (roundHalfEven_eq_iff hr (n := roundHalfEven r)).mp rfl
  rw [abs_le]
  split at hround
  all_goals
    obtain ⟨hlow, hhigh⟩ := hround
    constructor <;> linarith

theorem le_roundHalfEven {n : Nat} (hr : 0 ≤ r) (h : (n : Rat) ≤ r) : n ≤ roundHalfEven r := by
  have hnear := (abs_le.mp (abs_roundHalfEven_sub_le hr)).1
  have hlt : (n : Rat) < (roundHalfEven r + 1 : Nat) := by
    push_cast
    linarith
  exact Nat.lt_succ_iff.mp (by exact_mod_cast hlt)

theorem roundHalfEven_le {n : Nat} (hr : 0 ≤ r) (h : r ≤ n) : roundHalfEven r ≤ n := by
  have hnear := (abs_le.mp (abs_roundHalfEven_sub_le hr)).2
  have hlt : (roundHalfEven r : Rat) < (n + 1 : Nat) := by
    push_cast
    linarith
  exact Nat.lt_succ_iff.mp (by exact_mod_cast hlt)

theorem two_zpow_add (e : Int) (n : Nat) :
    (2 : Rat) ^ (e + n) = ((2 ^ n : Nat) : Rat) * 2 ^ e := by
  rw [zpow_add₀ two_ne_zero, zpow_natCast, Nat.cast_pow, mul_comm]
  rfl

theorem ofMagnitude_eq (hq : 0 < q) : ∃ m e, InUse m e ∧ Reads m e q ∧
    ofMagnitude false q = if greatestExponent < e then .infinite false else .finite false m e := by
  obtain ⟨hleast, hlt, hfull⟩ := exponentFor_spec hq
  rw [ofMagnitude, if_neg hq.ne', pack]
  generalize exponentFor q = e at *
  have he : (0 : Rat) < 2 ^ e := by positivity
  have hscaled : 0 ≤ q / 2 ^ e := by positivity
  have hround := reads_round (e := e) hq.le
  replace hlt : q < ((2 ^ 53 : Nat) : Rat) * 2 ^ e := by rwa [← two_zpow_add]
  replace hfull : ((2 ^ 52 : Nat) : Rat) * 2 ^ e ≤ q ∨ e = -1074 := by rwa [← two_zpow_add]
  have hle : roundHalfEven (q / 2 ^ e) ≤ 2 ^ 53 :=
    roundHalfEven_le hscaled ((div_le_iff₀ he).mpr hlt.le)
  have hfull' : 2 ^ 52 ≤ roundHalfEven (q / 2 ^ e) ∨ e = -1074 :=
    hfull.imp_left fun h => le_roundHalfEven hscaled ((le_div_iff₀ he).mpr h)
  have hnear := (abs_le.mp (abs_roundHalfEven_sub_le hscaled)).1
  generalize roundHalfEven (q / 2 ^ e) = r at *
  by_cases hcarry : r = 2 ^ 53
  · subst hcarry
    refine ⟨2 ^ 52, e + 1, ⟨by norm_num, by omega, .inl le_rfl⟩, ?_, by simp⟩
    rw [reads_power_iff (by omega), zpow_add_one₀ two_ne_zero]
    have hge := (hround (by norm_num)).ge
    norm_num at hge hlt ⊢
    constructor <;> linarith
  · have hmod : r ≠ Nat.pow 2 53 := hcarry
    refine ⟨r, e, ⟨by omega, hleast, hfull'⟩, ?_, by rw [if_neg hmod]⟩
    by_cases hpower : r = 2 ^ 52 ∧ -1074 < e
    · obtain ⟨rfl, hless⟩ := hpower
      have hge := hfull.resolve_right (by omega)
      have hupper : q / 2 ^ e ≤ ((2 ^ 52 : Nat) : Rat) + 1 / 2 := by linarith
      replace hnear := (div_le_iff₀ he).mp hupper
      rw [reads_power_iff hless]
      norm_num at hge hnear ⊢
      constructor <;> linarith
    · exact hround hpower

theorem ofMagnitude_eq_finite_iff (hu : InUse m e) (he : e ≤ greatestExponent) (hq : 0 < q) :
    ofMagnitude false q = .finite false m e ↔ Reads m e q := by
  obtain ⟨m', e', hu', hreads, heq⟩ := ofMagnitude_eq hq
  rw [heq]
  constructor
  · intro h
    split at h
    · contradiction
    · cases h
      exact hreads
  · intro h
    obtain ⟨rfl, rfl⟩ := h.unique hreads hu hu'
    rw [if_neg (not_lt.mpr he)]

theorem two_zpow_lt_ten_zpow : (2 : Rat) ^ (1075 : Int) < 10 ^ (332 : Int) := by
  calc (2 : Rat) ^ (1075 : Int) ≤ 2 ^ (13 * 83 : Int) :=
        zpow_le_zpow_right₀ one_le_two (by norm_num)
    _ = (2 ^ (13 : Int)) ^ (83 : Int) := zpow_mul 2 13 83
    _ < (10 ^ (4 : Int)) ^ (83 : Int) :=
        zpow_lt_zpow_left₀ (by norm_num) (by positivity) (by norm_num)
    _ = 10 ^ (332 : Int) := (zpow_mul 10 4 83).symm

theorem Reads.lt_ten_zpow (h : Reads m e q) (hu : InUse m e) (he : e ≤ greatestExponent) :
    q < 10 ^ (332 : Int) := by
  have hm : (m : Rat) + 1 ≤ ((2 ^ 53 : Nat) : Rat) := by exact_mod_cast hu.lt
  refine lt_of_le_of_lt ?_ two_zpow_lt_ten_zpow
  calc q ≤ ((m : Rat) + 1 / 2) * 2 ^ e := h.le
    _ ≤ ((2 ^ 53 : Nat) : Rat) * 2 ^ greatestExponent := by
        gcongr
        · refine le_trans ?_ hm
          linarith
        · exact one_le_two
    _ = 2 ^ (1024 : Int) := (two_zpow_add _ 53).symm
    _ ≤ 2 ^ (1075 : Int) := zpow_le_zpow_right₀ one_le_two (by norm_num)

theorem Reads.ten_zpow_lt (h : Reads m e q) (hu : InUse m e) (hm : 0 < m) :
    10 ^ (-332 : Int) < q := by
  have hone : (1 : Rat) ≤ m := by exact_mod_cast hm
  have hpower : (10 : Rat) ^ (-332 : Int) < 2 ^ (-1075 : Int) := by
    rw [zpow_neg, zpow_neg]
    exact inv_strictAnti₀ (by positivity) two_zpow_lt_ten_zpow
  refine lt_of_lt_of_le hpower ?_
  calc (2 : Rat) ^ (-1075 : Int) = (1 - 1 / 2) * 2 ^ (-1074 : Int) := by
        rw [show (-1075 : Int) = -1074 - 1 by norm_num, zpow_sub_one₀ two_ne_zero]
        ring
    _ ≤ ((m : Rat) - 1 / 2) * 2 ^ e := by
        gcongr
        · linarith
        · exact one_le_two
        · exact hu.least_le
    _ ≤ q := h.ge

variable {n : Nat}

theorem toDigits_bounds (hn : n ≠ 0) : 10 ^ ((Nat.toDigits 10 n).length - 1) ≤ n ∧
    n < 10 ^ (Nat.toDigits 10 n).length := by
  have hpos : 0 < (Nat.toDigits 10 n).length := Nat.length_toDigits_pos
  refine ⟨?_, (Nat.length_toDigits_le_iff (by decide) hpos).mp le_rfl⟩
  rcases Nat.lt_or_eq_of_le (Nat.succ_le_of_lt hpos) with h | h
  · refine Nat.not_lt.mp (mt (Nat.length_toDigits_le_iff (by decide) ?_).mpr ?_) <;> omega
  · rw [← h]
    exact Nat.one_le_iff_ne_zero.mpr hn

theorem decimal_bounds (hn : n ≠ 0) (place : Int) :
    (10 : Rat) ^ ((Nat.toDigits 10 n).length + place - 1) ≤ n * 10 ^ place ∧
      (n : Rat) * 10 ^ place < 10 ^ ((Nat.toDigits 10 n).length + place) := by
  have hpos : 0 < (Nat.toDigits 10 n).length := Nat.length_toDigits_pos
  obtain ⟨hle, hlt⟩ := toDigits_bounds hn
  generalize (Nat.toDigits 10 n).length = k at *
  obtain ⟨k, rfl⟩ := Nat.exists_eq_add_of_le' hpos
  rw [show ((k + 1 : Nat) : Int) + place - 1 = k + place by omega, zpow_add₀ (by norm_num),
    zpow_add₀ (by norm_num), zpow_natCast, zpow_natCast]
  constructor
  · gcongr
    exact_mod_cast hle
  · gcongr
    exact_mod_cast hlt

theorem ofDecimal_eq_finite_iff (hu : InUse m e) (he : e ≤ greatestExponent) (hm : 0 < m)
    {place : Int} : ofDecimal false n place = .finite false m e ↔ Reads m e (n * 10 ^ place) := by
  have hzero : zero false ≠ .finite false m e := by
    intro h
    cases h
    exact absurd hm (Nat.lt_irrefl 0)
  have hten : (1 : Rat) ≤ 10 := by norm_num
  rw [ofDecimal]
  simp only [Bool.or_eq_true, decide_eq_true_eq]
  by_cases hn : n = 0
  · subst hn
    rw [if_pos (.inl rfl)]
    refine iff_of_false hzero fun h => ?_
    have hlt := h.ten_zpow_lt hu hm
    have hpos : (0 : Rat) < 10 ^ (-332 : Int) := by positivity
    rw [Nat.cast_zero, zero_mul] at hlt
    linarith
  have hbounds := decimal_bounds hn place
  split
  next hsmall =>
    refine iff_of_false hzero fun h => ?_
    have hle : (10 : Rat) ^ ((Nat.toDigits 10 n).length + place) ≤ 10 ^ (-332 : Int) :=
      zpow_le_zpow_right₀ hten (by omega)
    have hlt := h.ten_zpow_lt hu hm
    linarith
  split
  next hlarge =>
    refine iff_of_false nofun fun h => ?_
    have hle : (10 : Rat) ^ (332 : Int) ≤ 10 ^ ((Nat.toDigits 10 n).length + place - 1) :=
      zpow_le_zpow_right₀ hten (by omega)
    have hlt := h.lt_ten_zpow hu he
    linarith
  next =>
    have hpos : (0 : Rat) < n := by exact_mod_cast Nat.pos_of_ne_zero hn
    exact ofMagnitude_eq_finite_iff hu he (by positivity)

end Binary64

end Conform
