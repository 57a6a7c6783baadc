import Conform.Proofs.NearestDecimal
import Mathlib.Data.Nat.Factorization.Basic

namespace Conform.Binary64

/-- A decimal that is read as the number, has as few digits as such a decimal can have, and is the
nearest of those. -/
structure Shortest (m : Nat) (e : Int) (n : Nat) (p : Int) : Prop where
  reads : Reads m e (n * 10 ^ p)
  fewest : ∀ (k : Nat) (r : Int), Reads m e (k * 10 ^ r) →
    (Nat.toDigits 10 n).length ≤ (Nat.toDigits 10 k).length
  nearest : ∀ (k : Nat) (r : Int), Reads m e (k * 10 ^ r) →
    (Nat.toDigits 10 k).length = (Nat.toDigits 10 n).length →
    |(n : Rat) * 10 ^ p - m * 2 ^ e| ≤ |(k : Rat) * 10 ^ r - m * 2 ^ e|
  even : ∀ (k : Nat) (r : Int), Reads m e (k * 10 ^ r) →
    (Nat.toDigits 10 k).length = (Nat.toDigits 10 n).length →
    |(n : Rat) * 10 ^ p - m * 2 ^ e| = |(k : Rat) * 10 ^ r - m * 2 ^ e| →
    (k : Rat) * 10 ^ r = n * 10 ^ p ∨ n % 2 = 0

variable {m n k : Nat} {e p r : Int} {a b c q : Rat}

theorem Reads.ne_zero (hm : 0 < m) (h : Reads m e (k * 10 ^ r)) : k ≠ 0 := by
  rintro rfl
  have hone : (1 : Rat) ≤ m := by exact_mod_cast hm
  have hpos : (0 : Rat) < ((m : Rat) - 1 / 2) * 2 ^ e := mul_pos (by linarith) (by positivity)
  have hge := h.ge
  rw [Nat.cast_zero, zero_mul] at hge
  linarith

theorem exists_multiple (k : Nat) (hpr : p ≤ r) : ∃ j : Nat, (k : Rat) * 10 ^ r = j * 10 ^ p := by
  refine ⟨k * 10 ^ (r - p).toNat, ?_⟩
  rw [Nat.cast_mul, Nat.cast_pow, mul_assoc, Nat.cast_ofNat, ← zpow_natCast,
    ← zpow_add₀ (by norm_num)]
  congr 2
  omega

theorem ten_zpow_eq (r : Int) : (10 : Rat) ^ r = (1 : Nat) * 10 ^ r := by rw [Nat.cast_one, one_mul]

theorem exists_multiple_ten_zpow (hpr : p ≤ r) : ∃ j : Nat, (10 : Rat) ^ r = j * 10 ^ p := by
  obtain ⟨j, hj⟩ := exists_multiple 1 hpr
  exact ⟨j, (ten_zpow_eq r).trans hj⟩

variable {lead : Int}

theorem lt_ten_zpow_of_digits (hk : k ≠ 0) (h : (Nat.toDigits 10 k).length + r ≤ lead) :
    (k : Rat) * 10 ^ r < 10 ^ lead :=
  (decimal_bounds hk r).2.trans_le (zpow_le_zpow_right₀ (by norm_num) h)

theorem ne_nine_and_half (hu : InUse m e) (h : Reads m e ((9 : Nat) * 10 ^ lead)) :
    (m : Rat) * 2 ^ e ≠ 19 / 2 * 10 ^ lead := by
  intro hx
  have hpos : (0 : Rat) < 2 ^ e := by positivity
  have hge := h.ge
  push_cast at hge
  have hten : (10 : Rat) ^ lead ≤ 2 ^ e := by linarith
  have hm : m < 10 := by
    have hcast : (m : Rat) * 2 ^ e < 10 * 2 ^ e := by linarith
    exact_mod_cast lt_of_mul_lt_mul_right hcast hpos.le
  have he : e = -1074 := hu.full.resolve_left (by omega)
  have hlead : lead < 0 := by
    by_contra! hge
    have hone : (1 : Rat) ≤ 10 ^ lead := one_le_zpow₀ (by norm_num) hge
    have hless : (2 : Rat) ^ e < 1 := zpow_lt_one_of_neg₀ (by norm_num) (by omega)
    linarith
  obtain ⟨t, rfl⟩ : ∃ t : Nat, lead = -(t + 1 : Nat) := ⟨(-lead - 1).toNat, by omega⟩
  obtain ⟨u, hu⟩ : ∃ u : Nat, e = -u := ⟨1074, he⟩
  have hone : ((2 ^ u : Nat) : Rat) * 2 ^ e = 1 := by
    rw [← two_zpow_add, hu, neg_add_cancel, zpow_zero]
  rw [zpow_neg, zpow_natCast] at hx
  have hnat : 2 * m * 10 ^ (t + 1) = 19 * 2 ^ u := by
    have hcast : (2 : Rat) * m * 10 ^ (t + 1) = 19 * (2 ^ u : Nat) := by
      calc (2 : Rat) * m * 10 ^ (t + 1)
          = 2 * m * 10 ^ (t + 1) * ((2 ^ u : Nat) * 2 ^ e) := by rw [hone, mul_one]
        _ = 2 * (m * 2 ^ e) * 10 ^ (t + 1) * (2 ^ u : Nat) := by ring
        _ = 19 * (2 ^ u : Nat) := by
            rw [hx]
            field_simp
    exact_mod_cast hcast
  have hfive : 5 ∣ 19 * 2 ^ u := by
    rw [← hnat, pow_succ]
    exact Dvd.intro_left (2 * m * 10 ^ t * 2) (by ring)
  have hcoprime : Nat.Coprime 5 (2 ^ u) := .pow_right u (by decide)
  exact absurd (hcoprime.dvd_of_dvd_mul_right hfive) (by decide)

section

variable (hm : 0 < m) (hle : (10 : Rat) ^ lead ≤ m * 2 ^ e)
  (hlt : (m : Rat) * 2 ^ e < 10 ^ (lead + 1))
  (hnear : NearestAt m e n p) (hp : p ≤ lead)

include hle in
theorem reads_lead (h : Reads m e a) (ha : a ≤ 10 ^ lead) : Reads m e (10 ^ lead) :=
  h.convex (reads_self m e) ha hle

include hle hnear hp in
theorem NearestAt.abs_sub_lt (h : Reads m e a) (ha : a < 10 ^ lead) :
    |(n : Rat) * 10 ^ p - m * 2 ^ e| < |a - m * 2 ^ e| := by
  obtain ⟨j, hj⟩ := exists_multiple_ten_zpow hp
  have hreads := reads_lead hle h ha.le
  rw [hj] at ha hreads hle
  exact (hnear.nearest j hreads).trans_lt (abs_sub_lt_of_below ha hle)

include hle hlt hnear hp in
theorem NearestAt.bounds :
    (10 : Rat) ^ lead ≤ n * 10 ^ p ∧ (n : Rat) * 10 ^ p ≤ 10 ^ (lead + 1) := by
  constructor
  · by_contra! h
    exact lt_irrefl _ (hnear.abs_sub_lt hle hp hnear.reads h)
  · by_contra! h
    obtain ⟨j, hj⟩ := exists_multiple_ten_zpow (show p ≤ lead + 1 by omega)
    have hreads := (reads_self m e).convex hnear.reads hlt.le h.le
    rw [hj] at h hreads hlt
    have hge := hnear.nearest j hreads
    have hfar := abs_sub_lt_of_above h hlt.le
    linarith

include hlt in
theorem NearestAt.ne_tie_of_ten (hu : InUse m e) (hnear : NearestAt m e 10 lead)
    (h : Reads m e (k * 10 ^ lead)) (hk : k ≠ 10) :
    |((10 : Nat) : Rat) * 10 ^ lead - m * 2 ^ e| ≠ |(k : Rat) * 10 ^ lead - m * 2 ^ e| := by
  intro htie
  have hpos : (0 : Rat) < 10 ^ lead := by positivity
  rw [zpow_add_one₀ (by norm_num)] at hlt
  have hk' : k < 10 := by
    by_contra! hge
    have hcast : ((10 : Nat) : Rat) * 10 ^ lead < k * 10 ^ lead := by
      gcongr
      omega
    refine htie.not_lt (abs_sub_lt_of_above hcast ?_)
    push_cast
    linarith
  have hnine : Reads m e ((9 : Nat) * 10 ^ lead) := by
    rcases le_total (((9 : Nat) : Rat) * 10 ^ lead) (m * 2 ^ e) with h9 | h9
    · refine h.convex (reads_self m e) ?_ h9
      gcongr
      omega
    · refine (reads_self m e).convex hnear.reads h9 ?_
      gcongr
      norm_num
  have hnearest := hnear.nearest 9 hnine
  have hne := ne_nine_and_half hu hnine
  have hcast : (k : Rat) * 10 ^ lead ≤ (9 : Nat) * 10 ^ lead := by
    gcongr
    omega
  push_cast at hnearest htie hcast
  generalize (m : Rat) * 2 ^ e = x at *
  rw [abs_of_nonneg (by linarith)] at hnearest htie
  -- the number is not below nine, hence halfway to ten, where a tie can only be with nine
  rcases le_total (9 * (10 : Rat) ^ lead) x with h9 | h9
  · rw [abs_of_nonpos (by linarith)] at hnearest htie
    apply hne
    linarith
  · rw [abs_of_nonneg (by linarith)] at hnearest
    linarith

variable {d z : Nat}

theorem scaled_ten_pow (d z : Nat) (p : Int) :
    ((d * 10 ^ z : Nat) : Rat) * 10 ^ p = d * 10 ^ (p + z) := by
  rw [zpow_add₀ (by norm_num), zpow_natCast, Nat.cast_mul, Nat.cast_pow]
  push_cast
  ring

include hle hlt hp in
theorem NearestAt.digits_le (hnear : NearestAt m e (d * 10 ^ z) p) (hd : ¬ 10 ∣ d) :
    (Nat.toDigits 10 d).length + p ≤ lead + 1 := by
  have hne : d ≠ 0 := by
    rintro rfl
    exact hd (Nat.dvd_zero 10)
  obtain ⟨-, hhigh⟩ := hnear.bounds hle hlt hp
  have hlow := (decimal_bounds hne (p + z)).1
  rw [scaled_ten_pow] at hhigh
  rcases hhigh.lt_or_eq with hless | heq
  · have hexp := (zpow_lt_zpow_iff_right₀ (by norm_num : (1 : Rat) < 10)).mp (hlow.trans_lt hless)
    omega
  · have hexp := (zpow_le_zpow_iff_right₀ (by norm_num : (1 : Rat) < 10)).mp (hlow.trans hhigh)
    rcases Nat.eq_zero_or_pos z with rfl | hz
    · -- the decimal is a power of ten above its last place, so that it ends in a zero
      obtain ⟨j, hj⟩ := exists_multiple_ten_zpow (show p + 1 ≤ lead + 1 by omega)
      rw [hj, Nat.cast_zero, add_zero, zpow_add_one₀ (by norm_num), mul_comm _ (10 : Rat),
        ← mul_assoc, mul_left_inj' (by positivity)] at heq
      exact absurd (Dvd.intro_left j (by exact_mod_cast heq.symm)) hd
    · omega

variable (hcoarse : ∀ r, p < r → r ≤ lead → ∀ k : Nat, ¬ Reads m e (k * 10 ^ r))

include hcoarse in
theorem NearestAt.not_reads_coarser (hr : p < r) (hpl : p < lead) : ¬ Reads m e (k * 10 ^ r) := by
  rcases Int.le_total r lead with h | h
  · exact hcoarse r hr h k
  · obtain ⟨j, hj⟩ := exists_multiple k h
    rw [hj]
    exact hcoarse lead hpl le_rfl j

include hm hle hlt hp hcoarse in
theorem NearestAt.shortest (hu : InUse m e) (hnear : NearestAt m e (d * 10 ^ z) p) (hd : ¬ 10 ∣ d) :
    Shortest m e d (p + z) := by
  have hdigits := hnear.digits_le hle hlt hp hd
  have hgrid {k : Nat} {r : Int} (h : Reads m e (k * 10 ^ r))
      (hk : (Nat.toDigits 10 k).length = (Nat.toDigits 10 d).length) :
      (∃ j : Nat, (k : Rat) * 10 ^ r = j * 10 ^ p) ∨ (k : Rat) * 10 ^ r < 10 ^ lead := by
    rcases Int.lt_or_le r p with hr | hr
    · exact .inr (lt_ten_zpow_of_digits (h.ne_zero hm) (by omega))
    · exact .inl (exists_multiple k hr)
  have hfar {a : Rat} (h : Reads m e a) (ha : a < 10 ^ lead) := hnear.abs_sub_lt hle hp h ha
  rw [scaled_ten_pow] at hfar
  refine ⟨?_, fun k r hr => ?_, fun k r hr hk => ?_, fun k r hr hk htie => ?_⟩
  · rw [← scaled_ten_pow]
    exact hnear.reads
  · by_contra! hfewer
    have hpos : 0 < (Nat.toDigits 10 k).length := Nat.length_toDigits_pos
    rcases Int.lt_or_le lead ((Nat.toDigits 10 k).length + r) with h | h
    · exact NearestAt.not_reads_coarser hcoarse (show p < r by omega) (by omega) hr
    · have hbelow := lt_ten_zpow_of_digits (hr.ne_zero hm) h
      have hlead := reads_lead hle hr hbelow.le
      rw [ten_zpow_eq] at hlead
      exact hcoarse lead (by omega) le_rfl 1 hlead
  · rcases hgrid hr hk with ⟨j, hj⟩ | hbelow
    · rw [← scaled_ten_pow, hj]
      exact hnear.nearest j (hj ▸ hr)
    · exact (hfar hr hbelow).le
  · rcases hgrid hr hk with ⟨j, hj⟩ | hbelow
    · rw [← scaled_ten_pow, hj] at htie ⊢
      rcases hnear.even j (hj ▸ hr) htie with rfl | heven
      · exact .inl rfl
      · rcases Nat.eq_zero_or_pos z with rfl | hz
        · right
          rwa [pow_zero, Nat.mul_one] at heven
        · refine .inl ?_
          have hlead : p = lead := by
            by_contra hne
            have hreads := hnear.reads
            rw [scaled_ten_pow] at hreads
            exact NearestAt.not_reads_coarser hcoarse (by omega) (by omega) hreads
          subst hlead
          have hten : d * 10 ^ z = 10 := by
            have hle10 : d * 10 ^ z ≤ 10 := by
              have hbound := (hnear.bounds hle hlt hp).2
              rw [zpow_add_one₀ (by norm_num), mul_comm _ (10 : Rat)] at hbound
              exact_mod_cast le_of_mul_le_mul_right hbound (by positivity)
            have hdvd : 10 ∣ d * 10 ^ z := Dvd.dvd.mul_left (dvd_pow_self 10 hz.ne') d
            have hne := hnear.reads.ne_zero hm
            omega
          by_cases hj10 : j = 10
          · rw [hten, hj10]
          · rw [hten] at hnear htie
            exact absurd htie (NearestAt.ne_tie_of_ten hlt hu hnear (hj ▸ hr) hj10)
    · exact absurd htie (hfar hr hbelow).ne

end

variable {n' : Nat} {p' : Int}

theorem Shortest.ne_zero (hm : 0 < m) (h : Shortest m e n p) : n ≠ 0 := h.reads.ne_zero hm

theorem Shortest.length_eq (h : Shortest m e n p) (hk : Reads m e (k * 10 ^ r))
    (hlt : k < 10 ^ (Nat.toDigits 10 n).length) :
    (Nat.toDigits 10 k).length = (Nat.toDigits 10 n).length :=
  le_antisymm ((Nat.length_toDigits_le_iff (by decide) Nat.length_toDigits_pos).mpr hlt)
    (h.fewest k r hk)

theorem Shortest.le (hm : 0 < m) (h : Shortest m e n p) (h' : Shortest m e n' p') :
    (n' : Rat) * 10 ^ p' ≤ n * 10 ^ p := by
  by_contra! hlt
  have hlength := le_antisymm (h.fewest n' p' h'.reads) (h'.fewest n p h.reads)
  have htie := le_antisymm (h.nearest n' p' h'.reads hlength.symm) (h'.nearest n p h.reads hlength)
  have heven : n % 2 = 0 := (h.even n' p' h'.reads hlength.symm htie).resolve_left hlt.ne'
  have heven' : n' % 2 = 0 := (h'.even n p h.reads hlength htie.symm).resolve_left hlt.ne
  have hbounds := decimal_bounds (h.ne_zero hm) p
  have hbounds' := decimal_bounds (h'.ne_zero hm) p'
  have hlast := (toDigits_bounds (h'.ne_zero hm)).2
  have hten : (1 : Rat) ≤ 10 := by norm_num
  have hpos : 0 < (Nat.toDigits 10 n).length := Nat.length_toDigits_pos
  have hmid : (n : Rat) * 10 ^ p + n' * 10 ^ p' = 2 * (m * 2 ^ e) := by
    rcases abs_eq_abs.mp htie with heq | heq
    · linarith
    · linarith
  -- what lies between the two and is read has as many digits and is nearer
  have hbetween {k : Nat} {r : Int} (hk : k < 10 ^ (Nat.toDigits 10 n).length)
      (hlow : (n : Rat) * 10 ^ p < k * 10 ^ r) (hhigh : (k : Rat) * 10 ^ r < n' * 10 ^ p') :
      False := by
    have hreads := h.reads.convex h'.reads hlow.le hhigh.le
    have hnearest := h.nearest k r hreads (h.length_eq hreads hk)
    rw [abs_of_nonpos (by linarith)] at hnearest
    have hnear : |(k : Rat) * 10 ^ r - m * 2 ^ e| < -((n : Rat) * 10 ^ p - m * 2 ^ e) :=
      abs_lt.mpr ⟨by linarith, by linarith⟩
    linarith
  rcases lt_trichotomy p p' with hp | rfl | hp
  · -- a power of ten stands between decimals of as many digits with different last places
    have hpower : (10 : Rat) ^ ((Nat.toDigits 10 n).length + p' - 1) =
        (10 ^ ((Nat.toDigits 10 n).length - 1) : Nat) * 10 ^ p' := by
      rw [Nat.cast_pow, Nat.cast_ofNat, ← zpow_natCast, ← zpow_add₀ (by norm_num)]
      congr 1
      omega
    have habove : (n : Rat) * 10 ^ p < (10 ^ ((Nat.toDigits 10 n).length - 1) : Nat) * 10 ^ p' := by
      rw [← hpower]
      exact hbounds.2.trans_le (zpow_le_zpow_right₀ hten (by omega))
    have hfewer : 10 ^ ((Nat.toDigits 10 n).length - 1) < 10 ^ (Nat.toDigits 10 n).length :=
      Nat.pow_lt_pow_right (by decide) (by omega)
    rw [← hlength, hpower] at hbounds'
    rcases hbounds'.1.lt_or_eq with hless | heq
    · exact hbetween hfewer habove hless
    · have hn' : n' = 10 ^ ((Nat.toDigits 10 n).length - 1) := by
        exact_mod_cast (mul_left_inj' (by positivity)).mp heq.symm
      have hreads := h'.reads
      rw [hn', ← Nat.one_mul (10 ^ _), scaled_ten_pow] at hreads
      have hone : (Nat.toDigits 10 n').length ≤ 1 := h'.fewest 1 _ hreads
      rw [hn', show (Nat.toDigits 10 n).length - 1 = 0 by omega] at heven'
      contradiction
  · -- two even numbers have another one between them
    have hg : (0 : Rat) < 10 ^ p := by positivity
    have hnn : n < n' := by exact_mod_cast lt_of_mul_lt_mul_right hlt hg.le
    refine hbetween (k := n + 1) (r := p) ?_ ?_ ?_
    · rw [← hlength] at hlast
      omega
    · gcongr
      omega
    · gcongr
      omega
  · have hle : (10 : Rat) ^ ((Nat.toDigits 10 n').length + p') ≤
        10 ^ ((Nat.toDigits 10 n).length + p - 1) := zpow_le_zpow_right₀ hten (by omega)
    linarith

theorem Shortest.unique (hm : 0 < m) (h : Shortest m e n p) (h' : Shortest m e n' p') :
    n = n' ∧ p = p' := by
  have hvalue : (n : Rat) * 10 ^ p = n' * 10 ^ p' :=
    le_antisymm (h'.le hm h) (h.le hm h')
  have hlength := le_antisymm (h.fewest n' p' h'.reads) (h'.fewest n p h.reads)
  have hbounds := decimal_bounds (h.ne_zero hm) p
  have hbounds' := decimal_bounds (h'.ne_zero hm) p'
  rw [← hlength, ← hvalue] at hbounds'
  have hten : (1 : Rat) < 10 := by norm_num
  have hlow := (zpow_lt_zpow_iff_right₀ hten).mp (hbounds.1.trans_lt hbounds'.2)
  have hhigh := (zpow_lt_zpow_iff_right₀ hten).mp (hbounds'.1.trans_lt hbounds.2)
  obtain rfl : p = p' := by omega
  have hpos : (0 : Rat) < 10 ^ p := by positivity
  exact ⟨by exact_mod_cast (mul_left_inj' hpos.ne').mp hvalue, rfl⟩

theorem exists_shortest (hu : InUse m e) (he : e ≤ greatestExponent) (hm : 0 < m) :
    ∃ (d z : Nat) (p : Int), ¬ 10 ∣ d ∧ shortest m e = (d * 10 ^ z, p) ∧ Shortest m e d (p + z) := by
  obtain ⟨n, p, hn, hnear, hp, hcoarse⟩ := shortest_eq hu he hm
  obtain ⟨hle, hlt⟩ := leadingPlace_bounds hu hm
  obtain ⟨z, d, hd, rfl⟩ := Nat.exists_eq_pow_mul_and_not_dvd (hnear.reads.ne_zero hm) 10 (by decide)
  rw [Nat.mul_comm] at hn hnear
  exact ⟨d, z, p, hd, hn, hnear.shortest hm hle hlt hp hcoarse hu hd⟩

end Conform.Binary64
