import Conform.Diagnostic.Merge
import Mathlib.Data.List.Lex
import Mathlib.Data.String.Basic

/-!
The order of paths is total: of two different paths exactly one outranks the other. The comparison
of diagnostics by their paths decides this order, and puts a path before those that it extends.
-/

namespace Conform

/-- The first path is more specific: it is longer, or as long and lexicographically smaller. -/
def Outranks (p q : List String) : Prop :=
  q.length < p.length ∨ p.length = q.length ∧ List.Lex (· < ·) p q

theorem compareSegments_swap (p q : List String) :
    (compareSegments p q).swap = compareSegments q p := by
  induction p generalizing q with
  | nil => cases q <;> rfl
  | cons s p ih =>
    cases q with
    | nil => rfl
    | cons t q =>
      rcases lt_trichotomy s t with h | rfl | h
      · simp [compareSegments, h, h.ne, h.ne', h.not_gt]
      · simp [compareSegments, ih]
      · simp [compareSegments, h, h.ne, h.ne', h.not_gt]

theorem compareSegments_lt_iff {p q : List String} (h : p.length = q.length) :
    compareSegments p q = .lt ↔ List.Lex (· < ·) p q := by
  induction p generalizing q with
  | nil => cases q <;> simp_all [compareSegments]
  | cons s p ih =>
    cases q with
    | nil => simp at h
    | cons t q =>
      rw [List.cons_lex_cons_iff]
      rcases lt_trichotomy s t with hs | rfl | hs
      · simp [compareSegments, hs, hs.ne]
      · simpa [compareSegments] using ih (by simpa using h)
      · simp [compareSegments, hs.ne', hs.not_gt]

theorem comparePaths_swap (p q : List String) : (comparePaths p q).swap = comparePaths q p := by
  unfold comparePaths
  rcases lt_trichotomy p.length q.length with h | h | h
  · simp [h, h.ne, h.ne', h.not_gt]
  · simp [h, compareSegments_swap]
  · simp [h, h.ne, h.ne', h.not_gt]

theorem comparePaths_lt_iff {p q : List String} : comparePaths p q = .lt ↔ Outranks p q := by
  unfold comparePaths Outranks
  split
  next h => simp [h, compareSegments_lt_iff h]
  next h => split <;> simp_all

theorem comparePaths_gt_iff {p q : List String} : comparePaths p q = .gt ↔ Outranks q p := by
  rw [← comparePaths_lt_iff, ← comparePaths_swap p q]
  cases comparePaths p q <;> simp

namespace Outranks

theorem irrefl (p : List String) : ¬ Outranks p p := by
  rintro (h | ⟨-, h⟩)
  · exact lt_irrefl _ h
  · exact List.lex_irrefl lt_irrefl p h

theorem trans {p q r : List String} (hp : Outranks p q) (hq : Outranks q r) : Outranks p r := by
  rcases hp with hp | ⟨hp, hpl⟩ <;> rcases hq with hq | ⟨hq, hql⟩
  · exact .inl (hq.trans hp)
  · exact .inl (hq ▸ hp)
  · exact .inl (hp ▸ hq)
  · exact .inr ⟨hp.trans hq, List.lex_trans lt_trans hpl hql⟩

theorem of_isPrefix {p q : List String} (h : q <+: p) (hne : p ≠ q) : Outranks p q :=
  .inl (lt_of_le_of_ne h.length_le fun hl => hne (h.eq_of_length hl).symm)

theorem asymm {p q : List String} (h : Outranks p q) : ¬ Outranks q p :=
  fun h' => irrefl p (h.trans h')

theorem ne_nil {p q : List String} (h : Outranks p q) : p ≠ [] := by
  rintro rfl
  rcases h with h | ⟨hl, h⟩
  · simp at h
  · rw [List.eq_nil_of_length_eq_zero hl.symm] at h
    exact List.not_lex_nil h

theorem trichotomy (p q : List String) : Outranks p q ∨ p = q ∨ Outranks q p := by
  rcases lt_trichotomy p.length q.length with h | h | h
  · exact .inr (.inr (.inl h))
  · rcases trichotomous_of (List.Lex (· < ·)) p q with hl | rfl | hl
    · exact .inl (.inr ⟨h, hl⟩)
    · exact .inr (.inl rfl)
    · exact .inr (.inr (.inr ⟨h.symm, hl⟩))
  · exact .inl (.inl h)

end Outranks

theorem comparePaths_self (p : List String) : comparePaths p p = .eq := by
  have h := Outranks.irrefl p
  cases hc : comparePaths p p with
  | lt => exact absurd (comparePaths_lt_iff.mp hc) h
  | eq => rfl
  | gt => exact absurd (comparePaths_gt_iff.mp hc) h

theorem comparePaths_eq_iff {p q : List String} : comparePaths p q = .eq ↔ p = q := by
  constructor
  · intro h
    rcases Outranks.trichotomy p q with hpq | rfl | hqp
    · rw [comparePaths_lt_iff.mpr hpq] at h; contradiction
    · rfl
    · rw [comparePaths_gt_iff.mpr hqp] at h; contradiction
  · rintro rfl
    exact comparePaths_self p

theorem comparePaths_isLE_iff {p q : List String} :
    (comparePaths p q).isLE ↔ p = q ∨ Outranks p q := by
  rw [← comparePaths_eq_iff, ← comparePaths_lt_iff]
  cases comparePaths p q <;> simp

instance : Std.OrientedCmp comparePaths where
  eq_swap := (comparePaths_swap _ _).symm

instance : Std.TransCmp comparePaths where
  isLE_trans hpq hqr := by
    rw [comparePaths_isLE_iff] at hpq hqr ⊢
    rcases hpq with rfl | hpq
    · exact hqr
    · rcases hqr with rfl | hqr
      · exact .inr hpq
      · exact .inr (hpq.trans hqr)

instance : Std.LawfulEqCmp comparePaths where
  compare_self := comparePaths_self _
  eq_of_compare := comparePaths_eq_iff.mp

theorem comparePaths_total_order (a b c : Diagnostic) :
    comparePaths b.path a.path = (comparePaths a.path b.path).swap ∧
    (comparePaths a.path b.path = .eq ↔ a.path = b.path) ∧
    ((comparePaths a.path b.path).isLE → (comparePaths b.path c.path).isLE →
      (comparePaths a.path c.path).isLE) ∧
    (b.path <+: a.path → a.path ≠ b.path → comparePaths a.path b.path = .lt) :=
  ⟨Std.OrientedCmp.eq_swap, Std.LawfulEqCmp.compare_eq_iff_eq, Std.TransCmp.isLE_trans,
    fun h hne => comparePaths_lt_iff.mpr (.of_isPrefix h hne)⟩

theorem comparePaths_total_order_items :
    let id : Diagnostic := ⟨["items", "10", "id"], .null, []⟩
    let ten : Diagnostic := ⟨["items", "10"], .null, []⟩
    let nine : Diagnostic := ⟨["items", "9"], .null, []⟩
    ten.path <+: id.path ∧ id.path ≠ ten.path ∧ comparePaths id.path ten.path = .lt ∧
      comparePaths ten.path nine.path = .lt ∧ comparePaths nine.path ten.path = .gt ∧
      (comparePaths id.path nine.path).isLE := by
  intro id ten nine
  have hten : ten.path <+: id.path := by decide
  have hne : id.path ≠ ten.path := by decide
  have hnine : comparePaths ten.path nine.path = .lt := by decide
  obtain ⟨hswap, -⟩ := comparePaths_total_order ten nine nine
  obtain ⟨-, -, htrans, hextends⟩ := comparePaths_total_order id ten nine
  have hid := hextends hten hne
  refine ⟨hten, hne, hid, hnine, ?_, htrans ?_ ?_⟩
  · rw [hswap, hnine]; rfl
  · rw [hid]; rfl
  · rw [hnine]; rfl

end Conform
