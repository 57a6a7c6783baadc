import Conform.Proofs.PathOrder

namespace Conform.Diagnostic

theorem combine_of_outranks {a b : Diagnostic} (h : Outranks a.path b.path) : a.combine b = a := by
  simp only [combine, comparePaths_lt_iff.mpr h]

theorem combine_of_outranked {a b : Diagnostic} (h : Outranks b.path a.path) : a.combine b = b := by
  simp only [combine, comparePaths_gt_iff.mpr h]

theorem combine_of_path_eq {a b : Diagnostic} (h : a.path = b.path) :
    a.combine b = ⟨a.path, a.received, a.expectations ++ b.expectations⟩ := by
  simp only [combine, comparePaths_eq_iff.mpr h]

theorem combine_empty (d : Diagnostic) (v : Value) : d.combine (empty v) = d := by
  obtain ⟨path, received, expectations⟩ := d
  cases path with
  | nil => simp only [combine, empty, comparePaths_self, List.append_nil]
  | cons s path => exact combine_of_outranks (.inl (by simp [empty]))

theorem combine_assoc (a b c : Diagnostic) :
    (a.combine b).combine c = a.combine (b.combine c) := by
  obtain ⟨p, x, es⟩ := a
  obtain ⟨q, y, fs⟩ := b
  obtain ⟨r, z, gs⟩ := c
  rcases Outranks.trichotomy p q with hpq | rfl | hqp
  · have hab := comparePaths_lt_iff.mpr hpq
    rcases Outranks.trichotomy q r with hqr | rfl | hrq
    · simp only [combine, hab, comparePaths_lt_iff.mpr hqr,
        comparePaths_lt_iff.mpr (hpq.trans hqr)]
    · simp only [combine, hab, comparePaths_self]
    · simp only [combine, hab, comparePaths_gt_iff.mpr hrq]
  · rcases Outranks.trichotomy p r with hpr | rfl | hrp
    · simp only [combine, comparePaths_self, comparePaths_lt_iff.mpr hpr]
    · simp only [combine, comparePaths_self, List.append_assoc]
    · simp only [combine, comparePaths_self, comparePaths_gt_iff.mpr hrp]
  · have hab := comparePaths_gt_iff.mpr hqp
    rcases Outranks.trichotomy q r with hqr | rfl | hrq
    · simp only [combine, hab, comparePaths_lt_iff.mpr hqr]
    · simp only [combine, hab, comparePaths_self]
    · simp only [combine, hab, comparePaths_gt_iff.mpr hrq,
        comparePaths_gt_iff.mpr (hrq.trans hqp)]

def mergeAll (d : Diagnostic) (ds : List Diagnostic) : Diagnostic := ds.foldl combine d

/-- What is left of the diagnostics `ds` on the value `v`: of those that no other one outranks, all
expectations and the first received value, but `v` itself at the root. -/
structure IsMerge (v : Value) (ds : List Diagnostic) (d : Diagnostic) : Prop where
  top : ∀ e ∈ ds, ¬ Outranks e.path d.path
  expectations : d.expectations = (ds.filter (·.path = d.path)).flatMap Diagnostic.expectations
  root : d.path = [] → d.received = v
  below : d.path ≠ [] →
    ∃ e, ds.find? (·.path = d.path) = some e ∧ d.received = e.received

namespace IsMerge

variable {v : Value} {ds : List Diagnostic} {d e : Diagnostic}

theorem start (v : Value) : IsMerge v [] (empty v) where
  top := by simp
  expectations := rfl
  root _ := rfl
  below h := absurd rfl h

theorem step (h : IsMerge v ds d) (e : Diagnostic) : IsMerge v (ds ++ [e]) (d.combine e) := by
  rcases Outranks.trichotomy d.path e.path with hde | hde | hed
  · have hne : e.path ≠ d.path := fun he => Outranks.irrefl _ (he ▸ hde)
    rw [combine_of_outranks hde]
    constructor
    · intro f hf
      rcases List.mem_append.mp hf with hf | hf
      · exact h.top f hf
      · rw [List.mem_singleton.mp hf]; exact hde.asymm
    · simp [h.expectations, hne]
    · exact h.root
    · intro hp
      obtain ⟨f, hf, hr⟩ := h.below hp
      exact ⟨f, by rw [List.find?_append, hf, Option.some_or], hr⟩
  · rw [combine_of_path_eq hde]
    constructor
    · intro f hf
      rcases List.mem_append.mp hf with hf | hf
      · exact h.top f hf
      · rw [List.mem_singleton.mp hf, ← hde]; exact Outranks.irrefl _
    · simp [h.expectations, ← hde]
    · exact h.root
    · intro hp
      obtain ⟨f, hf, hr⟩ := h.below hp
      exact ⟨f, by rw [List.find?_append, hf, Option.some_or], hr⟩
  · have hne : ∀ f ∈ ds, f.path ≠ e.path := fun f hf he => h.top f hf (he ▸ hed)
    rw [combine_of_outranked hed]
    constructor
    · intro f hf hfe
      rcases List.mem_append.mp hf with hf | hf
      · exact h.top f hf (hfe.trans hed)
      · rw [List.mem_singleton.mp hf] at hfe; exact Outranks.irrefl _ hfe
    · rw [List.filter_append, List.filter_eq_nil_iff.mpr (by simpa using hne)]
      simp
    · intro hp
      exact absurd hp hed.ne_nil
    · intro hp
      refine ⟨e, ?_, rfl⟩
      rw [List.find?_append, List.find?_eq_none.mpr (by simpa using hne)]
      simp

theorem run (h : IsMerge v ds d) (es : List Diagnostic) :
    IsMerge v (ds ++ es) (mergeAll d es) := by
  induction es generalizing ds d with
  | nil => simpa [mergeAll] using h
  | cons e es ih => simpa [mergeAll] using ih (h.step e)

theorem of_mergeAll (v : Value) (ds : List Diagnostic) : IsMerge v ds (mergeAll (empty v) ds) :=
  (start v).run ds

end IsMerge

end Conform.Diagnostic
