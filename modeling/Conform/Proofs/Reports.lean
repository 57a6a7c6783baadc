import Conform.Proofs.CheckerOutcome
import Conform.Proofs.FirstOf
import Conform.Proofs.ValidatorTree
import Conform.Proofs.ValueTree

namespace Conform

/-- A segment leads from a value into it. Only the given names are looked up in what is no mapping,
where they find nothing. -/
inductive Step (names : Set String) : Value → String → Value → Prop
  | item {v x : Value} {xs : List Value} {n : Nat} (hv : v.items? = some xs)
      (hx : xs[n]? = some x) : Step names v (toString n) x
  | entry {v k l x : Value} {es : Table Value} {s : String}
      (hv : v.entries? = some es ∨ v.held? = some es) (hx : (l, x) ∈ es) (hk : l.equal k = true)
      (hs : k.text? = some s) : Step names v s x
  | missing {v k : Value} {es : Table Value} {s : String} (hv : v.held? = some es)
      (hk : Table.lookup? es k = none) (hs : k.text? = some s) : Step names v s .undefined
  | noMapping {v : Value} {s : String} (hv : v.entries? = none) (hs : s ∈ names) :
      Step names v s .undefined

namespace Value

theorem text?_of_hasText {k : Value} (hk : k.hasText = true) : k.text? = some k.text := by
  rw [text?, if_pos hk]

theorem held?_eq_none_iff {v : Value} : v.held? = none ↔ v.entries? = none := by
  unfold held? entries?
  cases v.unrolled <;> simp

end Value

namespace Step

variable {names : Set String} {v : Value}

theorem field {k : Value} (hv : v.isMapping = true) (hk : k.hasText = true) :
    Step names v k.text (v.field k) := by
  have hheld : v.held? ≠ none := by
    rw [Ne, Value.held?_eq_none_iff, ← Ne, Option.ne_none_iff_isSome]
    exact hv
  obtain ⟨es, hes⟩ := Option.ne_none_iff_exists'.mp hheld
  simp only [Value.field, hes]
  cases hx : Table.lookup? es k with
  | none => exact .missing hes hx (Value.text?_of_hasText hk)
  | some x =>
    obtain ⟨⟨l, y⟩, hf, rfl⟩ := Option.map_eq_some_iff.mp hx
    exact .entry (.inr hes) (List.mem_of_find?_eq_some hf) (by simpa using List.find?_some hf)
      (Value.text?_of_hasText hk)

theorem namedField {s : String} (hs : s ∈ names) : Step names v s (v.field (.str s)) := by
  cases hv : v.entries? with
  | none =>
    have hf : v.field (.str s) = .undefined := by
      simp only [Value.field, Value.held?_eq_none_iff.mpr hv]
    rw [hf]
    exact .noMapping hv hs
  | some es => exact .field (k := .str s) (by simp [Value.isMapping, hv]) rfl

end Step

structure ReportRule (names : Set String) (P : Value → Diagnostic → Prop) : Prop where
  simple (v : Value) (l : String) : P v (.simple v l)
  label {v : Value} {d : Diagnostic} (h : P v d) (name : String) : P v (.label name d)
  below {v x : Value} {s : String} {d : Diagnostic} (hs : Step names v s x) (h : P x d) :
    P v (d.under s)
  merge {v : Value} {ds : List Diagnostic} (hne : ds ≠ []) (h : ∀ d ∈ ds, P v d) :
    P v ((Diagnostic.empty v).mergeAll ds)

namespace Checker

def Reports (P : Value → Diagnostic → Prop) (c : Checker) : Prop :=
  ∀ v d, (c v).outcome = .rejected d → P v d

namespace Reports

variable {names : Set String} {P : Value → Diagnostic → Prop} {c : Checker} {cs : List Checker}
  {fs : Table Checker}

theorem raise (f : Fault) : Reports P fun _ => .raise f := by
  intro v d h
  contradiction

theorem constant (w : Value) : Reports P (constant w) := by
  intro v d h
  contradiction

theorem test (hP : ReportRule names P) (p : Value → Option Bool) (l : String) :
    Reports P (test p l) := by
  intro v d h
  obtain ⟨-, rfl⟩ := test_eq_rejected_iff.mp h
  exact hP.simple v l

theorem json (hP : ReportRule names P) : Reports P json := by
  intro v d h
  unfold Checker.json at h
  split at h
  · split at h
    · contradiction
    · cases h
      exact hP.simple _ _
    · contradiction
  · cases h
    exact hP.label (hP.simple v _) _

theorem list (hP : ReportRule names P) (h : Reports P c) : Reports P (list c) := by
  intro v d hd
  rcases list_eq_rejected_iff.mp hd with ⟨-, rfl⟩ | ⟨xs, n, x, e, hxs, hx, he, rfl, -⟩
  · exact hP.simple v _
  · obtain ⟨-, he⟩ := sparing_eq_rejected_iff.mp he
    exact hP.below (.item hxs hx) (h x e he)

theorem dict (hP : ReportRule names P) (h : ∀ f ∈ fs, Reports P f.2) : Reports P (dict fs) := by
  intro v d hd
  rcases dict_eq_rejected_iff.mp hd with ⟨-, rfl⟩ | ⟨hv, n, f, e, hf, he, hk, rfl, -⟩
  · exact hP.simple v _
  · obtain ⟨-, he⟩ := onField_eq_rejected_iff.mp he
    exact hP.below (.field hv hk) (h f (List.mem_of_getElem? hf) _ e he)

theorem snakeDict (hP : ReportRule names P) (h : ∀ f ∈ fs, Reports P f.2)
    (hn : ∀ f ∈ fs, ∀ name, f.1 = .str name → Text.snakeCase name ∈ names) :
    Reports P (snakeDict fs) := by
  intro v d hd
  obtain ⟨rs, hrs, hne, rfl⟩ := snakeDict_eq_rejected_iff.mp hd
  refine hP.merge hne fun e he => ?_
  obtain ⟨k, hk⟩ := mem_failures.mp he
  obtain ⟨f, hf, hfe⟩ := exists_mem_of_map_eq hrs hk
  obtain ⟨name, e', hname, -, he', rfl⟩ := snakeField_eq_done_error_iff.mp hfe
  have hstep : Step names v (Text.snakeCase name) (v.field (.str (Text.snakeCase name))) :=
    .namedField (hn f hf name hname)
  exact hP.label (hP.below hstep (h f hf _ e' (onField_eq_rejected_iff.mp he').2)) _

theorem record (hP : ReportRule names P) (h : Reports P c) : Reports P (record c) := by
  intro v d hd
  rcases record_eq_rejected_iff.mp hd with ⟨-, rfl⟩ | ⟨es, n, e, f, hes, he, hf, hk, rfl, -⟩
  · exact hP.simple v _
  · have hstep : Step names v e.1.text e.2 :=
      .entry (.inl hes) (List.mem_of_getElem? he) (Value.equal_self e.1)
        (Value.text?_of_hasText hk)
    exact hP.below hstep (h e.2 f hf)

theorem union (hP : ReportRule names P) (hne : cs ≠ []) (h : ∀ c ∈ cs, Reports P c) :
    Reports P (union cs) := by
  intro v d hd
  obtain ⟨ds, hds, rfl⟩ := firstOf_eq_rejected_iff.mp hd
  have hne' : ds ≠ [] := by
    rintro rfl
    exact hne (List.map_eq_nil_iff.mp hds)
  refine hP.merge hne' fun e he => ?_
  obtain ⟨c, hc, hce⟩ := exists_mem_of_map_eq hds he
  exact h c hc v e hce

theorem intersection (h : ∀ c ∈ cs, Reports P c) : Reports P (intersection cs) := by
  intro v d hd
  obtain ⟨n, c, hc, hcd, -⟩ := intersection_eq_rejected_iff.mp hd
  exact h c (List.mem_of_getElem? hc) v d hcd

theorem label (hP : ReportRule names P) (h : Reports P c) (name : String) :
    Reports P (label name c) := by
  intro v d hd
  obtain ⟨e, he, rfl⟩ := Trace.mapRejection_eq_rejected_iff.mp hd
  exact hP.label (h v e he) name

theorem bind (h : Reports P c) {f : Value → Trace Value}
    (hf : ∀ v u d, (f u).outcome = .rejected d → P v d) : Reports P fun v => c v >>= f := by
  intro v d hd
  rcases Trace.bind_eq_rejected_iff.mp hd with hcd | ⟨u, -, hu⟩
  · exact h v d hcd
  · exact hf v u d hu

end Reports

end Checker

end Conform
