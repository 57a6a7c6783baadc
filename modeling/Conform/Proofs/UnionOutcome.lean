import Conform.Proofs.FirstOf
import Conform.Proofs.ValidatorTree

namespace Conform

structure MostSpecific (p : List String) (ps : List (List String)) : Prop where
  mem : p ∈ ps
  longest : ∀ q ∈ ps, q.length ≤ p.length
  least : ∀ q ∈ ps, q.length = p.length → q = p ∨ List.Lex (· < ·) p q

namespace Diagnostic.IsMerge

variable {v : Value} {ds : List Diagnostic} {d : Diagnostic}

theorem exists_find (h : IsMerge v ds d) (hne : ds ≠ []) :
    ∃ e, ds.find? (·.path = d.path) = some e ∧
      d.received = if d.path = [] then v else e.received := by
  by_cases hp : d.path = []
  · obtain ⟨e, ds, rfl⟩ := List.exists_cons_of_ne_nil hne
    have he : e.path = [] := by
      by_contra hn
      apply h.top e (by simp)
      rw [hp]
      exact .inl (List.length_pos_of_ne_nil hn)
    exact ⟨e, by simp [he, hp], by rw [if_pos hp, h.root hp]⟩
  · obtain ⟨e, he, hr⟩ := h.below hp
    exact ⟨e, he, by rw [if_neg hp, hr]⟩

theorem mostSpecific (h : IsMerge v ds d) (hne : ds ≠ []) :
    MostSpecific d.path (ds.map Diagnostic.path) := by
  obtain ⟨e, he, -⟩ := h.exists_find hne
  constructor
  · have hp : e.path = d.path := by simpa using List.find?_some he
    exact hp ▸ List.mem_map_of_mem (List.mem_of_find?_eq_some he)
  · rintro q hq
    obtain ⟨f, hf, rfl⟩ := List.mem_map.mp hq
    by_contra hl
    exact h.top f hf (.inl (by omega))
  · rintro q hq hl
    obtain ⟨f, hf, rfl⟩ := List.mem_map.mp hq
    rcases Outranks.trichotomy f.path d.path with hfd | hfd | hdf | ⟨-, hdf⟩
    · exact absurd hfd (h.top f hf)
    · exact .inl hfd
    · omega
    · exact .inr hdf

end Diagnostic.IsMerge

theorem Checker.union_eq_done_iff {cs : List Checker} {v w : Value} :
    (union cs v).outcome = .done w ↔
      ∃ before c after, cs = before ++ c :: after ∧
        (∀ b ∈ before, ∃ e, (b v).outcome = .rejected e) ∧ (c v).outcome = .done w :=
  firstOf_eq_done_iff

theorem Checker.union_of_rejected {cs : List Checker} {v : Value} {ds : List Diagnostic}
    (h : cs.map (fun c => (c v).outcome) = ds.map .rejected) :
    (union cs v).outcome = .rejected ((Diagnostic.empty v).mergeAll ds) :=
  firstOf_eq_rejected_iff.mpr ⟨ds, h, rfl⟩

namespace Validator

theorem union_outcome {cs : List Validator} (hne : cs ≠ []) (resolve : String → Checker)
    (o : Display.Options) (x : Value) :
    (∀ w, ((Validator.union cs).run resolve o x).outcome = .done w ↔
      ∃ before c after, cs = before ++ c :: after ∧
        (∀ b ∈ before, ∃ d, (b.run resolve o x).outcome = .rejected d) ∧
        (c.run resolve o x).outcome = .done w) ∧
    ∀ ds : List Diagnostic, cs.map (fun c => (c.run resolve o x).outcome) = ds.map .rejected →
      ∃ d, ((Validator.union cs).run resolve o x).outcome = .rejected d ∧
        MostSpecific d.path (ds.map Diagnostic.path) ∧
        d.expectations = (ds.filter (·.path = d.path)).flatMap Diagnostic.expectations ∧
        ∃ e, ds.find? (·.path = d.path) = some e ∧
          d.received = if d.path = [] then x else e.received := by
  rw [run_union]
  constructor
  · intro w
    rw [Checker.union_eq_done_iff]
    constructor
    · rintro ⟨before, c, after, hcs, hbefore, hc⟩
      obtain ⟨bs, ds, rfl, rfl, hds⟩ := List.map_eq_append_iff.mp hcs
      obtain ⟨c, as, rfl, rfl, rfl⟩ := List.map_eq_cons_iff.mp hds
      exact ⟨bs, c, as, rfl, by simpa using hbefore, hc⟩
    · rintro ⟨before, c, after, rfl, hbefore, hc⟩
      exact ⟨before.map (run resolve o), c.run resolve o, after.map (run resolve o), by simp,
        by simpa using hbefore, hc⟩
  · intro ds hds
    have hds' : (cs.map (run resolve o)).map (fun c => (c x).outcome) = ds.map .rejected := by
      rw [List.map_map]
      exact hds
    have hne' : ds ≠ [] := by
      rintro rfl
      exact hne (by simpa using hds)
    have h := Diagnostic.IsMerge.of_mergeAll x ds
    exact ⟨_, Checker.union_of_rejected hds', h.mostSpecific hne', h.expectations,
      h.exists_find hne'⟩

theorem union_outcome_below_index :
    let cs : List Validator := [.string, .list .string, .record .null, .list .null]
    let x : Value := .list [.int 1]
    let ds : List Diagnostic := [.simple x "a string", ⟨["0"], .int 1, [⟨"a string", none⟩]⟩,
      .simple x "an object", ⟨["0"], .int 1, [⟨"null", none⟩]⟩]
    cs ≠ [] ∧ cs.map (fun c => (c.run (fun _ => .json) .default x).outcome) = ds.map .rejected ∧
      ∃ d, ((Validator.union cs).run (fun _ => .json) .default x).outcome = .rejected d ∧
        MostSpecific d.path (ds.map Diagnostic.path) ∧
        d.expectations = (ds.filter (·.path = d.path)).flatMap Diagnostic.expectations ∧
        ∃ e, ds.find? (·.path = d.path) = some e ∧
          d.received = if d.path = [] then x else e.received := by
  intro cs x ds
  have hds : cs.map (fun c => (c.run (fun _ => .json) .default x).outcome) = ds.map .rejected := rfl
  exact ⟨by simp [cs], hds, (union_outcome (by simp [cs]) (fun _ => .json) .default x).2 ds hds⟩

end Validator

end Conform
