import Conform.Proofs.UnionOutcome

namespace Conform

namespace Diagnostic.IsMerge

variable {v w : Value} {ds es : List Diagnostic} {d e : Diagnostic}

theorem not_outranks_of_subset (h : IsMerge v ds d) (h' : IsMerge w es e) (hs : ds ⊆ es) :
    ¬ Outranks d.path e.path := by
  intro hde
  obtain ⟨f, hf, -⟩ := h.below hde.ne_nil
  have hpath : f.path = d.path := by simpa using List.find?_some hf
  have hmem : f ∈ es := hs (List.mem_of_find?_eq_some hf)
  apply h'.top f hmem
  rwa [hpath]

theorem path_eq_of_perm (h : IsMerge v ds d) (h' : IsMerge w es e) (hp : ds.Perm es) :
    d.path = e.path := by
  rcases Outranks.trichotomy d.path e.path with hde | hde | hed
  · exact absurd hde (h.not_outranks_of_subset h' hp.subset)
  · exact hde
  · exact absurd hed (h'.not_outranks_of_subset h hp.symm.subset)

theorem expectations_perm (h : IsMerge v ds d) (h' : IsMerge w es e) (hp : ds.Perm es) :
    d.expectations.Perm e.expectations := by
  rw [h.expectations, h'.expectations, h.path_eq_of_perm h' hp]
  exact (hp.filter _).flatMap_right _

end Diagnostic.IsMerge

namespace Checker

variable {cs : List Checker} {v : Value}

theorem isMerge_of_union {report : Checker → Diagnostic}
    (h : ∀ c ∈ cs, (c v).outcome = .rejected (report c)) :
    ∃ d, (union cs v).outcome = .rejected d ∧ Diagnostic.IsMerge v (cs.map report) d := by
  have hall : cs.map (fun c => (c v).outcome) = (cs.map report).map .rejected := by
    rw [List.map_map]
    exact List.map_congr_left h
  exact ⟨_, union_of_rejected hall, .of_mergeAll v _⟩

theorem union_perm {ds : List Checker} (hp : cs.Perm ds)
    (h : ∀ c ∈ cs, ∃ d, (c v).outcome = .rejected d) :
    ∃ d e, (union cs v).outcome = .rejected d ∧ (union ds v).outcome = .rejected e ∧
      d.path = e.path ∧ d.expectations.Perm e.expectations := by
  choose! report hreport using h
  obtain ⟨d, hd, hmerge⟩ := isMerge_of_union hreport
  obtain ⟨e, he, hmerge'⟩ := isMerge_of_union fun c hc => hreport c (hp.mem_iff.mpr hc)
  exact ⟨d, e, hd, he, hmerge.path_eq_of_perm hmerge' (hp.map report),
    hmerge.expectations_perm hmerge' (hp.map report)⟩

end Checker

namespace Validator

variable (resolve : String → Checker) (o : Display.Options)

theorem union_reordered {cs ds : List Validator} (hp : cs.Perm ds) {x : Value}
    (h : ∀ c ∈ cs, ∃ d, (c.run resolve o x).outcome = .rejected d) :
    ∃ d e, ((union cs).run resolve o x).outcome = .rejected d ∧
      ((union ds).run resolve o x).outcome = .rejected e ∧
      d.path = e.path ∧ d.expectations.Perm e.expectations := by
  rw [run_union, run_union]
  exact Checker.union_perm (hp.map _) (List.forall_mem_map.mpr h)

theorem union_reordered_tie :
    let cs : List Validator := [.string, .list .string, .record .null, .list .null]
    let x : Value := .list [.int 1]
    let resolve : String → Checker := fun _ => .constant .null
    cs.Perm cs.reverse ∧ (∀ c ∈ cs, ∃ d, (c.run resolve .default x).outcome = .rejected d) ∧
      ∃ d e, ((union cs).run resolve .default x).outcome = .rejected d ∧
        ((union cs.reverse).run resolve .default x).outcome = .rejected e ∧
        d.path = e.path ∧ d.expectations.Perm e.expectations ∧
        d.expectations ≠ e.expectations := by
  intro cs x resolve
  have hp : cs.Perm cs.reverse := (List.reverse_perm cs).symm
  have hall : ∀ c ∈ cs, ∃ d, (c.run resolve .default x).outcome = .rejected d := by
    intro c hc
    simp only [cs, List.mem_cons, List.not_mem_nil, or_false] at hc
    rcases hc with rfl | rfl | rfl | rfl <;> exact ⟨_, rfl⟩
  obtain ⟨d, e, hd, he, hpath, hexpectations⟩ := union_reordered resolve .default hp hall
  refine ⟨hp, hall, d, e, hd, he, hpath, hexpectations, fun h => ?_⟩
  cases hd
  cases he
  have hlabels : ["a string", "null"] = ["null", "a string"] :=
    congrArg (List.map Expectation.label) h
  exact absurd hlabels (by decide)

end Validator

end Conform
