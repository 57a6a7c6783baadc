import Conform.Checker.Basic
import Conform.Proofs.Merge
import Conform.Proofs.Outcome

namespace Conform.Checker

theorem firstOf_append (v : Value) (d : Diagnostic) (cs ds : List Checker) :
    firstOf v d (cs ++ ds) = (firstOf v d cs).orElse fun e => firstOf v e ds := by
  induction cs generalizing d with
  | nil => rfl
  | cons c cs ih => simp only [List.cons_append, firstOf, ih, Trace.orElse_assoc]

theorem firstOf_combine (v : Value) (d e : Diagnostic) (cs : List Checker) :
    firstOf v (d.combine e) cs = (firstOf v e cs).orElse fun f => .reject (d.combine f) := by
  induction cs generalizing e with
  | nil => rfl
  | cons c cs ih => simp only [firstOf, Diagnostic.combine_assoc, ih, Trace.orElse_assoc]

theorem firstOf_eq_union (v : Value) (d : Diagnostic) (cs : List Checker) :
    firstOf v d cs = (union cs v).orElse fun e => .reject (d.combine e) := by
  rw [union, ← firstOf_combine, Diagnostic.combine_empty]

theorem firstOf_union (v : Value) (d : Diagnostic) (cs ds : List Checker) :
    firstOf v d (union cs :: ds) = firstOf v d (cs ++ ds) := by
  rw [firstOf_append, firstOf_eq_union v d cs, Trace.orElse_assoc]
  rfl

theorem firstOf_eq_rejected_iff {v : Value} {d e : Diagnostic} {cs : List Checker} :
    (firstOf v d cs).outcome = .rejected e ↔
      ∃ ds, cs.map (fun c => (c v).outcome) = ds.map .rejected ∧ d.mergeAll ds = e := by
  induction cs generalizing d with
  | nil => simp [firstOf, Diagnostic.mergeAll]
  | cons c cs ih =>
    simp only [firstOf, Trace.orElse_eq_rejected_iff, ih]
    constructor
    · rintro ⟨f, hf, ds, hds, rfl⟩
      refine ⟨f :: ds, ?_, rfl⟩
      rw [List.map_cons, List.map_cons, hf, hds]
    · rintro ⟨ds, hds, rfl⟩
      cases ds with
      | nil => simp at hds
      | cons f ds =>
        obtain ⟨hf, hds⟩ := List.cons.inj hds
        exact ⟨f, hf, ds, hds, rfl⟩

theorem firstOf_eq_done_iff {v w : Value} {d : Diagnostic} {cs : List Checker} :
    (firstOf v d cs).outcome = .done w ↔
      ∃ before c after, cs = before ++ c :: after ∧
        (∀ b ∈ before, ∃ e, (b v).outcome = .rejected e) ∧ (c v).outcome = .done w := by
  induction cs generalizing d with
  | nil => simp [firstOf]
  | cons c cs ih =>
    simp only [firstOf, Trace.orElse_eq_done_iff, ih]
    constructor
    · rintro (hc | ⟨f, hf, before, b, after, rfl, hbefore, hb⟩)
      · exact ⟨[], c, cs, rfl, by simp, hc⟩
      · refine ⟨c :: before, b, after, rfl, ?_, hb⟩
        exact List.forall_mem_cons.mpr ⟨⟨f, hf⟩, hbefore⟩
    · rintro ⟨before, b, after, hcs, hbefore, hb⟩
      cases before with
      | nil =>
        obtain ⟨rfl, -⟩ := List.cons.inj hcs
        exact .inl hb
      | cons a before =>
        obtain ⟨rfl, htail⟩ := List.cons.inj hcs
        obtain ⟨⟨f, hf⟩, hrest⟩ := List.forall_mem_cons.mp hbefore
        exact .inr ⟨f, hf, before, b, after, htail, hrest, hb⟩

theorem union_pair_eq_done_iff {c c' : Checker} {v w : Value} :
    (union [c, c'] v).outcome = .done w ↔
    (c v).outcome = .done w ∨ (∃ d, (c v).outcome = .rejected d) ∧ (c' v).outcome = .done w := by
  simp [union, firstOf, Trace.orElse_eq_done_iff]

end Conform.Checker
