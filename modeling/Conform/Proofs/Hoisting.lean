import Conform.Proofs.CheckerFaults
import Conform.Proofs.FirstOf
import Conform.Proofs.MergeLaws
import Conform.Proofs.ValidatorTree
import Conform.Validator.Stock

/-!
A union in a field can be moved out of it: alternatives for the field do what the alternatives of
dicts with that field do, but for the value that is reported as received where all of them fail at
the field itself.
-/

namespace Conform

namespace Checker

def inField (k : Value) (t : Trace Value) : Trace Value :=
  (fun y => .dict (addEntry k y [])) <$> t.under k.text

structure Reads (v k x : Value) : Prop where
  mapping : v.isMapping = true
  answered : lookup v k = pure x
  named : k.hasText = true

theorem dict_singleton {v k x : Value} (hv : Reads v k x) (c : Checker) :
    dict [(k, c)] v = inField k (c x) := by
  have hfields : fields v [(k, c)] = do
      let y ← ((lookup v k >>= c).below k)
      let es ← pure []
      return addEntry k y es := rfl
  rw [dict, if_pos hv.mapping, hfields, hv.answered, pure_bind, Trace.below, if_pos hv.named,
    inField]
  simp only [map_eq_pure_bind, bind_assoc, pure_bind]

theorem inField_after (k : Value) (log : List LogRecord) (t : Trace Value) :
    inField k (t.after log) = (inField k t).after log := by
  unfold inField
  rw [map_eq_pure_bind, map_eq_pure_bind]
  change Trace.bind _ _ = (Trace.bind _ _).after log
  obtain ⟨log', w | d | e⟩ := t <;>
    simp [Trace.bind, Trace.under, Trace.mapRejection, Trace.after]

theorem inField_orElse {k : Value} {f g : Diagnostic → Trace Value}
    (h : ∀ d, g (d.under k.text) = inField k (f d)) (t : Trace Value) :
    (inField k t).orElse g = inField k (t.orElse f) := by
  obtain ⟨log, w | d | e⟩ := t
  · rfl
  · change (g (d.under k.text)).after log = inField k ((f d).after log)
    rw [h, inField_after]
  · rfl

theorem firstOf_inField {v k x : Value} (hv : Reads v k x) (d : Diagnostic) (cs : List Checker) :
    firstOf v (d.under k.text) (cs.map fun c => dict [(k, c)]) = inField k (firstOf x d cs) := by
  induction cs generalizing d with
  | nil => rfl
  | cons c cs ih =>
    rw [List.map_cons, firstOf, firstOf, dict_singleton hv]
    apply inField_orElse
    intro e
    rw [Diagnostic.combine_under]
    exact ih _

theorem inField_eq_done_iff {k w : Value} {t : Trace Value} : (inField k t).outcome = .done w ↔
    ∃ y, t.outcome = .done y ∧ .dict (addEntry k y []) = w := by
  simp only [inField, Trace.map_eq_done_iff, under_eq_done_iff]

theorem inField_eq_rejected_iff {k : Value} {d : Diagnostic} {t : Trace Value} :
    (inField k t).outcome = .rejected d ↔ ∃ e, t.outcome = .rejected e ∧ e.under k.text = d := by
  simp only [inField, Trace.map_eq_rejected_iff, under_eq_rejected_iff]

/-- A union after its first choice has failed: the empty start of the merge shows at its end. -/
theorem union_cons_of_rejected {c : Checker} {v : Value} {a : Diagnostic}
    (hc : (c v).outcome = .rejected a) (cs : List Checker) :
    (union (c :: cs) v).outcome =
      ((firstOf v a cs).orElse fun e => .reject ((Diagnostic.empty v).combine e)).outcome := by
  rw [union, firstOf, Trace.orElse_of_rejected hc, Trace.outcome_after, firstOf_combine]

theorem union_dicts_of_rejected {v k x : Value} (hv : Reads v k x) {c : Checker} {a : Diagnostic}
    (hc : (c x).outcome = .rejected a) (cs : List Checker) :
    (union ((c :: cs).map fun b => dict [(k, b)]) v).outcome =
      (inField k (firstOf x a cs)).outcome := by
  have hdict : (dict [(k, c)] v).outcome = .rejected (a.under k.text) := by
    rw [dict_singleton hv]
    exact inField_eq_rejected_iff.mpr ⟨a, hc, rfl⟩
  -- the report of the first dict lies below the key, so nothing is left of the empty start
  have hstart : (Diagnostic.empty v).combine (a.under k.text) = a.under k.text :=
    (Diagnostic.empty_combine_eq_iff _ _).mpr (.inl (by simp))
  rw [List.map_cons, union, firstOf, Trace.orElse_of_rejected hdict, hstart,
    Trace.outcome_after, firstOf_inField hv]

theorem dict_union_agrees {v k x : Value} (hv : Reads v k x) {c : Checker} {cs : List Checker}
    (hno : ∀ b ∈ c :: cs, ∀ e, (b x).outcome ≠ .raised e) :
    (∃ es, (dict [(k, union (c :: cs))] v).outcome = .done (.dict es) ∧
      (union ((c :: cs).map fun b => dict [(k, b)]) v).outcome = .done (.dict es)) ∨
    ∃ a f, (c x).outcome = .rejected a ∧ (f.path = [] → f.received = a.received) ∧
      (dict [(k, union (c :: cs))] v).outcome =
        .rejected (((Diagnostic.empty x).combine f).under k.text) ∧
      (union ((c :: cs).map fun b => dict [(k, b)]) v).outcome = .rejected (f.under k.text) := by
  obtain ⟨hc, hcs⟩ := List.forall_mem_cons.mp hno
  rw [dict_singleton hv]
  cases h : (c x).outcome with
  | done y =>
    refine .inl ⟨addEntry k y [], ?_, ?_⟩
    · exact inField_eq_done_iff.mpr ⟨y, Trace.orElse_eq_done_iff.mpr (.inl h), rfl⟩
    · have hdict : (dict [(k, c)] v).outcome = .done (.dict (addEntry k y [])) := by
        rw [dict_singleton hv]
        exact inField_eq_done_iff.mpr ⟨y, h, rfl⟩
      exact Trace.orElse_eq_done_iff.mpr (.inl hdict)
  | rejected a =>
    rw [union_dicts_of_rejected hv h]
    have hunion := union_cons_of_rejected h cs
    cases hrest : (firstOf x a cs).outcome with
    | done y =>
      rw [Trace.orElse_eq_done_iff.mpr (.inl hrest)] at hunion
      exact .inl ⟨addEntry k y [], inField_eq_done_iff.mpr ⟨y, hunion, rfl⟩,
        inField_eq_done_iff.mpr ⟨y, hrest, rfl⟩⟩
    | rejected f =>
      rw [Trace.orElse_of_rejected hrest, Trace.outcome_after, Trace.outcome_reject] at hunion
      obtain ⟨ds, -, rfl⟩ := firstOf_eq_rejected_iff.mp hrest
      refine .inr ⟨a, a.mergeAll ds, rfl, ?_, inField_eq_rejected_iff.mpr ⟨_, hunion, rfl⟩,
        inField_eq_rejected_iff.mpr ⟨_, hrest, rfl⟩⟩
      exact fun hp => (Diagnostic.received_of_mergeAll_root a hp).2
    | raised e =>
      obtain ⟨before, b, after, rfl, hb, -⟩ := firstOf_eq_raised_iff.mp hrest
      exact absurd hb (hcs b List.mem_append_cons_self e)
  | raised e => exact absurd h (hc e)

end Checker

namespace Validator

variable (resolve : String → Checker) (o : Display.Options)

theorem union_hoisted (k : String) (c : Validator) (cs : List Validator) {m x : Value}
    (hm : m.isMapping = true) (hx : Checker.lookup m (.str k) = pure x)
    (hno : ∀ b ∈ c :: cs, ∀ e, (b.run resolve o x).outcome ≠ .raised e) :
    (∃ es, ((dict [(.str k, union (c :: cs))]).run resolve o m).outcome = .done (.dict es) ∧
      ((union ((c :: cs).map fun b => dict [(.str k, b)])).run resolve o m).outcome =
        .done (.dict es)) ∨
    ∃ a d e, (c.run resolve o x).outcome = .rejected a ∧
      ((dict [(.str k, union (c :: cs))]).run resolve o m).outcome = .rejected d ∧
      ((union ((c :: cs).map fun b => dict [(.str k, b)])).run resolve o m).outcome = .rejected e ∧
      d.path = e.path ∧ d.expectations = e.expectations ∧
      (d.received = e.received ↔ 1 < d.path.length ∨ a.received = x) ∧
      (d.received.equal e.received = true ↔
        1 < d.path.length ∨ x.equal a.received = true) := by
  have hinside : (dict [(.str k, union (c :: cs))]).run resolve o =
      .dict [(.str k, .union ((c :: cs).map (run resolve o)))] := by
    rw [run_dict, List.map_singleton, run_union]
  have houtside : (union ((c :: cs).map fun b => dict [(.str k, b)])).run resolve o =
      .union (((c :: cs).map (run resolve o)).map fun b => .dict [(.str k, b)]) := by
    rw [run_union, List.map_map, List.map_map]
    refine congrArg Checker.union (List.map_congr_left fun b _ => ?_)
    exact run_dict resolve o [(.str k, b)]
  rw [hinside, houtside]
  have hno' : ∀ b ∈ (c :: cs).map (run resolve o), ∀ e,
      (b x).outcome ≠ .raised e := List.forall_mem_map.mpr hno
  rcases Checker.dict_union_agrees ⟨hm, hx, rfl⟩ hno' with hdone | ⟨a, f, ha, hf, hd, he⟩
  · exact .inl hdone
  · refine .inr ⟨a, _, _, ha, hd, he, ?_⟩
    simp only [Diagnostic.empty_combine, Diagnostic.under_path, Diagnostic.under_received,
      Diagnostic.under_expectations, List.length_cons, true_and]
    by_cases hp : f.path = []
    · rw [if_pos hp, hf hp, hp, eq_comm]
      simp
    · have hlong : 1 < f.path.length + 1 := Nat.succ_lt_succ (List.length_pos_of_ne_nil hp)
      simp [hp, hlong, Value.equal_self]

theorem union_hoisted_other_received :
    let c : Validator := .function fun _ _ => .reject (.simple (.int 7) "seven")
    let m : Value := .dict [(.str "id", .null)]
    let resolve : String → Checker := fun _ => .constant .null
    m.isMapping = true ∧ Checker.lookup m (.str "id") = pure .null ∧
      (∀ b ∈ [c, string], ∀ e, (b.run resolve .default .null).outcome ≠ .raised e) ∧
      ∃ d e,
        ((dict [(.str "id", union [c, string])]).run resolve .default m).outcome = .rejected d ∧
        ((union ([c, string].map fun b => dict [(.str "id", b)])).run resolve .default m).outcome =
          .rejected e ∧
        d.path = e.path ∧ d.expectations = e.expectations ∧ d.received ≠ e.received := by
  intro c m resolve
  have hno : ∀ b ∈ [c, string], ∀ e, (b.run resolve .default .null).outcome ≠ .raised e :=
    List.forall_mem_cons.mpr ⟨nofun, List.forall_mem_singleton.mpr nofun⟩
  rcases union_hoisted resolve .default "id" c [string] (m := m) rfl rfl hno with
    ⟨es, hes, -⟩ | ⟨a, d, e, ha, hd, he, hpath, hexp, hreceived, -⟩
  · contradiction
  · refine ⟨rfl, rfl, hno, d, e, hd, he, hpath, hexp, fun h => ?_⟩
    cases ha
    cases hd
    rcases hreceived.mp h with hlong | hsame
    · exact absurd hlong (by decide)
    · contradiction

end Validator

end Conform
