import Conform.Proofs.CheckerOutcome
import Conform.Proofs.DistinctKeys
import Conform.Proofs.ValidatorTree
import Conform.Validator.Stock

namespace Conform

def Table.withoutAbsent (es : Table Value) : Table Value := es.filter fun e => !e.2.isUndefined

namespace Value

def isForeign (v : Value) : Bool :=
  match v.unrolled with
  | .mapping .. => true
  | _ => false

/-- A walk comes to its end, and what it comes to is what lookups find. -/
structure Consistent (v : Value) (es : Table Value) : Prop where
  stop : v.stop? = none
  lookup : ∀ e ∈ es, Checker.lookup v e.1 = pure e.2

theorem consistent_of_entries {v : Value} {es : Table Value} (hv : v.entries? = some es)
    (hd : Table.Distinct es) (hf : v.isForeign = true → v.Consistent es) : v.Consistent es := by
  by_cases h : v.isForeign = true
  · exact hf h
  · have hheld : v.held? = some es ∧ v.stop? = none ∧ ∀ k, v.refusal? k = none := by
      unfold isForeign at h
      unfold entries? at hv
      unfold held? stop? refusal?
      cases hu : v.unrolled <;> simp_all
    refine ⟨hheld.2.1, fun e he => ?_⟩
    rw [Checker.lookup, hheld.2.2 e.1, field_of_mem hheld.1 hd he]

end Value

namespace Checker

variable {c : Checker} {v : Value} {es : Table Value}

theorem record_of_entries (hv : v.entries? = some es) (hs : v.stop? = none) (c : Checker) :
    record c v = .dict <$> entries c es := by
  rw [record, hv]
  simp only [finish, hs, pure_bind, map_eq_pure_bind]

theorem dict_of_entries (hv : v.entries? = some es) (hl : ∀ e ∈ es, lookup v e.1 = pure e.2)
    (c : Checker) : dict (es.map fun e => (e.1, c)) v =
      (fun rs => .dict (Table.withoutAbsent rs)) <$> entries c es := by
  have hm : v.isMapping = true := by rw [Value.isMapping, hv]; rfl
  have hkeys : (es.map fun e => (e.1, c)).map Prod.fst = es.map Prod.fst := by
    rw [List.map_map]
    rfl
  -- the field of a key holds the value of its entry
  have hchecks : (es.map fun e => (e.1, c)).map (fun f => (f.2.onField f.1 v).below f.1) =
      es.map fun e => (c e.2).below e.1 := by
    rw [List.map_map]
    apply List.map_congr_left
    intro e he
    rw [Function.comp_apply, onField, hl e he, pure_bind]
  rw [dict, if_pos hm, fields_eq_inOrder, hkeys, hchecks, entries_eq_inOrder, Functor.map_map,
    Functor.map_map]
  rfl

theorem keys_of_entries {rs : Table Value} (h : (entries c es).outcome = .done rs) :
    rs.map Prod.fst = es.map Prod.fst := by
  induction es generalizing rs with
  | nil =>
    cases h
    rfl
  | cons e es ih =>
    obtain ⟨y, -, h⟩ := Trace.bind_eq_done_iff.mp h
    obtain ⟨ys, hys, h⟩ := Trace.bind_eq_done_iff.mp h
    cases h
    rw [List.map_cons, List.map_cons, ih hys]

end Checker

namespace Validator

variable (resolve : String → Checker) (o : Display.Options)

def keyed (c : Validator) (es : Table Value) : Validator :=
  .dict (Table.ofPairs (es.map fun e => (e.1, c)))

theorem run_keyed {es : Table Value} (hd : Table.Distinct es) (c : Validator) :
    (keyed c es).run resolve o = .dict (es.map fun e => (e.1, c.run resolve o)) := by
  have hfields : Table.Distinct (es.map fun e => (e.1, c)) := by
    rw [Table.Distinct, List.map_map]
    exact hd
  rw [keyed, Table.ofPairs_of_distinct hfields, run_dict, List.map_map]
  rfl

theorem record_agrees (c : Validator) {m : Value} {es : Table Value} (hm : m.entries? = some es)
    (hd : Table.Distinct es) (hf : m.isForeign = true → m.Consistent es) :
    (∀ d, ((record c).run resolve o m).outcome = .rejected d ↔
      ((keyed c es).run resolve o m).outcome = .rejected d) ∧
    (∀ e, ((record c).run resolve o m).outcome = .raised e ↔
      ((keyed c es).run resolve o m).outcome = .raised e) ∧
    (∀ r, ((record c).run resolve o m).outcome = .done r → ∃ rs : Table Value,
      .dict rs = r ∧ rs.map Prod.fst = es.map Prod.fst ∧
      ((keyed c es).run resolve o m).outcome = .done (.dict (Table.withoutAbsent rs))) ∧
    ∀ r', ((keyed c es).run resolve o m).outcome = .done r' → ∃ rs : Table Value,
      .dict (Table.withoutAbsent rs) = r' ∧ rs.map Prod.fst = es.map Prod.fst ∧
      ((record c).run resolve o m).outcome = .done (.dict rs) := by
  have hconsistent := Value.consistent_of_entries hm hd hf
  have hrecord : (record c).run resolve o m = .dict <$> Checker.entries (c.run resolve o) es :=
    Checker.record_of_entries hm hconsistent.stop _
  have hkeyed := Checker.dict_of_entries hm hconsistent.lookup (c.run resolve o)
  rw [run_keyed resolve o hd, hrecord, hkeyed]
  refine ⟨fun d => ?_, fun e => ?_, fun r hr => ?_, fun r' hr' => ?_⟩
  · rw [Trace.map_eq_rejected_iff, Trace.map_eq_rejected_iff]
  · rw [Trace.map_eq_raised_iff, Trace.map_eq_raised_iff]
  · obtain ⟨rs, hrs, rfl⟩ := Trace.map_eq_done_iff.mp hr
    exact ⟨rs, rfl, Checker.keys_of_entries hrs, Trace.map_eq_done_iff.mpr ⟨rs, hrs, rfl⟩⟩
  · obtain ⟨rs, hrs, rfl⟩ := Trace.map_eq_done_iff.mp hr'
    exact ⟨rs, rfl, Checker.keys_of_entries hrs, Trace.map_eq_done_iff.mpr ⟨rs, hrs, rfl⟩⟩

theorem record_agrees_mixed_keys :
    let es : Table Value :=
      Table.ofPairs [(.int 1, .str "a"), (.str "1", .undefined), (.bool true, .str "b")]
    let fs : Table Value :=
      Table.ofPairs [(.null, .str "a"), (.tuple [.int 2], .int 3), (.str "z", .int 4)]
    let m : Value := .mapping "ChainMap" fs (some "KeyError") fs none
    let c : Validator := .optional .string
    let d : Diagnostic := ⟨["(2,)"], .int 3, [⟨"undefined", none⟩, ⟨"a string", none⟩]⟩
    let resolve : String → Checker := fun _ => .constant .null
    (Value.dict es).entries? = some es ∧ Table.Distinct es ∧ (Value.dict es).isForeign = false ∧
      ((record c).run resolve .default (.dict es)).outcome =
        .done (.dict [(.int 1, .str "b"), (.str "1", .undefined)]) ∧
      ((keyed c es).run resolve .default (.dict es)).outcome =
        .done (.dict [(.int 1, .str "b")]) ∧
      m.entries? = some fs ∧ Table.Distinct fs ∧ m.Consistent fs ∧
      ((record c).run resolve .default m).outcome = .rejected d ∧
      ((keyed c fs).run resolve .default m).outcome = .rejected d := by
  intro es fs m c d resolve
  have hes : Table.Distinct es := .ofPairs _
  have hfs : Table.Distinct fs := .ofPairs _
  have hsame : (Value.int 1).equal (.bool true) = true := by
    simp [Value.equal, Value.equalVia, Value.number?, Number.equal, Number.isNaN]
  have hother : (Value.int 1).equal (.str "1") = false := rfl
  -- the bool takes the place of the integer, under the key that is there
  have hfilled : es = [(.int 1, .str "b"), (.str "1", .undefined)] := by
    simp only [es, Table.ofPairs, List.foldl_cons, List.foldl_nil, Table.insert, hsame, hother,
      Bool.false_eq_true, if_true, if_false]
  have haccepts : ((record c).run resolve .default (.dict es)).outcome =
      .done (.dict [(.int 1, .str "b"), (.str "1", .undefined)]) := by
    rw [hfilled]
    rfl
  have hm : m.Consistent fs := by
    refine ⟨rfl, fun e he => ?_⟩
    have hfound : Table.lookup? fs e.1 = some e.2 := hfs.lookup he
    simp [m, Checker.lookup, Value.refusal?, Value.field, Value.held?, Value.unrolled, hfound]
  have hrejects : ((record c).run resolve .default m).outcome = .rejected d := rfl
  obtain ⟨-, -, hdone, -⟩ := record_agrees resolve .default c (m := .dict es) rfl hes
    fun h => absurd h Bool.false_ne_true
  obtain ⟨hrejected, -⟩ := record_agrees resolve .default c (m := m) rfl hfs fun _ => hm
  obtain ⟨rs, hrs, -, hkeyed⟩ := hdone _ haccepts
  cases hrs
  exact ⟨rfl, hes, rfl, haccepts, hkeyed, rfl, hfs, hm, hrejects, (hrejected d).mp hrejects⟩

end Validator

end Conform
