import Conform.Proofs.Approximation
import Conform.Proofs.FirstOf
import Conform.Proofs.ValueTree
import Conform.Validator.Stock
import Mathlib.Order.Filter.AtTopBot.Basic
import Mathlib.Order.Filter.Finite

/-!
Narrowing is idempotent: what a check has made of a value passes the same check unchanged. Entries
that were left out are absent in the second check, too, and defaults stand in the place of absence.
-/

namespace Conform

namespace Checker

variable {c : Checker}

theorem field_addEntry_of_ne {s t : String} {y : Value} {es : Table Value} (h : s ≠ t) :
    (Value.dict (addEntry (.str s) y es)).field (.str t) = (Value.dict es).field (.str t) := by
  have hst : (Value.str s).equal (.str t) = false := by
    simp [Value.equal, Value.equalVia, h]
  unfold addEntry
  split
  · rfl
  · simp [Value.field, Value.held?, Value.unrolled, Table.lookup?, hst]

theorem field_addEntry_self {s : String} {y : Value} {es : Table Value}
    (h : (Value.dict es).field (.str s) = .undefined) :
    (Value.dict (addEntry (.str s) y es)).field (.str s) = y := by
  unfold addEntry
  split
  next hy =>
    rw [h]
    cases y <;> trivial
  next => simp [Value.field, Value.held?, Value.unrolled, Table.lookup?, Value.equal_self]

theorem field_present_of_notMem {names : List String} {s : String} (hs : s ∉ names)
    (ys : List Value) :
    (Value.dict (present (names.map .str) ys)).field (.str s) = .undefined := by
  induction names generalizing ys with
  | nil => rfl
  | cons t names ih =>
    cases ys with
    | nil => rfl
    | cons y ys =>
      rw [List.map_cons, present_cons, field_addEntry_of_ne (List.ne_of_not_mem_cons hs).symm]
      exact ih (List.not_mem_of_not_mem_cons hs) ys

theorem field_present {names : List String} {ys : List Value} (hn : names.Nodup)
    (hl : names.length = ys.length) :
    names.map (fun s => (Value.dict (present (names.map .str) ys)).field (.str s)) = ys := by
  induction names generalizing ys with
  | nil => exact (List.eq_nil_of_length_eq_zero hl.symm).symm
  | cons t names ih =>
    obtain ⟨y, ys, rfl⟩ := List.exists_cons_of_length_eq_add_one hl.symm
    obtain ⟨ht, hn⟩ := List.nodup_cons.mp hn
    rw [List.map_cons, List.map_cons, present_cons,
      field_addEntry_self (field_present_of_notMem ht ys)]
    congr 1
    conv_rhs => rw [← ih hn (Nat.succ.inj hl)]
    apply List.map_congr_left
    intro s hs
    apply field_addEntry_of_ne
    rintro rfl
    exact ht hs

theorem record_eq_done_self {es : Table Value} (h : ∀ e ∈ es, (c e.2).outcome = .done e.2) :
    (record c (.dict es)).outcome = .done (.dict es) := by
  refine record_eq_done_iff.mpr ⟨es, es.map Prod.snd, rfl, ?_, rfl, ?_⟩
  · rw [List.map_map]
    exact List.map_congr_left h
  · have hz := List.zip_unzip es
    rw [List.unzip_eq_map] at hz
    rw [hz]

end Checker

def Definitions.Narrows (defs : Definitions) (o : Display.Options) (c : Validator) (v w : Value) :
    Prop :=
  ∃ n, (c.run (defs.resolve o n) o v).outcome = .done w

namespace Definitions

variable {defs : Definitions} {o : Display.Options}

theorem narrows_iff_eventually {c : Validator} {v w : Value} : defs.Narrows o c v w ↔
    ∀ᶠ n in Filter.atTop, (c.run (defs.resolve o n) o v).outcome = .done w := by
  constructor
  · rintro ⟨n, hn⟩
    exact Filter.eventually_atTop.mpr ⟨n, fun m hm => run_done_of_le defs o hm hn⟩
  · exact fun h => h.exists

theorem narrows_all {ι : Type} {is : List ι} {c : ι → Validator} {v w : ι → Value}
    (h : ∀ i ∈ is, defs.Narrows o (c i) (v i) (w i)) :
    ∃ n, ∀ i ∈ is, ((c i).run (defs.resolve o n) o (v i)).outcome = .done (w i) := by
  have he := (Filter.eventually_all_finite (List.finite_toSet is)).mpr
    fun i hi => narrows_iff_eventually.mp (h i hi)
  exact he.exists

def Repeats (defs : Definitions) (o : Display.Options) (n : Nat) (c : Validator) : Prop :=
  ∀ v w, (c.run (defs.resolve o n) o v).outcome = .done w → defs.Narrows o c w w

namespace Repeats

variable {n : Nat} {c : Validator}

theorem of_same (h : ∀ v w, (c.run (defs.resolve o n) o v).outcome = .done w → v = w) :
    defs.Repeats o n c := by
  intro v w hw
  obtain rfl := h v w hw
  exact ⟨n, hw⟩

theorem test (p : Value → Option Bool) (l : String) : defs.Repeats o n (.test p l) :=
  of_same fun _ _ h => (Checker.test_eq_done_iff.mp h).2

theorem intersection (ps : List Validator) : defs.Repeats o n (.intersection ps) := by
  apply of_same
  intro v w h
  rw [Validator.run_intersection] at h
  exact (Checker.intersection_eq_done_iff.mp h).2

theorem union_test {cs : List Validator} (hcs : ∀ c ∈ cs, ∃ p l, c = .test p l) :
    defs.Repeats o n (.union cs) := by
  apply of_same
  intro v w h
  rw [Validator.run_union] at h
  obtain ⟨before, c, after, hc, -, hw⟩ := Checker.firstOf_eq_done_iff.mp h
  have hmem : c ∈ cs.map (Validator.run (defs.resolve o n) o) := by simp [hc]
  obtain ⟨_, ht, rfl⟩ := List.mem_map.mp hmem
  obtain ⟨p, l, rfl⟩ := hcs _ ht
  exact (Checker.test_eq_done_iff.mp hw).2

theorem label (h : defs.Repeats o n c) (name : String) : defs.Repeats o n (.label name c) := by
  intro v w hw
  obtain ⟨m, hm⟩ := h v w (Trace.mapRejection_eq_done_iff.mp hw)
  exact ⟨m, Trace.mapRejection_eq_done_iff.mpr hm⟩

theorem list (h : defs.Repeats o n c) : defs.Repeats o n (.list c) := by
  intro v w hw
  obtain ⟨xs, ys, -, hys, rfl⟩ := Checker.list_eq_done_iff.mp hw
  have hpresent : ∀ y ∈ ys.filter (!·.isUndefined), defs.Narrows o c y y := by
    intro y hy
    obtain ⟨hy, hu⟩ := List.mem_filter.mp hy
    obtain ⟨x, -, hx⟩ := exists_mem_of_map_eq hys hy
    rw [Checker.sparing_eq_done_iff] at hx
    split at hx
    next hxu => simp [hx ▸ hxu] at hu
    next => exact h x y hx
  obtain ⟨m, hm⟩ := narrows_all hpresent
  refine ⟨m, Checker.list_eq_done_iff.mpr ⟨ys, ys, rfl, ?_, rfl⟩⟩
  apply List.map_congr_left
  intro y hy
  rw [Checker.sparing_eq_done_iff]
  split
  next => rfl
  next hu => exact hm y (List.mem_filter.mpr ⟨hy, by simp [hu]⟩)

theorem record (h : defs.Repeats o n c) : defs.Repeats o n (.record c) := by
  intro v w hw
  obtain ⟨es, ys, -, hys, -, rfl⟩ := Checker.record_eq_done_iff.mp hw
  have hvalue : ∀ e ∈ (es.map Prod.fst).zip ys, defs.Narrows o c e.2 e.2 := by
    intro e he
    obtain ⟨f, -, hf⟩ := exists_mem_of_map_eq hys (List.of_mem_zip he).2
    exact h f.2 e.2 hf
  obtain ⟨m, hm⟩ := narrows_all hvalue
  exact ⟨m, Checker.record_eq_done_self hm⟩

theorem dict {fs : List (String × Validator)} (hn : (fs.map Prod.fst).Nodup)
    (h : ∀ f ∈ fs, defs.Repeats o n f.2) :
    defs.Repeats o n (.dict (fs.map fun f => (.str f.1, f.2))) := by
  intro v w hw
  rw [Validator.run_dict, Checker.dict_eq_done_iff] at hw
  simp only [List.map_map, Function.comp_def] at hw
  obtain ⟨-, ys, hys, hw⟩ := hw
  have hl : (fs.map Prod.fst).length = ys.length := by simpa using congrArg List.length hys
  -- a field that was left out is absent again, which is what it gave
  have hfield : fs.map (fun f => w.field (.str f.1)) = ys := by
    have hp := Checker.field_present hn hl
    simpa only [List.map_map, Function.comp_def, hw] using hp
  have hdone : ∀ f ∈ fs, ((f.2.run (defs.resolve o n) o).onField (.str f.1) v).outcome =
      .done (w.field (.str f.1)) := by
    apply List.map_inj_left.mp
    rw [hys, ← hfield, List.map_map]
    rfl
  obtain ⟨m, hm⟩ := narrows_all fun f hf =>
    h f hf _ _ (Checker.onField_eq_done_iff.mp (hdone f hf)).2
  have hagain : ∀ f ∈ fs, ((f.2.run (defs.resolve o m) o).onField (.str f.1) w).outcome =
      .done (w.field (.str f.1)) := by
    intro f hf
    exact Checker.onField_eq_done_iff.mpr ⟨by rw [← hw]; rfl, hm f hf⟩
  refine ⟨m, ?_⟩
  rw [Validator.run_dict, Checker.dict_eq_done_iff]
  simp only [List.map_map, Function.comp_def]
  refine ⟨by rw [← hw]; rfl, ys, ?_, hw⟩
  rw [List.map_congr_left hagain, ← hfield, List.map_map]
  rfl

theorem optional (h : defs.Repeats o n c) : defs.Repeats o n (.optional c) := by
  intro v w hw
  rcases Checker.union_pair_eq_done_iff.mp hw with hu | ⟨-, hc⟩
  · obtain ⟨-, rfl⟩ := Checker.test_eq_done_iff.mp hu
    exact ⟨n, hw⟩
  · obtain ⟨m, hm⟩ := h v w hc
    refine ⟨m, Checker.union_pair_eq_done_iff.mpr ?_⟩
    by_cases hu : w.isUndefined = true
    · left
      exact Checker.test_eq_done_iff.mpr ⟨congrArg some hu, rfl⟩
    · right
      have hr : some w.isUndefined ≠ some true := fun hs => hu (Option.some.inj hs)
      exact ⟨⟨_, Checker.test_eq_rejected_iff.mpr ⟨hr, rfl⟩⟩, hm⟩

theorem nullable (h : defs.Repeats o n c) : defs.Repeats o n (.nullable c) := by
  intro v w hw
  rcases Checker.union_pair_eq_done_iff.mp hw with hc | ⟨-, hnull⟩
  · obtain ⟨m, hm⟩ := h v w hc
    exact ⟨m, Checker.union_pair_eq_done_iff.mpr (.inl hm)⟩
  · obtain ⟨-, rfl⟩ := Checker.test_eq_done_iff.mp hnull
    exact ⟨n, hw⟩

theorem withDefault {d : Value} (hd : ∀ x, d.copy? = some x → defs.Narrows o c x x)
    (h : defs.Repeats o n c) : defs.Repeats o n (.withDefault d c) := by
  intro v w hw
  suffices hc : defs.Narrows o c w w by
    obtain ⟨m, hm⟩ := hc
    exact ⟨m, Checker.union_pair_eq_done_iff.mpr (.inl hm)⟩
  rcases Checker.union_pair_eq_done_iff.mp hw with hc | ⟨-, hdefault⟩
  · exact h v w hc
  · obtain ⟨u, -, hu⟩ := Trace.bind_eq_done_iff.mp hdefault
    unfold Validator.copyOf at hu
    split at hu
    next x hx =>
      cases hu
      exact hd w hx
    next => contradiction

end Repeats

end Definitions

namespace Validator

/-- What checks its own results as it has checked what they came from. A default has to pass as the
copy that is handed out. The names are those of the definitions that lazy validators stand for. -/
inductive Stable (defs : Definitions) (o : Display.Options) (names : Set String) : Validator → Prop
  | test (p : Value → Option Bool) (l : String) : Stable defs o names (.test p l)
  | list {c : Validator} (h : Stable defs o names c) : Stable defs o names (.list c)
  | dict {fs : List (String × Validator)} (hn : (fs.map Prod.fst).Nodup)
      (h : ∀ f ∈ fs, Stable defs o names f.2) :
      Stable defs o names (.dict (fs.map fun f => (.str f.1, f.2)))
  | record {c : Validator} (h : Stable defs o names c) : Stable defs o names (.record c)
  | intersection (ps : List Validator) : Stable defs o names (.intersection ps)
  | label {c : Validator} (name : String) (h : Stable defs o names c) :
      Stable defs o names (.label name c)
  | union {cs : List Validator} (h : ∀ c ∈ cs, ∃ p l, c = .test p l) :
      Stable defs o names (.union cs)
  | optional {c : Validator} (h : Stable defs o names c) : Stable defs o names (.optional c)
  | nullable {c : Validator} (h : Stable defs o names c) : Stable defs o names (.nullable c)
  | withDefault {d : Value} {c : Validator} (hd : ∀ x, d.copy? = some x → defs.Narrows o c x x)
      (h : Stable defs o names c) : Stable defs o names (.withDefault d c)
  | lazy {name : String} (h : name ∈ names) : Stable defs o names (.lazy name)

theorem Stable.repeats {defs : Definitions} {o : Display.Options} {names : Set String} {n : Nat}
    {c : Validator} (hc : c.Stable defs o names)
    (h : ∀ name ∈ names, defs.Repeats o n (.lazy name)) : defs.Repeats o n c := by
  induction hc with
  | test p l => exact .test p l
  | list _ ih => exact ih.list
  | dict hn _ ih => exact .dict hn ih
  | record _ ih => exact ih.record
  | intersection ps => exact .intersection ps
  | label name _ ih => exact ih.label name
  | union hcs => exact .union_test hcs
  | optional _ ih => exact ih.optional
  | nullable _ ih => exact ih.nullable
  | withDefault hd _ ih => exact ih.withDefault hd
  | lazy hname => exact h _ hname

end Validator

namespace Definitions

variable {defs : Definitions} {o : Display.Options} {names : Set String}

theorem repeats_lazy (hdefs : ∀ name ∈ names, ∀ c, (defs.find? name >>= Schema.elaborate) = .ok c →
    c.Stable defs o names) (n : Nat) : ∀ name ∈ names, defs.Repeats o n (.lazy name) := by
  induction n with
  | zero =>
    intro name _ v w h
    contradiction
  | succ n ih =>
    intro name hname v w h
    change (defs.resolve o (n + 1) name v).outcome = .done w at h
    rw [resolve] at h
    split at h
    next c hc =>
      -- the names that the definition refers to have one lookup less
      obtain ⟨m, hm⟩ := (hdefs name hname c hc).repeats ih v w h
      refine ⟨m + 1, ?_⟩
      change (defs.resolve o (m + 1) name w).outcome = .done w
      rw [resolve, hc]
      exact hm
    next => contradiction

theorem narrows_again {c : Validator} (hc : c.Stable defs o names)
    (hdefs : ∀ name ∈ names, ∀ c, (defs.find? name >>= Schema.elaborate) = .ok c →
      c.Stable defs o names) {v w : Value} (h : defs.Narrows o c v w) : defs.Narrows o c w w := by
  obtain ⟨n, hn⟩ := h
  exact hc.repeats (repeats_lazy hdefs n) v w hn

theorem narrows_again_tree :
    let kids : Validator := .list (.lazy "node")
    let fs : List (String × Validator) :=
      [("label", .optional .string), ("kids", .withDefault (.list []) kids)]
    let node : Validator := .dict (fs.map fun f => (.str f.1, f.2))
    let defs : Definitions := [("node", .validator node)]
    let v : Value := .dict [(.str "kids", .tuple [.undefined, .dict []]), (.str "other", .int 1)]
    let w : Value := .dict [(.str "kids", .list [.undefined, .dict [(.str "kids", .list [])]])]
    node.Stable defs .default {"node"} ∧ defs.Narrows .default node v w ∧
      defs.Narrows .default node w w := by
  intro kids fs node defs v w
  have hkids : Validator.Stable defs .default {"node"} (.withDefault (.list []) kids) := by
    refine .withDefault (fun x hx => ?_) (.list (.lazy rfl))
    cases hx
    exact ⟨0, rfl⟩
  have hnode : node.Stable defs .default {"node"} := by
    refine .dict (by decide) fun f hf => ?_
    rcases List.mem_pair.mp hf with rfl | rfl
    · exact .optional (.test _ _)
    · exact hkids
  have hdefs : ∀ name ∈ ({"node"} : Set String), ∀ c,
      (defs.find? name >>= Schema.elaborate) = .ok c → c.Stable defs .default {"node"} := by
    rintro name rfl c hc
    cases hc
    exact hnode
  have hv : defs.Narrows .default node v w := ⟨1, rfl⟩
  exact ⟨hnode, hv, narrows_again hnode hdefs hv⟩

theorem withDefault_object_not_again :
    let d : Value := .object "Opaque" (.given 0)
    let c : Validator := .literal d
    Narrows [] .default c d d ∧ ∃ w, Narrows [] .default (.withDefault d c) .undefined w ∧
      ¬ Narrows [] .default (.withDefault d c) w w := by
  intro d c
  refine ⟨⟨0, rfl⟩, .object "Opaque" (.copied (.given 0) none), ⟨0, rfl⟩, ?_⟩
  rintro ⟨n, h⟩
  contradiction

end Definitions

end Conform
