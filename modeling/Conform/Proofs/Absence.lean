import Conform.Proofs.CheckerOutcome
import Conform.Proofs.Defined
import Conform.Proofs.FirstOf
import Conform.Proofs.ValidatorTree
import Mathlib.Data.Set.Defs

namespace Conform

namespace Checker

structure KeepsDefined (c : Checker) : Prop where
  defined : ∀ {v w}, v.Defined → (c v).outcome = .done w → w.Defined
  absent : ∀ {w}, (c .undefined).outcome = .done w → w.AbsentOrDefined

def MakesDefined (c : Checker) : Prop :=
  ∀ v w, v.AbsentOrDefined → (c v).outcome = .done w → w.Defined

theorem MakesDefined.keeps {c : Checker} (h : c.MakesDefined) : c.KeepsDefined where
  defined hv hw := h _ _ (.inr hv) hw
  absent hw := .inr (h _ _ (.inl rfl) hw)

theorem MakesDefined.constant {w : Value} (hw : w.Defined) : MakesDefined (constant w) := by
  rintro v _ - ⟨⟩
  exact hw

theorem MakesDefined.map_copyOf {w : Value} (hw : w.Defined) (c : Checker) (o : Display.Options) :
    MakesDefined (map c (Validator.copyOf w o)) := by
  intro v u _ h
  obtain ⟨_, -, hu⟩ := Trace.bind_eq_done_iff.mp h
  unfold Validator.copyOf at hu
  split at hu
  next x hx =>
    cases hu
    exact hw.copy hx
  next => contradiction

theorem MakesDefined.json : MakesDefined json := by
  intro v w _ h
  unfold Checker.json at h
  split at h
  · split at h
    next hx =>
      cases h
      exact Json.ofText_defined hx
    · contradiction
    · contradiction
  · contradiction

namespace KeepsDefined

variable {c d : Checker} {cs : List Checker} {fs : Table Checker}

theorem absentOrDefined (h : c.KeepsDefined) {v w : Value} (hv : v.AbsentOrDefined)
    (hw : (c v).outcome = .done w) : w.AbsentOrDefined := by
  rcases hv with rfl | hv
  · exact h.absent hw
  · exact .inr (h.defined hv hw)

theorem of_same (h : ∀ v w, (c v).outcome = .done w → v = w) : c.KeepsDefined where
  defined hv hw := h _ _ hw ▸ hv
  absent hw := .inl (h _ _ hw).symm

theorem raise (f : Fault) : KeepsDefined fun _ => .raise f where
  defined _ h := by contradiction
  absent h := by contradiction

theorem test (p : Value → Option Bool) (l : String) : (test p l).KeepsDefined :=
  of_same fun _ _ h => (test_eq_done_iff.mp h).2

theorem intersection (cs : List Checker) : (intersection cs).KeepsDefined :=
  of_same fun _ _ h => (intersection_eq_done_iff.mp h).2

theorem list (h : c.KeepsDefined) : (list c).MakesDefined := by
  intro v w hv hw
  obtain ⟨xs, ys, hxs, hys, rfl⟩ := list_eq_done_iff.mp hw
  have hv' : v.Defined := hv.defined (Value.isUndefined_of_items hxs)
  refine Value.defined_list.mpr fun y hy => ?_
  obtain ⟨x, hx, hxy⟩ := exists_mem_of_map_eq hys hy
  have hx' : x.Defined := hv'.items hxs x hx
  rw [sparing_eq_done_iff, (Value.defined_iff.mp hx').1] at hxy
  exact h.defined hx' hxy

theorem record (h : c.KeepsDefined) : (record c).MakesDefined := by
  intro v w hv hw
  obtain ⟨es, ys, hes, hys, -, rfl⟩ := record_eq_done_iff.mp hw
  have hv' : v.Defined := hv.defined (Value.isUndefined_of_entries hes)
  have hentries := hv'.entries (.inl hes)
  refine Value.defined_dict.mpr fun e he => ?_
  obtain ⟨hk, hy⟩ := List.of_mem_zip he
  obtain ⟨f, hf, hfk⟩ := List.mem_map.mp hk
  obtain ⟨g, hg, hgy⟩ := exists_mem_of_map_eq hys hy
  exact ⟨hfk ▸ (hentries f hf).1, h.defined (hentries g hg).2 hgy⟩

theorem dict (hn : ∀ f ∈ fs, f.1.Defined) (h : ∀ f ∈ fs, f.2.KeepsDefined) :
    (dict fs).MakesDefined := by
  intro v w hv hw
  obtain ⟨-, ys, hys, rfl⟩ := dict_eq_done_iff.mp hw
  refine Value.defined_dict.mpr fun e he => ?_
  obtain ⟨he, hpresent⟩ := List.mem_filter.mp he
  obtain ⟨hk, hy⟩ := List.of_mem_zip he
  obtain ⟨f, hf, hfk⟩ := List.mem_map.mp hk
  obtain ⟨g, hg, hgy⟩ := exists_mem_of_map_eq hys hy
  have hy' : e.2.AbsentOrDefined :=
    (h g hg).absentOrDefined (hv.field g.1) (onField_eq_done_iff.mp hgy).2
  exact ⟨hfk ▸ hn f hf, hy'.defined (by simpa using hpresent)⟩

theorem snakeDict (h : ∀ f ∈ fs, f.2.KeepsDefined) : (snakeDict fs).MakesDefined := by
  intro v w hv hw
  obtain ⟨rs, hrs, -, rfl⟩ := snakeDict_eq_done_iff.mp hw
  refine Value.defined_dict.mpr fun e he => ?_
  obtain ⟨hr, hpresent⟩ := mem_narrowed.mp he
  obtain ⟨f, hf, hfe⟩ := exists_mem_of_map_eq hrs hr
  obtain ⟨name, -, hname, hy⟩ := snakeField_eq_done_ok_iff.mp hfe
  have hy' : e.2.AbsentOrDefined :=
    (h f hf).absentOrDefined (hv.field _) (onField_eq_done_iff.mp hy).2
  have hk : e.1.Defined := hname ▸ Value.defined_of_contents_nil rfl rfl
  exact ⟨hk, hy'.defined hpresent⟩

theorem union (h : ∀ c ∈ cs, c.KeepsDefined) : (union cs).KeepsDefined where
  defined hv hw := by
    obtain ⟨before, c, after, hc, -, hcw⟩ := firstOf_eq_done_iff.mp hw
    exact (h c (by simp [hc])).defined hv hcw
  absent hw := by
    obtain ⟨before, c, after, hc, -, hcw⟩ := firstOf_eq_done_iff.mp hw
    exact (h c (by simp [hc])).absent hcw

theorem label (h : c.KeepsDefined) (name : String) : (label name c).KeepsDefined where
  defined hv hw := h.defined hv (Trace.mapRejection_eq_done_iff.mp hw)
  absent hw := h.absent (Trace.mapRejection_eq_done_iff.mp hw)

theorem andThen (h : c.KeepsDefined) (h' : d.KeepsDefined) : (andThen c d).KeepsDefined where
  defined hv hw := by
    obtain ⟨u, hu, hw⟩ := Trace.bind_eq_done_iff.mp hw
    exact h'.defined (h.defined hv hu) hw
  absent hw := by
    obtain ⟨u, hu, hw⟩ := Trace.bind_eq_done_iff.mp hw
    exact h'.absentOrDefined (h.absent hu) hw

end KeepsDefined

end Checker

namespace Validator

/-- Built without functions, models and validators without a check, from constants and field names
that are defined. The references are those of lazy validators. -/
inductive Sealed (refs : Set String) : Validator → Prop
  | test (p : Value → Option Bool) (l : String) : Sealed refs (.test p l)
  | json : Sealed refs .json
  | constant {w : Value} (hw : w.Defined) : Sealed refs (.constant w)
  | list {c : Validator} (h : Sealed refs c) : Sealed refs (.list c)
  | dict {fs : List (Value × Validator)} (hn : ∀ f ∈ fs, f.1.Defined)
      (h : ∀ f ∈ fs, Sealed refs f.2) : Sealed refs (.dict fs)
  | snakeDict {fs : List (Value × Validator)} (h : ∀ f ∈ fs, Sealed refs f.2) :
      Sealed refs (.snakeDict fs)
  | record {c : Validator} (h : Sealed refs c) : Sealed refs (.record c)
  | union {cs : List Validator} (h : ∀ c ∈ cs, Sealed refs c) : Sealed refs (.union cs)
  | intersection (cs : List Validator) : Sealed refs (.intersection cs)
  | label {c : Validator} (name : String) (h : Sealed refs c) : Sealed refs (.label name c)
  | lazy {name : String} (h : name ∈ refs) : Sealed refs (.lazy name)
  | andThen {c d : Validator} (h : Sealed refs c) (h' : Sealed refs d) : Sealed refs (.andThen c d)
  | withDefault {w : Value} {c : Validator} (hw : w.Defined) (h : Sealed refs c) :
      Sealed refs (.withDefault w c)

theorem Sealed.keepsDefined {refs : Set String} {c : Validator} (h : c.Sealed refs)
    {resolve : String → Checker} (hr : ∀ name ∈ refs, (resolve name).KeepsDefined)
    (o : Display.Options) : (c.run resolve o).KeepsDefined := by
  induction h with
  | test p l => exact .test p l
  | json => exact Checker.MakesDefined.json.keeps
  | constant hw => exact (Checker.MakesDefined.constant hw).keeps
  | list _ ih => exact ih.list.keeps
  | dict hn _ ih =>
    rw [run_dict]
    apply Checker.MakesDefined.keeps
    exact Checker.KeepsDefined.dict (List.forall_mem_map.mpr hn) (List.forall_mem_map.mpr ih)
  | snakeDict _ ih =>
    rw [run_snakeDict]
    exact (Checker.KeepsDefined.snakeDict (List.forall_mem_map.mpr ih)).keeps
  | record _ ih => exact ih.record.keeps
  | union _ ih =>
    rw [run_union]
    exact .union (List.forall_mem_map.mpr ih)
  | intersection cs =>
    rw [run_intersection]
    exact .intersection _
  | label name _ ih => exact ih.label name
  | lazy hn => exact hr _ hn
  | andThen _ _ ih ih' => exact ih.andThen ih'
  | withDefault hw _ ih =>
    -- the one function among sealed validators makes a copy of the default, whatever it is given
    have hcopy := (Checker.MakesDefined.map_copyOf hw (run resolve o .undefined) o).keeps
    exact .union (List.forall_mem_cons.mpr ⟨ih, List.forall_mem_singleton.mpr hcopy⟩)

end Validator

namespace Definitions

variable {defs : Definitions} {refs : Set String}

theorem run_defined {c : Validator} (hc : c.Sealed refs)
    (hdefs : ∀ name ∈ refs, ∀ c, (defs.find? name >>= Schema.elaborate) = .ok c → c.Sealed refs)
    {o : Display.Options} {n : Nat} {v w : Value} (hv : v.Defined)
    (h : (c.run (defs.resolve o n) o v).outcome = .done w) : w.Defined := by
  have hresolve : ∀ name ∈ refs, (defs.resolve o n name).KeepsDefined :=
    resolve_induction Checker.KeepsDefined.raise
      (fun name hname c hc _ hr => (hdefs name hname c hc).keepsDefined hr o) n
  exact (hc.keepsDefined hresolve o).defined hv h

theorem run_defined_tree :
    let kids : Validator := .withDefault (.list []) (.list (.lazy "node"))
    let tag : Validator := .andThen .unknown (.optional .string)
    let node : Validator := .dict [(.str "tag", tag), (.str "kids", kids), (.str "any", .unknown)]
    let defs : Definitions := [("node", .validator node)]
    let v : Value := .dict [(.str "kids", .tuple [.dict [(.str "tag", .str "leaf")]])]
    let leaf : Value := .dict [(.str "tag", .str "leaf"), (.str "kids", .list [])]
    let w : Value := .dict [(.str "kids", .list [leaf])]
    node.Sealed {"node"} ∧ v.Defined ∧
      (node.run (defs.resolve .default 1) .default v).outcome = .done w ∧ w.Defined := by
  intro kids tag node defs v leaf w
  have hstr (s : String) : (Value.str s).Defined := Value.defined_of_contents_nil rfl rfl
  have htag : tag.Sealed {"node"} := by
    refine .andThen (.test _ _) (.union ?_)
    exact List.forall_mem_cons.mpr ⟨.test _ _, List.forall_mem_singleton.mpr (.test _ _)⟩
  have hkids : kids.Sealed {"node"} :=
    .withDefault (Value.defined_list.mpr (by simp)) (.list (.lazy rfl))
  have hnode : node.Sealed {"node"} := by
    refine .dict ?_ ?_
    · simpa using ⟨hstr "tag", hstr "kids", hstr "any"⟩
    · simpa using ⟨htag, hkids, .test _ _⟩
  have hdefs : ∀ name ∈ ({"node"} : Set String), ∀ c,
      (defs.find? name >>= Schema.elaborate) = .ok c → c.Sealed {"node"} := by
    rintro name rfl c hc
    cases hc
    exact hnode
  have hkid : (Value.dict [(.str "tag", .str "leaf")]).Defined :=
    Value.defined_dict.mpr (List.forall_mem_singleton.mpr ⟨hstr "tag", hstr "leaf"⟩)
  have hv : v.Defined := by
    refine Value.defined_dict.mpr (List.forall_mem_singleton.mpr ⟨hstr "kids", ?_⟩)
    exact Value.defined_iff.mpr ⟨rfl, List.forall_mem_singleton.mpr hkid⟩
  have hw : (node.run (defs.resolve .default 1) .default v).outcome = .done w := rfl
  exact ⟨hnode, hv, hw, run_defined hnode hdefs hv hw⟩

end Definitions

end Conform
