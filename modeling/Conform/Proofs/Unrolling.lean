import Conform.Proofs.ValueTree

namespace Conform.Value

theorem tieAll_eq_map (i : Identity) (nodes xs : List Value) :
    tieAll i nodes xs = xs.map (tie i nodes) := by
  induction xs with
  | nil => rfl
  | cons x xs ih => rw [tieAll, ih, List.map_cons]

theorem tieEntries_eq_map (i : Identity) (nodes : List Value) (es : List (Value × Value)) :
    tieEntries i nodes es = es.map fun e => (e.1.tie i nodes, e.2.tie i nodes) := by
  induction es with
  | nil => rfl
  | cons e es ih => rw [tieEntries, ih, List.map_cons]

theorem tieFields_eq_map (i : Identity) (nodes : List Value) (fs : List (String × Value)) :
    tieFields i nodes fs = fs.map fun f => (f.1, f.2.tie i nodes) := by
  induction fs with
  | nil => rfl
  | cons f fs ih => rw [tieFields, ih, List.map_cons]

/-- A change of nothing but references. -/
structure Relinks (f : Value → Value) : Prop where
  scalar : ∀ v : Value, v.isScalar = true → f v = v
  list : ∀ xs, f (.list xs) = .list (xs.map f)
  tuple : ∀ xs, f (.tuple xs) = .tuple (xs.map f)
  set : ∀ xs, f (.set xs) = .set (xs.map f)
  dict : ∀ es, f (.dict es) = .dict (es.map fun e => (f e.1, f e.2))
  view : ∀ es, f (.view es) = .view (es.map fun e => (f e.1, f e.2))
  mapping : ∀ type held refusal walked stop, f (.mapping type held refusal walked stop) =
    .mapping type (held.map fun e => (f e.1, f e.2)) refusal (walked.map fun e => (f e.1, f e.2))
      stop
  record : ∀ type fs, f (.record type fs) = .record type (fs.map fun e => (e.1, f e.2))
  tied : ∀ i nodes v, f (tie i nodes v) = tie i nodes v

theorem tie_tie (i j : Identity) (nodes others : List Value) (v : Value) :
    (v.tie j others).tie i nodes = v.tie j others := by
  have hentries : ∀ es : List (Value × Value), (∀ e ∈ es,
      (e.1.tie j others).tie i nodes = e.1.tie j others ∧
        (e.2.tie j others).tie i nodes = e.2.tie j others) →
      tieEntries i nodes (tieEntries j others es) = tieEntries j others es := by
    intro es h
    rw [tieEntries_eq_map i, tieEntries_eq_map, List.map_map]
    refine List.map_congr_left fun e he => ?_
    rw [Function.comp_apply, (h e he).1, (h e he).2]
  induction v with
  | list xs ih | tuple xs ih | set xs ih =>
    have hitems : tieAll i nodes (tieAll j others xs) = tieAll j others xs := by
      rw [tieAll_eq_map i, tieAll_eq_map, List.map_map]
      exact List.map_congr_left ih
    simp only [tie, hitems]
  | dict es ih | view es ih => simp only [tie, hentries es ih]
  | mapping type held refusal walked stop ihh ihw =>
    simp only [tie, hentries held ihh, hentries walked ihw]
  | record type fs ih =>
    have hfields : tieFields i nodes (tieFields j others fs) = tieFields j others fs := by
      rw [tieFields_eq_map i, tieFields_eq_map, List.map_map]
      refine List.map_congr_left fun f hf => ?_
      rw [Function.comp_apply, ih f hf]
    simp only [tie, hfields]
  | _ => rfl

theorem Relinks.id : Relinks id where
  scalar _ _ := rfl
  list xs := by simp
  tuple xs := by simp
  set xs := by simp
  dict es := by simp
  view es := by simp
  mapping type held refusal walked stop := by simp
  record type fs := by simp
  tied _ _ _ := rfl

theorem Relinks.tie (i : Identity) (nodes : List Value) : Relinks (tie i nodes) where
  scalar v hv := by cases v <;> first | rfl | contradiction
  list xs := by rw [Value.tie, tieAll_eq_map]
  tuple xs := by rw [Value.tie, tieAll_eq_map]
  set xs := by rw [Value.tie, tieAll_eq_map]
  dict es := by rw [Value.tie, tieEntries_eq_map]
  view es := by rw [Value.tie, tieEntries_eq_map]
  mapping type held refusal walked stop := by rw [Value.tie, tieEntries_eq_map, tieEntries_eq_map]
  record type fs := by rw [Value.tie, tieFields_eq_map]
  tied j others v := tie_tie i j nodes others v

variable {i : Identity} {nodes : List Value} {n : Nat} {v w : Value}

theorem unrolled_cyclic (hn : nodes[n]? = some v) (hv : v.isContainer = true) :
    (cyclic i nodes n).unrolled = v.tie i nodes := by
  simp [unrolled, hn, hv]

theorem unrolled_tie (hv : v.isContainer = true) :
    (v.tie i nodes).unrolled = v.tie i nodes := by
  cases v <;> first | rfl | contradiction

theorem unrolled_unrolled (v : Value) : v.unrolled.unrolled = v.unrolled := by
  cases v with
  | cyclic i nodes n =>
    cases hn : nodes[n]? with
    | none => simp [unrolled, hn]
    | some v =>
      cases hv : v.isContainer with
      | false => simp [unrolled, hn, hv]
      | true => rw [unrolled_cyclic hn hv, unrolled_tie hv]
  | _ => rfl

theorem unrolled_cyclic_eq_or (i : Identity) (nodes : List Value) (n : Nat) :
    (cyclic i nodes n).unrolled = .again n ∨
      ∃ v, nodes[n]? = some v ∧ v.isContainer = true ∧
        (cyclic i nodes n).unrolled = v.tie i nodes := by
  cases hn : nodes[n]? with
  | none => exact .inl (by simp [unrolled, hn])
  | some v =>
    cases hv : v.isContainer with
    | false => exact .inl (by simp [unrolled, hn, hv])
    | true => exact .inr ⟨v, rfl, hv, unrolled_cyclic hn hv⟩

theorem isContainer_tie (hv : v.isContainer = true) : (v.tie i nodes).isContainer = true := by
  cases v <;> first | rfl | contradiction

theorem unrolled_ne_cyclic (v : Value) (i : Identity) (nodes : List Value) (n : Nat) :
    v.unrolled ≠ .cyclic i nodes n := by
  intro h
  have hself := unrolled_unrolled v
  rw [h] at hself
  rcases unrolled_cyclic_eq_or i nodes n with hn | ⟨w, -, hw, hn⟩
  · rw [hn] at hself
    contradiction
  · have hr : (w.tie i nodes).isContainer = true := isContainer_tie hw
    rw [← hn, hself] at hr
    contradiction

def scalarKinds : List Kind :=
  [.undefined, .null, .bool, .int, .float, .decimal, .str, .bytes, .date, .datetime]

theorem unrolled_of_scalar_kind (h : v.kind ∈ scalarKinds) : v.unrolled = v := by
  cases v with
  | cyclic i nodes n =>
    rw [kind] at h
    rcases unrolled_cyclic_eq_or i nodes n with hn | ⟨w, -, hw, hn⟩
    · rw [hn] at h
      contradiction
    · rw [hn] at h
      cases w <;> contradiction
  | _ => rfl

theorem unrolled_of_isScalar (hs : v.isScalar = true) : v.unrolled = v := by
  cases v <;> first | rfl | contradiction

theorem isScalar_of_unrolled (h : v.unrolled.isScalar = true) : v.isScalar = true := by
  cases v with
  | cyclic i nodes n =>
    rcases unrolled_cyclic_eq_or i nodes n with hn | ⟨w, -, hw, hn⟩
    · rw [hn] at h
      contradiction
    · rw [hn] at h
      cases w <;> contradiction
  | _ => exact h

theorem Relinks.cyclic {f : Value → Value} (hf : Relinks f) (i : Identity) (nodes : List Value)
    (n : Nat) : f (.cyclic i nodes n) = .cyclic i nodes n := hf.tied i nodes (.again n)

theorem Relinks.unrolled {f : Value → Value} (hf : Relinks f) (hv : v.unrolled.isContainer = true) :
    (f v).unrolled = f v.unrolled := by
  have hfixed {v w : Value} (hv : v.unrolled = v) (hw : w.unrolled = w) (h : f v = w) :
      (f v).unrolled = f v.unrolled := by rw [hv, h, hw]
  cases v with
  | cyclic i nodes n =>
    rw [hf.cyclic]
    rcases unrolled_cyclic_eq_or i nodes n with h | ⟨v, -, -, h⟩
    · rw [h] at hv
      contradiction
    · rw [h, hf.tied]
  | again => contradiction
  | list xs => exact hfixed rfl rfl (hf.list xs)
  | tuple xs => exact hfixed rfl rfl (hf.tuple xs)
  | set xs => exact hfixed rfl rfl (hf.set xs)
  | dict es => exact hfixed rfl rfl (hf.dict es)
  | view es => exact hfixed rfl rfl (hf.view es)
  | mapping => exact hfixed rfl rfl (hf.mapping ..)
  | record => exact hfixed rfl rfl (hf.record ..)
  | _ => exact hfixed rfl rfl (hf.scalar _ rfl)

theorem isContainer_of_entries? {es : List (Value × Value)} (hv : v.entries? = some es) :
    v.unrolled.isContainer = true := by
  rw [entries?] at hv
  cases h : v.unrolled with
  | dict | view | mapping => rfl
  | _ =>
    rw [h] at hv
    contradiction

theorem Relinks.entries? {f : Value → Value} (hf : Relinks f) {es : List (Value × Value)}
    (hv : v.entries? = some es) : (f v).entries? = some (es.map fun e => (f e.1, f e.2)) := by
  have hunrolled := hf.unrolled (isContainer_of_entries? hv)
  rw [Value.entries?] at hv ⊢
  rw [hunrolled]
  generalize v.unrolled = u at hv
  cases u with
  | dict =>
    cases hv
    rw [hf.dict]
  | view =>
    cases hv
    rw [hf.view]
  | mapping =>
    cases hv
    rw [hf.mapping]
  | _ => contradiction

theorem forall₂_map_of_mem {α β γ δ : Type} {R : α → β → Prop} {S : γ → δ → Prop} {f : α → γ}
    {g : β → δ} {xs : List α} {ys : List β} (h : ∀ x ∈ xs, ∀ y, R x y → S (f x) (g y))
    (hxs : List.Forall₂ R xs ys) : List.Forall₂ S (xs.map f) (ys.map g) := by
  rw [List.forall₂_map_left_iff, List.forall₂_map_right_iff]
  exact ((List.forall₂_and_left _ _).mpr ⟨h, hxs⟩).imp fun _ y hxy => hxy.1 y hxy.2

theorem isNodeOf_relinked {g : Value → Value} (hg : Relinks g) {b : Value}
    (h : isNodeOf i nodes n b = true) : isNodeOf i nodes n (g b) = true := by
  cases b with
  | cyclic => rwa [hg.cyclic]
  | _ => contradiction

theorem Relinks.mapping_equalVia {f g : Value → Value} (hf : Relinks f) (hg : Relinks g)
    {known known' : Nat → Value → Bool} {a b : Value} {es : List (Value × Value)}
    (ha : a.unrolled = a) (hes : a.entries? = some es) (ih : ∀ e ∈ es,
      (∀ b, equalVia known e.1 b = true → equalVia known' (f e.1) (g b) = true) ∧
        ∀ b, equalVia known e.2 b = true → equalVia known' (f e.2) (g b) = true)
    (h : equalVia known a b = true) : equalVia known' (f a) (g b) = true := by
  obtain ⟨fs, hfs, hl, h⟩ := (mapping_equalVia_iff ha hes).mp h
  have hfa : (f a).unrolled = f a := by rw [hf.unrolled (isContainer_of_entries? hes), ha]
  refine (mapping_equalVia_iff hfa (hf.entries? hes)).mpr
    ⟨_, hg.entries? hfs, by simp [hl], List.forall_mem_map.mpr fun e he => ?_⟩
  obtain ⟨e', he', hk, hv⟩ := h e he
  exact ⟨_, List.mem_map_of_mem he', (ih e he).1 _ hk, (ih e he).2 _ hv⟩

theorem Relinks.equalVia {f g : Value → Value} (hf : Relinks f) (hg : Relinks g)
    {known known' : Nat → Value → Bool} {a b : Value}
    (hknown : ∀ n b, known n b = true → equalVia known' (f (.again n)) (g b) = true)
    (h : equalVia known a b = true) : equalVia known' (f a) (g b) = true := by
  induction a generalizing known known' f b with
  | list xs ih =>
    obtain ⟨ys, hb, hall⟩ := list_equalVia_iff.mp h
    rw [hf.list]
    refine list_equalVia_iff.mpr ⟨ys.map g, ?_, forall₂_map_of_mem (fun x hx _ => ih x hx hf hknown)
      hall⟩
    rw [hg.unrolled (by rw [hb]; rfl), hb, hg.list]
  | tuple xs ih =>
    obtain ⟨ys, hb, hall⟩ := tuple_equalVia_iff.mp h
    rw [hf.tuple]
    refine tuple_equalVia_iff.mpr ⟨ys.map g, ?_, forall₂_map_of_mem (fun x hx _ => ih x hx hf hknown)
      hall⟩
    rw [hg.unrolled (by rw [hb]; rfl), hb, hg.tuple]
  | set xs ih =>
    obtain ⟨ys, hb, hl, hall⟩ := set_equalVia_iff.mp h
    rw [hf.set]
    refine set_equalVia_iff.mpr ⟨ys.map g, ?_, by simp [hl], List.forall_mem_map.mpr fun x hx => ?_⟩
    · rw [hg.unrolled (by rw [hb]; rfl), hb, hg.set]
    · obtain ⟨y, hy, hxy⟩ := hall x hx
      exact ⟨g y, List.mem_map_of_mem hy, ih x hx hf hknown hxy⟩
  | dict es ih | view es ih =>
    exact hf.mapping_equalVia hg rfl rfl (fun e he => ⟨fun _ => (ih e he).1 hf hknown,
      fun _ => (ih e he).2 hf hknown⟩) h
  | mapping type held refusal walked stop _ ih =>
    exact hf.mapping_equalVia hg rfl rfl (fun e he => ⟨fun _ => (ih e he).1 hf hknown,
      fun _ => (ih e he).2 hf hknown⟩) h
  | record type fs ih =>
    obtain ⟨gs, hb, hall⟩ := record_equalVia_iff.mp h
    rw [hf.record]
    refine record_equalVia_iff.mpr ⟨gs.map fun e => (e.1, g e.2), ?_, forall₂_map_of_mem
      (fun e he e' h => ⟨h.1, ih e he hf hknown h.2⟩) hall⟩
    rw [hg.unrolled (by rw [hb]; rfl), hb, hg.record]
  | cyclic i nodes n ih =>
    rw [hf.cyclic, cyclic_equalVia]
    rw [cyclic_equalVia] at h
    -- the nodes refer to each other, so the rounds are gone through one by one
    have hrounds : ∀ k n b, knownAfter i nodes k n b = true →
        knownAfter i nodes k n (g b) = true := by
      intro k
      induction k with
      | zero =>
        intro _ _ h
        contradiction
      | succ k ihk =>
        intro n b h
        rcases knownAfter_succ_iff.mp h with h | ⟨v, hn, hv, h⟩
        · exact knownAfter_succ_iff.mpr (.inl (isNodeOf_relinked hg h))
        · exact knownAfter_succ_iff.mpr
            (.inr ⟨v, hn, hv, ih v (List.mem_of_getElem? hn) .id ihk h⟩)
    exact hrounds _ _ _ h
  | again n => exact hknown n b h
  | _ =>
    rw [hf.scalar _ rfl, scalar_equalVia rfl]
    rw [scalar_equalVia rfl] at h
    rwa [hg.scalar _ (isScalar_of_scalar_equal rfl h)]

theorem equalVia_mono {known known' : Nat → Value → Bool} {a b : Value}
    (hknown : ∀ n b, known n b = true → known' n b = true) (h : equalVia known a b = true) :
    equalVia known' a b = true :=
  Relinks.id.equalVia .id hknown h

theorem knownAfter_mono {b : Value} {k l : Nat} (hkl : k ≤ l)
    (h : knownAfter i nodes k n b = true) : knownAfter i nodes l n b = true := by
  induction k generalizing l n b with
  | zero => contradiction
  | succ k ih =>
    obtain ⟨l, rfl⟩ : ∃ m, l = m + 1 := ⟨l - 1, by omega⟩
    rcases knownAfter_succ_iff.mp h with h | ⟨v, hn, hv, h⟩
    · exact knownAfter_succ_iff.mpr (.inl h)
    · exact knownAfter_succ_iff.mpr
        (.inr ⟨v, hn, hv, equalVia_mono (fun m c => ih (Nat.le_of_succ_le_succ hkl)) h⟩)

theorem isNodeOf_iff {b : Value} : isNodeOf i nodes n b = true ↔
    ∃ others, b = .cyclic i others n ∧ nodes.map isContainer = others.map isContainer ∧
      List.Forall₂ (fun v w => v.equal w = true) nodes others := by
  constructor
  · intro h
    cases b with
    | cyclic j others m =>
      simp only [isNodeOf, Bool.and_eq_true, decide_eq_true_eq, beq_iff_eq] at h
      obtain ⟨⟨⟨rfl, rfl⟩, hr⟩, hall⟩ := h
      exact ⟨others, rfl, hr, allVia_iff.mp hall⟩
    | _ => contradiction
  · rintro ⟨others, rfl, hr, hall⟩
    have hvia : allVia (fun n b => b.isReferenceTo n) nodes others = true := allVia_iff.mpr hall
    simp [isNodeOf, hr, hvia]

theorem rel_getElem? {α β : Type} {R : α → β → Prop} {xs : List α} {ys : List β}
    (h : List.Forall₂ R xs ys) (n : Nat) : Option.Rel R xs[n]? ys[n]? := by
  induction h generalizing n with
  | nil => exact .none
  | cons hxy _ ih =>
    cases n with
    | zero => exact .some hxy
    | succ n => exact ih n

theorem equal_unrolled_of_same {b : Value} (h : isNodeOf i nodes n b = true) :
    (cyclic i nodes n).unrolled.equal b.unrolled = true := by
  obtain ⟨others, rfl, hr, hall⟩ := isNodeOf_iff.mp h
  have hkinds : nodes[n]?.map isContainer = others[n]?.map isContainer := by
    rw [← List.getElem?_map, hr, List.getElem?_map]
  have hrel := rel_getElem? hall n
  generalize hn : nodes[n]? = v, hm : others[n]? = w at hrel hkinds
  cases hrel with
  | none =>
    simp only [unrolled, hn, hm]
    exact equal_self _
  | @some v w hvw =>
    have hvr : v.isContainer = w.isContainer := Option.some.inj hkinds
    cases hv : v.isContainer with
    | false =>
      simp only [unrolled, hn, hm, hv, ← hvr, Bool.false_eq_true, if_false]
      exact equal_self _
    | true =>
      rw [unrolled_cyclic hn hv, unrolled_cyclic hm (hvr ▸ hv)]
      refine (Relinks.tie i nodes).equalVia (.tie i others) (fun m c hc => ?_) hvw
      -- a reference equals only a reference to the same node
      cases c with
      | again l =>
        obtain rfl : m = l := of_decide_eq_true hc
        have hsame : isNodeOf i nodes m (.cyclic i others m) = true :=
          isNodeOf_iff.mpr ⟨others, rfl, hr, hall⟩
        exact (knownAfter_succ_iff (k := 19999)).mpr (.inl hsame)
      | _ => contradiction

theorem equal_unrolled_right {a b : Value} (ha : a.unrolled = a) (h : a.equal b = true) :
    a.equal b.unrolled = true := by
  cases a with
  | list xs =>
    obtain ⟨ys, hb, hall⟩ := list_equalVia_iff.mp h
    exact list_equalVia_iff.mpr ⟨ys, by rw [unrolled_unrolled, hb], hall⟩
  | tuple xs =>
    obtain ⟨ys, hb, hall⟩ := tuple_equalVia_iff.mp h
    exact tuple_equalVia_iff.mpr ⟨ys, by rw [unrolled_unrolled, hb], hall⟩
  | set xs =>
    obtain ⟨ys, hb, hall⟩ := set_equalVia_iff.mp h
    exact set_equalVia_iff.mpr ⟨ys, by rw [unrolled_unrolled, hb], hall⟩
  | record type fs =>
    obtain ⟨gs, hb, hall⟩ := record_equalVia_iff.mp h
    exact record_equalVia_iff.mpr ⟨gs, by rw [unrolled_unrolled, hb], hall⟩
  | dict es | view es | mapping _ _ _ es _ =>
    obtain ⟨fs, hb, hall⟩ := (mapping_equalVia_iff rfl rfl).mp h
    refine (mapping_equalVia_iff rfl rfl).mpr ⟨fs, ?_, hall⟩
    rw [entries?, unrolled_unrolled]
    exact hb
  | cyclic i nodes n => exact absurd ha (unrolled_ne_cyclic _ i nodes n)
  | again n =>
    cases b with
    | again m => exact h
    | _ => contradiction
  | _ =>
    have hb := isScalar_of_scalar_equal rfl h
    have hfixed : b.unrolled = b := by cases b <;> first | rfl | contradiction
    rwa [hfixed]

theorem equal_unrolled {a b : Value} (h : a.equal b = true) :
    a.unrolled.equal b.unrolled = true := by
  cases a with
  | cyclic i nodes n =>
    rcases (knownAfter_succ_iff (k := 19999)).mp h with h | ⟨v, hn, hv, h⟩
    · exact equal_unrolled_of_same h
    · have hknown (m : Nat) (c : Value) (h : knownAfter i nodes 19999 m c = true) :
          (cyclic i nodes m).equal c = true := knownAfter_mono (Nat.le_succ _) h
      have htied : (v.tie i nodes).equal b = true :=
        (Relinks.tie i nodes).equalVia .id hknown h
      rw [unrolled_cyclic hn hv]
      exact equal_unrolled_right (unrolled_tie hv) htied
  | _ => exact equal_unrolled_right rfl h

end Conform.Value
