import Conform.Json.Reader
import Conform.Proofs.Coercion
import Conform.Proofs.Unrolling
import Conform.Value.Copy

namespace Conform

namespace Value

def contents (v : Value) : List Value :=
  match v.unrolled with
  | .list xs => xs
  | .tuple xs => xs
  | .set xs => xs
  | .dict es => es.flatMap fun e => [e.1, e.2]
  | .view es => es.flatMap fun e => [e.1, e.2]
  | .mapping _ held _ walked _ => (held ++ walked).flatMap fun e => [e.1, e.2]
  | .record _ fs => fs.map Prod.snd
  | _ => []

inductive Occurs (u : Value) : Value → Prop
  | here : Occurs u u
  | within {x v : Value} (hx : x ∈ v.contents) (h : Occurs u x) : Occurs u v

def Defined (v : Value) : Prop := ¬ Occurs .undefined v

theorem defined_iff {v : Value} :
    v.Defined ↔ v.isUndefined = false ∧ ∀ x ∈ v.contents, x.Defined := by
  constructor
  · intro h
    refine ⟨?_, fun x hx hu => h (.within hx hu)⟩
    cases v with
    | undefined => exact absurd .here h
    | _ => rfl
  · rintro ⟨hv, hc⟩ h
    cases h with
    | here => contradiction
    | within hx h => exact hc _ hx h

theorem defined_of_contents_nil {v : Value} (hv : v.isUndefined = false) (hc : v.contents = []) :
    v.Defined := by
  rw [defined_iff, hc]
  exact ⟨hv, by simp⟩

theorem defined_list {xs : List Value} : (Value.list xs).Defined ↔ ∀ x ∈ xs, x.Defined :=
  defined_iff.trans (and_iff_right rfl)

theorem forall_contents_entries {P : Value → Prop} {es : Table Value} :
    (∀ x ∈ es.flatMap fun e => [e.1, e.2], P x) ↔ ∀ e ∈ es, P e.1 ∧ P e.2 := by
  simp only [List.forall_mem_flatMap, List.forall_mem_cons, List.not_mem_nil, false_implies,
    implies_true, and_true]

theorem defined_dict {es : Table Value} :
    (Value.dict es).Defined ↔ ∀ e ∈ es, e.1.Defined ∧ e.2.Defined :=
  defined_iff.trans ((and_iff_right rfl).trans forall_contents_entries)

theorem isUndefined_of_items {v : Value} {xs : List Value} (h : v.items? = some xs) :
    v.isUndefined = false := by
  cases v with
  | undefined => contradiction
  | _ => rfl

theorem isUndefined_of_entries {v : Value} {es : Table Value} (h : v.entries? = some es) :
    v.isUndefined = false := by
  cases v with
  | undefined => contradiction
  | _ => rfl

theorem contents_of_items {v : Value} {xs : List Value} (h : v.items? = some xs) :
    v.contents = xs := by
  rw [items?] at h
  unfold contents
  split at h <;> simp_all

theorem mem_contents_of_entries {v : Value} {es : Table Value}
    (h : v.entries? = some es ∨ v.held? = some es) {e : Value × Value} (he : e ∈ es) :
    e.1 ∈ v.contents ∧ e.2 ∈ v.contents := by
  have hmem {fs : Table Value} (hf : e ∈ fs) : e.1 ∈ (fs.flatMap fun e => [e.1, e.2]) ∧
      e.2 ∈ fs.flatMap fun e => [e.1, e.2] :=
    ⟨List.mem_flatMap.mpr ⟨e, hf, by simp⟩, List.mem_flatMap.mpr ⟨e, hf, by simp⟩⟩
  rw [entries?, held?] at h
  unfold contents
  cases hv : v.unrolled with
  | dict fs | view fs =>
    rw [hv] at h
    rcases h with ⟨⟨⟩⟩ | ⟨⟨⟩⟩ <;> exact hmem he
  | mapping type held refusal walked stop =>
    rw [hv] at h
    rcases h with ⟨⟨⟩⟩ | ⟨⟨⟩⟩
    · exact hmem (List.mem_append_right _ he)
    · exact hmem (List.mem_append_left _ he)
  | _ =>
    rw [hv] at h
    rcases h with h | h <;> contradiction

namespace Defined

variable {v w : Value}

theorem items {xs : List Value} (hv : v.Defined) (h : v.items? = some xs) :
    ∀ x ∈ xs, x.Defined := by
  rw [← contents_of_items h]
  exact (defined_iff.mp hv).2

theorem entries {es : Table Value} (hv : v.Defined)
    (h : v.entries? = some es ∨ v.held? = some es) : ∀ e ∈ es, e.1.Defined ∧ e.2.Defined := by
  intro e he
  obtain ⟨hk, hx⟩ := mem_contents_of_entries h he
  exact ⟨(defined_iff.mp hv).2 _ hk, (defined_iff.mp hv).2 _ hx⟩

end Defined

def AbsentOrDefined (v : Value) : Prop := v = .undefined ∨ v.Defined

namespace AbsentOrDefined

variable {v : Value}

theorem defined (hv : v.AbsentOrDefined) (h : v.isUndefined = false) : v.Defined := by
  rcases hv with rfl | hv
  · contradiction
  · exact hv

theorem field (hv : v.AbsentOrDefined) (k : Value) : (v.field k).AbsentOrDefined := by
  rcases hv with rfl | hv
  · exact .inl rfl
  · unfold Value.field
    cases hes : v.held? with
    | none => exact .inl rfl
    | some es =>
      cases hx : Table.lookup? es k with
      | none => exact .inl (by simp only [hx, Option.getD_none])
      | some x =>
        obtain ⟨e, he, rfl⟩ := Option.map_eq_some_iff.mp hx
        simp only [hx, Option.getD_some]
        exact .inr (hv.entries (.inr hes) e (List.mem_of_find?_eq_some he)).2

end AbsentOrDefined

theorem Places.mem_taken {p : Places} {e : UInt64 × Value} : e ∈ p.taken ↔ some e ∈ p.toList := by
  simp [taken]

theorem Places.mem_taken_put {p : Places} {e f : UInt64 × Value} (h : f ∈ (p.put e).taken) :
    f ∈ p.taken ∨ f = e := by
  rw [mem_taken, put, Array.toList_setIfInBounds] at h
  rcases List.mem_or_eq_of_mem_set h with h | h
  · exact .inl (mem_taken.mpr h)
  · exact .inr (Option.some.inj h)

theorem Places.mem_taken_foldl {g : Places → UInt64 × Value → Places}
    (hg : ∀ p e f, f ∈ (g p e).taken → f ∈ p.taken ∨ f = e) {p : Places}
    {es : List (UInt64 × Value)} {f : UInt64 × Value} (h : f ∈ (es.foldl g p).taken) :
    f ∈ p.taken ∨ f ∈ es := by
  induction es generalizing p with
  | nil => exact .inl h
  | cons e es ih =>
    rcases ih h with h | h
    · rcases hg p e f h with h | rfl
      · exact .inl h
      · exact .inr (by simp)
    · exact .inr (List.mem_cons_of_mem _ h)

theorem Places.taken_empty (size : Nat) : (empty size).taken = [] := by
  simp [taken, empty]

theorem Places.mem_taken_add {p : Places} {e f : UInt64 × Value} (h : f ∈ (p.add e).taken) :
    f ∈ p.taken ∨ f = e := by
  simp only [add] at h
  split at h
  · exact mem_taken_put h
  -- the added entry is among those that move to the larger table
  · rcases mem_taken_foldl (fun _ _ _ => mem_taken_put) h with h | h
    · rw [taken_empty] at h
      contradiction
    · exact mem_taken_put h

theorem mem_of_mem_arrange {xs : List Value} {x : Value} (h : x ∈ arrange xs) : x ∈ xs := by
  unfold arrange at h
  split at h
  next hs _ =>
    obtain ⟨f, hf, rfl⟩ := List.mem_map.mp h
    rcases Places.mem_taken_foldl (fun _ _ _ => Places.mem_taken_add) hf with hf | hf
    · rw [Places.taken_empty] at hf
      contradiction
    · exact (List.of_mem_zip hf).2
  next => exact h

theorem forall₂_of_copyAll {xs ys : List Value} (h : copyAll? xs = some ys) :
    List.Forall₂ (fun x y => x.copy? = some y) xs ys := by
  induction xs generalizing ys with
  | nil =>
    cases h
    exact .nil
  | cons x xs ih =>
    obtain ⟨y, hy, h⟩ := Option.bind_eq_some_iff.mp h
    obtain ⟨zs, hzs, h⟩ := Option.bind_eq_some_iff.mp h
    cases h
    exact .cons hy (ih hzs)

theorem exists_of_copyAll {xs ys : List Value} (h : copyAll? xs = some ys) {y : Value}
    (hy : y ∈ ys) : ∃ x ∈ xs, x.copy? = some y := by
  obtain ⟨n, hn⟩ := List.mem_iff_getElem?.mp hy
  have hrel := rel_getElem? (forall₂_of_copyAll h) n
  rw [hn] at hrel
  generalize hx : xs[n]? = x at hrel
  cases hrel with
  | some hxy => exact ⟨_, List.mem_of_getElem? hx, hxy⟩

theorem exists_of_copyEntries {es fs : Table Value} (h : copyEntries? es = some fs) :
    ∀ f ∈ fs, ∃ e ∈ es, e.1.copy? = some f.1 ∧ e.2.copy? = some f.2 := by
  induction es generalizing fs with
  | nil => cases h; simp
  | cons e es ih =>
    obtain ⟨l, hl, h⟩ := Option.bind_eq_some_iff.mp h
    obtain ⟨w, hw, h⟩ := Option.bind_eq_some_iff.mp h
    obtain ⟨gs, hgs, h⟩ := Option.bind_eq_some_iff.mp h
    cases h
    refine List.forall_mem_cons.mpr ⟨⟨e, by simp, hl, hw⟩, fun g hg => ?_⟩
    obtain ⟨u, hu, hug⟩ := ih hgs g hg
    exact ⟨u, List.mem_cons_of_mem _ hu, hug⟩

theorem of_copy {v w : Value} (h : v.copy? = some w) :
    w.isContainer = v.isContainer ∧ w.isUndefined = v.isUndefined := by
  cases v with
  | list | tuple | set | dict | cyclic =>
    obtain ⟨_, -, rfl⟩ := Option.map_eq_some_iff.mp h
    exact ⟨rfl, rfl⟩
  | mapping =>
    obtain ⟨_, -, h⟩ := Option.bind_eq_some_iff.mp h
    obtain ⟨_, -, h⟩ := Option.bind_eq_some_iff.mp h
    cases h
    exact ⟨rfl, rfl⟩
  | view => contradiction
  | _ =>
    cases h
    exact ⟨rfl, rfl⟩

theorem exists_contents_of_copyEntries {es fs : Table Value} (h : copyEntries? es = some fs) :
    ∀ y ∈ fs.flatMap fun e => [e.1, e.2], ∃ x ∈ es.flatMap fun e => [e.1, e.2],
      x.copy? = some y := by
  refine forall_contents_entries.mpr fun f hf => ?_
  obtain ⟨e, he, hk, hv⟩ := exists_of_copyEntries h f hf
  exact ⟨⟨e.1, List.mem_flatMap.mpr ⟨e, he, by simp⟩, hk⟩,
    ⟨e.2, List.mem_flatMap.mpr ⟨e, he, by simp⟩, hv⟩⟩

def CopyOrSame (v w : Value) : Prop := v.copy? = some w ∨ v = w

theorem CopyOrSame.contents {v w : Value} (h : CopyOrSame v w) (hv : v.isContainer = true) :
    ∀ y ∈ w.contents, ∃ x ∈ v.contents, CopyOrSame x y := by
  rcases h with h | rfl
  · cases v with
    | list | tuple =>
      obtain ⟨ys, hys, rfl⟩ := Option.map_eq_some_iff.mp h
      intro y hy
      obtain ⟨x, hx, hxy⟩ := exists_of_copyAll hys hy
      exact ⟨x, hx, .inl hxy⟩
    | set =>
      obtain ⟨ys, hys, rfl⟩ := Option.map_eq_some_iff.mp h
      intro y hy
      obtain ⟨x, hx, hxy⟩ := exists_of_copyAll hys (mem_of_mem_arrange hy)
      exact ⟨x, hx, .inl hxy⟩
    | dict =>
      obtain ⟨fs, hfs, rfl⟩ := Option.map_eq_some_iff.mp h
      intro y hy
      obtain ⟨x, hx, hxy⟩ := exists_contents_of_copyEntries hfs y hy
      exact ⟨x, hx, .inl hxy⟩
    | mapping type held refusal walked stop =>
      obtain ⟨fs, hfs, h⟩ := Option.bind_eq_some_iff.mp h
      obtain ⟨gs, hgs, h⟩ := Option.bind_eq_some_iff.mp h
      cases h
      intro y hy
      change y ∈ (fs ++ gs).flatMap _ at hy
      change ∃ x ∈ (held ++ walked).flatMap _, _
      simp only [List.flatMap_append, List.mem_append] at hy ⊢
      rcases hy with hy | hy
      · obtain ⟨x, hx, hxy⟩ := exists_contents_of_copyEntries hfs y hy
        exact ⟨x, .inl hx, .inl hxy⟩
      · obtain ⟨x, hx, hxy⟩ := exists_contents_of_copyEntries hgs y hy
        exact ⟨x, .inr hx, .inl hxy⟩
    | record =>
      cases h
      exact fun y hy => ⟨y, hy, .inr rfl⟩
    | _ => contradiction
  · exact fun y hy => ⟨y, hy, .inr rfl⟩

theorem Relinks.contents {f : Value → Value} (hf : Relinks f) {v : Value}
    (hv : v.isContainer = true) : (f v).contents = v.contents.map f := by
  have hentries (es : Table Value) : ((es.map fun e => (f e.1, f e.2)).flatMap fun e => [e.1, e.2]) =
      (es.flatMap fun e => [e.1, e.2]).map f := by
    rw [List.flatMap_map, List.map_flatMap]
    rfl
  cases v with
  | list => rw [hf.list]; rfl
  | tuple => rw [hf.tuple]; rfl
  | set => rw [hf.set]; rfl
  | dict es => rw [hf.dict]; exact hentries es
  | view es => rw [hf.view]; exact hentries es
  | mapping type held refusal walked stop =>
    rw [hf.mapping]
    change ((held.map _ ++ walked.map _).flatMap _) = _
    rw [← List.map_append]
    exact hentries (held ++ walked)
  | record type fs =>
    rw [hf.record]
    change (fs.map _).map Prod.snd = (fs.map Prod.snd).map f
    rw [List.map_map, List.map_map]
    rfl
  | _ => contradiction

inductive Copied : Value → Value → Prop
  | whole {v w : Value} (h : CopyOrSame v w) : Copied v w
  | tied {i : Identity} {nodes copies : List Value} {v w : Value}
      (hn : copyAll? nodes = some copies) (h : CopyOrSame v w) :
      Copied (v.tie i nodes) (w.tie (.copied i none) copies)

namespace Copied

variable {i : Identity} {nodes copies : List Value} {v w : Value}

theorem contents_tied (hn : copyAll? nodes = some copies) (h : CopyOrSame v w)
    (hv : v.isContainer = true) : ∀ y ∈ (w.tie (.copied i none) copies).contents,
      ∃ x ∈ (v.tie i nodes).contents, Copied x y := by
  have hw : w.isContainer = true := by
    rcases h with h | rfl
    · rw [(of_copy h).1, hv]
    · exact hv
  rw [(Relinks.tie _ copies).contents hw, (Relinks.tie i nodes).contents hv]
  refine List.forall_mem_map.mpr fun y hy => ?_
  obtain ⟨x, hx, hxy⟩ := h.contents hv y hy
  exact ⟨_, List.mem_map_of_mem hx, .tied hn hxy⟩

theorem contents_cyclic (hn : copyAll? nodes = some copies) (n : Nat) :
    ∀ y ∈ (Value.cyclic (.copied i none) copies n).contents,
      ∃ x ∈ (Value.cyclic i nodes n).contents, Copied x y := by
  intro y hy
  rw [contents] at hy
  rcases unrolled_cyclic_eq_or (.copied i none) copies n with h | ⟨w, hw, hc, h⟩
  · rw [h] at hy
    contradiction
  · have hrel := rel_getElem? (forall₂_of_copyAll hn) n
    rw [hw] at hrel
    generalize hv : nodes[n]? = v at hrel
    cases hrel with
    | @some v _ hvw =>
      have hvc : v.isContainer = true := by rw [← (of_copy hvw).1, hc]
      rw [h, ← unrolled_tie hc] at hy
      rw [contents, unrolled_cyclic hv hvc, ← unrolled_tie hvc]
      exact contents_tied hn (.inl hvw) hvc y hy

theorem contents_of_not_container (hv : v.isContainer = false) (h : CopyOrSame v w) :
    w.contents = [] ∨ (∃ j others m, v = .cyclic j others m) := by
  rcases h with h | rfl
  · cases v with
    | cyclic j others m => exact .inr ⟨j, others, m, rfl⟩
    | list | tuple | set | dict | view | mapping | record => contradiction
    | _ =>
      cases h
      exact .inl rfl
  · cases v with
    | cyclic j others m => exact .inr ⟨j, others, m, rfl⟩
    | list | tuple | set | dict | view | mapping | record => contradiction
    | _ => exact .inl rfl

theorem contents_whole (h : CopyOrSame v w) :
    ∀ y ∈ w.contents, ∃ x ∈ v.contents, Copied x y := by
  intro y hy
  cases hv : v.isContainer with
  | true =>
    obtain ⟨x, hx, hxy⟩ := h.contents hv y hy
    exact ⟨x, hx, .whole hxy⟩
  | false =>
    rcases contents_of_not_container hv h with hw | ⟨j, others, m, rfl⟩
    · rw [hw] at hy
      contradiction
    · rcases h with h | rfl
      · obtain ⟨copies, hn, rfl⟩ := Option.map_eq_some_iff.mp h
        exact contents_cyclic hn m y hy
      · exact ⟨y, hy, .whole (.inr rfl)⟩

theorem contents (h : Copied v w) : ∀ y ∈ w.contents, ∃ x ∈ v.contents, Copied x y := by
  cases h with
  | whole h => exact contents_whole h
  | @tied i nodes copies v w hn h =>
    cases hv : v.isContainer with
    | true => exact contents_tied hn h hv
    | false =>
      cases v with
      | again n =>
        obtain rfl : Value.again n = w := by
          rcases h with h | h
          · exact Option.some.inj h
          · exact h
        exact contents_cyclic hn n
      | list | tuple | set | dict | view | mapping | record => contradiction
      | cyclic j others m =>
        have hw : w.tie (.copied i none) copies = w := by
          rcases h with h | rfl
          · obtain ⟨_, -, rfl⟩ := Option.map_eq_some_iff.mp h
            rfl
          · rfl
        rw [hw]
        exact contents_whole h
      | _ =>
        have hw : (w.tie (.copied i none) copies).contents = [] := by
          rcases h with h | rfl
          · cases h
            rfl
          · rfl
        rw [hw]
        nofun

theorem isUndefined (h : Copied v w) : w.isUndefined = v.isUndefined := by
  have hsame {v w : Value} (h : CopyOrSame v w) : w.isUndefined = v.isUndefined := by
    rcases h with h | rfl
    · exact (of_copy h).2
    · rfl
  have htie (i : Identity) (nodes : List Value) (v : Value) :
      (v.tie i nodes).isUndefined = v.isUndefined := by cases v <;> rfl
  cases h with
  | whole h => exact hsame h
  | tied _ h => rw [htie, htie, hsame h]

theorem occurs {u : Value} (hu : u.isUndefined = true) (h : Occurs u w) :
    ∀ v, Copied v w → Occurs .undefined v := by
  induction h with
  | here =>
    intro v hv
    rw [hv.isUndefined] at hu
    cases v <;> first | exact .here | contradiction
  | within hx _ ih =>
    intro v hv
    obtain ⟨y, hy, hyx⟩ := hv.contents _ hx
    exact .within hy (ih y hyx)

end Copied

theorem Defined.copy {v w : Value} (hv : v.Defined) (h : v.copy? = some w) : w.Defined :=
  fun hu => hv (Copied.occurs rfl hu v (.whole (.inl h)))

end Value

theorem Table.forall_mem_insert {α : Type} {P : Value → Prop} {Q : α → Prop} {t : Table α}
    {k : Value} {a : α} (ht : ∀ e ∈ t, P e.1 ∧ Q e.2) (hk : P k) (ha : Q a) :
    ∀ e ∈ t.insert k a, P e.1 ∧ Q e.2 := by
  induction t with
  | nil => simpa [insert] using ⟨hk, ha⟩
  | cons e t ih =>
    obtain ⟨he, ht⟩ := List.forall_mem_cons.mp ht
    rw [insert]
    split
    · exact List.forall_mem_cons.mpr ⟨⟨he.1, ha⟩, ht⟩
    · exact List.forall_mem_cons.mpr ⟨he, ih ht⟩

theorem Table.forall_mem_ofPairs {α : Type} {P : Value → Prop} {Q : α → Prop}
    {es : List (Value × α)} (h : ∀ e ∈ es, P e.1 ∧ Q e.2) : ∀ e ∈ ofPairs es, P e.1 ∧ Q e.2 := by
  unfold ofPairs
  have hrun : ∀ t : Table α, (∀ e ∈ t, P e.1 ∧ Q e.2) →
      ∀ e ∈ es.foldl (fun t e => t.insert e.1 e.2) t, P e.1 ∧ Q e.2 := by
    induction es with
    | nil => exact fun t ht => ht
    | cons e es ih =>
      obtain ⟨he, hes⟩ := List.forall_mem_cons.mp h
      exact fun t ht => ih hes _ (forall_mem_insert ht he.1 he.2)
  exact hrun [] (by simp)

namespace Json

variable {n : Nat} {cs rest : List Char} {v : Value}

theorem magnitude_defined {negative : Bool} (h : magnitude negative cs = .ok (v, rest)) :
    v.Defined := by
  simp only [magnitude] at h
  split at h
  · contradiction
  · split at h
    · split at h
      · contradiction
      · cases h
        exact Value.defined_of_contents_nil rfl rfl
    · cases h
      exact Value.defined_of_contents_nil rfl rfl

theorem scalar_defined (h : scalar cs = .ok (v, rest)) : v.Defined := by
  unfold scalar at h
  split at h
  case h_7 | h_8 => exact magnitude_defined h
  all_goals
    cases h
    exact Value.defined_of_contents_nil rfl rfl

structure ReadsDefined (n : Nat) : Prop where
  value : ∀ {cs v rest}, value n cs = .ok (v, rest) → v.Defined
  items : ∀ {cs xs rest}, items n cs = .ok (xs, rest) → ∀ x ∈ xs, x.Defined
  members : ∀ {cs es rest}, members n cs = .ok (es, rest) → ∀ e ∈ es, e.1.Defined ∧ e.2.Defined

namespace ReadsDefined

theorem value_succ (ih : ReadsDefined n) (h : Json.value (n + 1) cs = .ok (v, rest)) :
    v.Defined := by
  unfold Json.value at h
  split at h
  · obtain ⟨⟨s, rest'⟩, -, h⟩ := bind_eq_ok_iff.mp h
    cases h
    exact Value.defined_of_contents_nil rfl rfl
  · split at h
    · cases h
      exact Value.defined_of_contents_nil rfl rfl
    · obtain ⟨⟨xs, rest'⟩, hxs, h⟩ := bind_eq_ok_iff.mp h
      cases h
      exact Value.defined_list.mpr (ih.items hxs)
  · split at h
    · cases h
      exact Value.defined_of_contents_nil rfl rfl
    · obtain ⟨⟨es, rest'⟩, hes, h⟩ := bind_eq_ok_iff.mp h
      cases h
      exact Value.defined_dict.mpr (Table.forall_mem_ofPairs (ih.members hes))
  · exact scalar_defined h

theorem items_succ (ih : ReadsDefined n) {xs : List Value}
    (h : Json.items (n + 1) cs = .ok (xs, rest)) : ∀ x ∈ xs, x.Defined := by
  rw [Json.items] at h
  obtain ⟨⟨x, rest'⟩, hx, h⟩ := bind_eq_ok_iff.mp h
  have hd : x.Defined := ih.value hx
  dsimp only at h
  split at h
  · obtain ⟨⟨ys, rest''⟩, hys, h⟩ := bind_eq_ok_iff.mp h
    cases h
    exact List.forall_mem_cons.mpr ⟨hd, ih.items hys⟩
  · cases h
    exact List.forall_mem_singleton.mpr hd
  · contradiction

theorem members_succ (ih : ReadsDefined n) {es : List (Value × Value)}
    (h : Json.members (n + 1) cs = .ok (es, rest)) : ∀ e ∈ es, e.1.Defined ∧ e.2.Defined := by
  rw [Json.members] at h
  obtain ⟨⟨name, rest'⟩, -, h⟩ := bind_eq_ok_iff.mp h
  obtain ⟨⟨x, rest''⟩, hx, h⟩ := bind_eq_ok_iff.mp h
  have hd : (Value.str name).Defined ∧ x.Defined :=
    ⟨Value.defined_of_contents_nil rfl rfl, ih.value hx⟩
  dsimp only at h
  split at h
  · obtain ⟨⟨fs, rest'''⟩, hfs, h⟩ := bind_eq_ok_iff.mp h
    cases h
    exact List.forall_mem_cons.mpr ⟨hd, ih.members hfs⟩
  · cases h
    exact List.forall_mem_singleton.mpr hd
  · contradiction

theorem all (n : Nat) : ReadsDefined n := by
  induction n with
  | zero => exact ⟨fun h => by contradiction, fun h => by contradiction, fun h => by contradiction⟩
  | succ n ih => exact ⟨ih.value_succ, ih.items_succ, ih.members_succ⟩

end ReadsDefined

theorem ofText_defined {s : String} (h : ofText s = .ok v) : v.Defined := by
  obtain ⟨⟨w, rest⟩, hw, h⟩ := bind_eq_ok_iff.mp h
  dsimp only at h
  split at h
  · cases h
    exact (ReadsDefined.all _).value hw
  · contradiction

end Json

end Conform
