import Conform.Proofs.CompactText
import Mathlib.Data.List.Perm.Subperm
import Mathlib.Logic.Relation

namespace Conform

namespace Value

def Holds (v x : Value) : Prop :=
  (∃ xs, v.items? = some xs ∧ x ∈ xs) ∨ ∃ es, v.unrolled = .dict es ∧ x ∈ es.map Prod.snd

def LiesIn (w v : Value) : Prop := Relation.ReflTransGen Holds v w

def ContainsItself (v : Value) : Prop := Relation.TransGen Holds v v

def jsonKinds : List Kind :=
  [.undefined, .null, .bool, .int, .float, .str, .list, .tuple, .dict]

def keyKinds : List Kind := [.null, .bool, .int, .float, .str]

/-- The value itself is what JSON has no form for. -/
def Offends (v : Value) : Prop :=
  v.kind ∉ jsonKinds ∨ (∃ es, v.unrolled = .dict es ∧ ∃ e ∈ es, e.1.kind ∉ keyKinds) ∨
    v.ContainsItself

def Unserializable (v : Value) : Prop := ∃ w, LiesIn w v ∧ w.Offends

def NumberFits : Value → Prop
  | .int n => (Nat.toDigits 10 n.natAbs).length ≤ 4300
  | .float x => x.Canonical
  | _ => True

def NumbersFit (v : Value) : Prop :=
  ∀ w, LiesIn w v → w.NumberFits ∧ ∀ es, w.unrolled = .dict es → ∀ e ∈ es, e.1.NumberFits

variable {i : Identity} {nodes xs : List Value} {v w x : Value} {es : Table Value}

theorem holds_unrolled : v.unrolled.Holds x ↔ v.Holds x := by
  rw [Holds, Holds, items?, items?, unrolled_unrolled]

theorem Holds.item (hx : x ∈ xs) (hv : v.items? = some xs) : v.Holds x := .inl ⟨xs, hv, hx⟩

theorem Holds.entry {e : Value × Value} (he : e ∈ es) (hv : v.unrolled = .dict es) :
    v.Holds e.2 := .inr ⟨es, hv, List.mem_map_of_mem he⟩

theorem not_holds_of_isScalar (hs : v.isScalar = true) : ¬ v.Holds x := by
  rintro (⟨xs, hi, -⟩ | ⟨es, hes, -⟩)
  · rw [items?, unrolled_of_isScalar hs] at hi
    cases v <;> contradiction
  · rw [unrolled_of_isScalar hs] at hes
    subst hes
    contradiction

theorem NumbersFit.part (h : v.NumbersFit) (hx : v.Holds x) : x.NumbersFit :=
  fun w hw => h w (.head hx hw)

theorem Unserializable.of_part (h : x.Unserializable) (hx : v.Holds x) : v.Unserializable := by
  obtain ⟨w, hw, ho⟩ := h
  exact ⟨w, .head hx hw, ho⟩

theorem Offends.unserializable (h : v.Offends) : v.Unserializable := ⟨v, .refl, h⟩

theorem LiesIn.of_unrolled (h : LiesIn w v.unrolled) (hw : w ≠ v.unrolled) :
    Relation.TransGen Holds v w := by
  rcases Relation.ReflTransGen.cases_head h with rfl | ⟨x, hx, hxw⟩
  · exact absurd rfl hw
  · exact .head' (holds_unrolled.mp hx) hxw

theorem NumbersFit.unrolled (h : v.NumbersFit) : v.unrolled.NumbersFit := by
  intro w hw
  by_cases hself : w = v.unrolled
  · subst hself
    refine ⟨?_, fun es hes => (h v .refl).2 es (by rwa [← unrolled_unrolled])⟩
    cases hu : v.unrolled with
    | int | float =>
      have hscalar := isScalar_of_unrolled (v := v) (by rw [hu]; rfl)
      rw [← hu, unrolled_of_isScalar hscalar]
      exact (h v .refl).1
    | _ => trivial
  · exact h w (hw.of_unrolled hself).to_reflTransGen

theorem Unserializable.of_unrolled (h : v.unrolled.Unserializable) : v.Unserializable := by
  obtain ⟨w, hw, ho⟩ := h
  by_cases hself : w = v.unrolled
  · subst hself
    rcases ho with hk | ⟨es, hes, hkeys⟩ | hc
    · rw [kind, unrolled_unrolled] at hk
      exact ⟨v, .refl, .inl hk⟩
    · rw [unrolled_unrolled] at hes
      exact ⟨v, .refl, .inr (.inl ⟨es, hes, hkeys⟩)⟩
    · obtain ⟨x, hx, hxw⟩ := Relation.TransGen.head'_iff.mp hc
      exact ⟨v.unrolled, .head (holds_unrolled.mp hx) hxw, .inr (.inr hc)⟩
  · exact ⟨w, (hw.of_unrolled hself).to_reflTransGen, ho⟩

theorem NumbersFit.of_closed {P : Value → Prop} (hv : P v)
    (hP : ∀ w, P w → (w.NumberFits ∧ ∀ es, w.unrolled = .dict es → ∀ e ∈ es, e.1.NumberFits) ∧
      ∀ x, w.Holds x → P x) : v.NumbersFit := by
  intro w hw
  have hPw : P w := by
    induction hw with
    | refl => exact hv
    | tail _ hx ih => exact (hP _ ih).2 _ hx
  exact (hP w hPw).1

theorem NumbersFit.step (h : v.NumberFits ∧ ∀ es, v.unrolled = .dict es → ∀ e ∈ es, e.1.NumberFits)
    (hparts : ∀ x, v.Holds x → x.NumbersFit) : v.NumbersFit := by
  intro w hw
  rcases Relation.ReflTransGen.cases_head hw with rfl | ⟨x, hx, hxw⟩
  · exact h
  · exact hparts x hx w hxw

theorem numbersFit_of_scalar (hs : v.isScalar = true) (h : v.NumberFits) : v.NumbersFit := by
  refine .step ⟨h, fun es hes => ?_⟩ fun x hx => absurd hx (not_holds_of_isScalar hs)
  rw [unrolled_of_isScalar hs] at hes
  subst hes
  contradiction

theorem numbersFit_list {xs : List Value} (h : ∀ x ∈ xs, x.NumbersFit) :
    (list xs).NumbersFit := by
  refine .step ⟨trivial, nofun⟩ ?_
  rintro x (⟨ys, hi, hx⟩ | ⟨es, hes, -⟩)
  · cases hi
    exact h x hx
  · contradiction

theorem numbersFit_tuple {xs : List Value} (h : ∀ x ∈ xs, x.NumbersFit) :
    (tuple xs).NumbersFit := by
  refine .step ⟨trivial, nofun⟩ ?_
  rintro x (⟨ys, hi, hx⟩ | ⟨es, hes, -⟩)
  · cases hi
    exact h x hx
  · contradiction

theorem numbersFit_dict {es : List (Value × Value)}
    (h : ∀ e ∈ es, e.1.NumberFits ∧ e.2.NumbersFit) : (dict es).NumbersFit := by
  refine .step ⟨trivial, ?_⟩ ?_
  · rintro fs ⟨⟩ e he
    exact (h e he).1
  · rintro x (⟨ys, hi, hx⟩ | ⟨fs, hes, hx⟩)
    · contradiction
    · cases hes
      obtain ⟨e, he, rfl⟩ := List.mem_map.mp hx
      exact (h e he).2

end Value

namespace Json

open Value

variable {k v w x : Value} {t cs : List Char} {xs : List Value} {es : Table Value}

theorem keyName_of_keyChars (hk : k.NumberFits) (h : keyChars? k = some cs) :
    ∃ s, KeyName k s ∧ s.toList = cs := by
  cases k with
  | null =>
    cases h
    exact ⟨_, .null, rfl⟩
  | bool b =>
    cases b <;> cases h
    · exact ⟨_, .bool false, rfl⟩
    · exact ⟨_, .bool true, rfl⟩
  | int n =>
    rw [keyChars?, intChars?] at h
    split at h
    · cases h
      exact ⟨_, .int n, toString_int n⟩
    · contradiction
  | float y =>
    cases h
    exact ⟨_, .float (floatText_floatChars hk), String.toList_ofList⟩
  | str s =>
    cases h
    exact ⟨s, .str s, rfl⟩
  | _ => contradiction

theorem kind_not_mem_keyKinds (hk : k.NumberFits) (h : keyChars? k = none) :
    k.kind ∉ keyKinds := by
  intro hmem
  have hunrolled : k.unrolled = k := by
    apply unrolled_of_scalar_kind
    simp only [keyKinds, scalarKinds, List.mem_cons] at hmem ⊢
    tauto
  cases k with
  | int n =>
    have hfits : (Nat.toDigits 10 n.natAbs).length ≤ maxDigits := hk
    rw [keyChars?, intChars?, if_pos hfits] at h
    contradiction
  | bool b => cases b <;> contradiction
  | null | float | str => contradiction
  | cyclic i nodes n => exact unrolled_ne_cyclic _ _ _ _ hunrolled
  | _ => simp [kind, unrolled, keyKinds] at hmem

theorem KeyText.kind_mem (h : KeyText k t) : k.kind ∈ keyKinds := by
  obtain ⟨s, hs, -⟩ := h
  cases hs <;> simp [kind, unrolled, keyKinds]

theorem Compact.kind_mem (h : Compact v t) : v.kind ∈ jsonKinds := by
  cases h with
  | array hv =>
    rw [items?] at hv
    rw [kind]
    cases hu : v.unrolled <;> simp_all [jsonKinds]
  | dict hv =>
    simp [kind, hv, jsonKinds]
  | _ => simp [kind, unrolled, jsonKinds]

theorem chars?_unrolled (h : chars? v = some t) : chars? v.unrolled = some t := by
  rw [chars?, write_unrolled h]
  exact h

theorem itemTexts_of_chars (hv : v.items? = some xs) (h : chars? v = some t) :
    ∃ ts, List.Forall₂ (fun x t => chars? x = some t) xs ts ∧
      '[' :: [','].intercalate ts ++ [']'] = t := by
  replace h := chars?_unrolled h
  rw [items?] at hv
  have htexts : ∃ ts, itemTexts? xs = some ts ∧ '[' :: commaJoin ts ++ [']'] = t := by
    cases hu : v.unrolled <;> rw [hu] at hv h <;> cases hv
    all_goals exact Option.map_eq_some_iff.mp h
  obtain ⟨ts, hts, rfl⟩ := htexts
  exact ⟨ts, itemTexts?_eq_some_iff.mp hts, by rw [commaJoin_eq_intercalate]⟩

theorem memberTexts_of_chars (hv : v.unrolled = .dict es) (h : chars? v = some t) :
    ∃ keys ts, List.Forall₂ (fun k t => keyChars? k = some t) (es.map Prod.fst) keys ∧
      List.Forall₂ (fun x t => chars? x = some t) (es.map Prod.snd) ts ∧
      '\x7b' :: [','].intercalate (List.zipWith (fun key t => key ++ ':' :: t)
        (keys.map stringChars) ts) ++ ['\x7d'] = t := by
  replace h := chars?_unrolled h
  rw [hv] at h
  obtain ⟨ts, hts, rfl⟩ := Option.map_eq_some_iff.mp h
  obtain ⟨keys, us, hkeys, hus, rfl⟩ := memberTexts?_eq_some_iff.mp hts
  refine ⟨keys, us, hkeys, hus, ?_⟩
  rw [commaJoin_eq_intercalate, List.zipWith_map_left]
  rfl

theorem keyText_of_keyChars (hk : k.NumberFits) (h : keyChars? k = some cs) :
    KeyText k (stringChars cs) := by
  obtain ⟨s, hs, rfl⟩ := keyName_of_keyChars hk h
  exact ⟨s, hs, stringText_iff.mpr rfl⟩

theorem compact_of_scalar (hs : v.isScalar = true) (hv : v.NumbersFit) (h : chars? v = some t) :
    Compact v t := by
  cases v with
  | undefined | null =>
    cases h
    constructor
  | bool b =>
    cases b <;> cases h
    · exact .bool false
    · exact .bool true
  | int n =>
    rw [chars?, write, writeVia, Writing.text?_ofText?, intChars?] at h
    split at h
    · cases h
      rw [← toString_int]
      exact .int n
    · contradiction
  | float x =>
    cases h
    exact .float (floatText_floatChars (hv _ .refl).1)
  | str s =>
    cases h
    exact .str (stringText_iff.mpr rfl)
  | _ => contradiction

theorem compact_of_chars (hv : v.NumbersFit) (h : chars? v = some t) : Compact v t := by
  induction hl : t.length using Nat.strongRecOn generalizing v t with
  | ind n ih =>
    subst hl
    by_cases hs : v.isScalar = true
    · exact compact_of_scalar hs hv h
    cases hu : v.unrolled with
    | list xs | tuple xs =>
      have hi : v.items? = some xs := by rw [items?, hu]
      obtain ⟨ts, hts, rfl⟩ := itemTexts_of_chars hi h
      refine .array hi (forall₂_of_mem (fun x hx t ht htext => ?_) hts)
      refine ih _ ?_ (hv.part (.item hx hi)) htext rfl
      have hle := length_le_intercalate ht
      simp only [List.length_append, List.length_cons]
      omega
    | dict es =>
      obtain ⟨keys, ts, hkeys, hts, rfl⟩ := memberTexts_of_chars hu h
      refine .dict hu ?_ (forall₂_of_mem (fun x hx t ht htext => ?_) hts)
      · rw [List.forall₂_map_right_iff]
        refine forall₂_of_mem (fun k hk cs _ hcs => keyText_of_keyChars ?_ hcs) hkeys
        obtain ⟨e, he, rfl⟩ := List.mem_map.mp hk
        exact (hv v .refl).2 es hu e he
      · obtain ⟨e, he, rfl⟩ := List.mem_map.mp hx
        refine ih _ ?_ (hv.part (.entry he hu)) htext rfl
        have hlength : (keys.map stringChars).length = ts.length := by
          rw [List.length_map, ← hkeys.length_eq, ← hts.length_eq, List.length_map,
            List.length_map]
        have hle := length_le_zipWith hlength ht
        simp only [List.length_append, List.length_cons]
        omega
    | cyclic i nodes n => exact absurd hu (unrolled_ne_cyclic _ _ _ _)
    | set | view | mapping | record | again =>
      have hnone := chars?_unrolled h
      rw [hu] at hnone
      contradiction
    | _ => exact absurd (isScalar_of_unrolled (by rw [hu]; rfl)) hs

theorem Compact.part (h : Compact v t) (hx : v.Holds x) :
    ∃ u, Compact x u ∧ u.length < t.length := by
  rcases hx with ⟨xs, hv, hx⟩ | ⟨es, hv, hx⟩
  · obtain ⟨ts, hts, rfl⟩ := h.array_inv hv
    obtain ⟨u, hu, hc⟩ := exists_forall₂_left hts hx
    have hle := length_le_intercalate hu
    refine ⟨u, hc, ?_⟩
    simp only [List.length_append, List.length_cons]
    omega
  · obtain ⟨keys, ts, hkeys, hts, rfl⟩ := h.dict_inv hv
    obtain ⟨u, hu, hc⟩ := exists_forall₂_left hts hx
    have hlength : keys.length = ts.length := by
      rw [← hkeys.length_eq, ← hts.length_eq, List.length_map, List.length_map]
    have hle := length_le_zipWith hlength hu
    refine ⟨u, hc, ?_⟩
    simp only [List.length_append, List.length_cons]
    omega

theorem Compact.within (h : Compact v t) (hw : Relation.TransGen Holds v w) :
    ∃ u, Compact w u ∧ u.length < t.length := by
  induction hw with
  | single hx => exact h.part hx
  | tail _ hx ih =>
    obtain ⟨u, hu, hlt⟩ := ih
    obtain ⟨u', hu', hlt'⟩ := hu.part hx
    exact ⟨u', hu', Nat.lt_trans hlt' hlt⟩

theorem Compact.not_unserializable (h : Compact v t) : ¬ v.Unserializable := by
  rintro ⟨w, hw, ho⟩
  obtain ⟨u, hu⟩ : ∃ u, Compact w u := by
    rcases Relation.reflTransGen_iff_eq_or_transGen.mp hw with rfl | hw
    · exact ⟨t, h⟩
    · obtain ⟨u, hu, -⟩ := h.within hw
      exact ⟨u, hu⟩
  rcases ho with hk | ⟨es, hes, e, he, hk⟩ | hc
  · exact hk hu.kind_mem
  · obtain ⟨keys, ts, hkeys, -, -⟩ := hu.dict_inv hes
    obtain ⟨key, -, hkey⟩ := exists_forall₂_left hkeys (List.mem_map_of_mem he)
    exact hk hkey.kind_mem
  · obtain ⟨u', hu', hlt⟩ := hu.within hc
    rw [hu.unique hu'] at hlt
    exact Nat.lt_irrefl _ hlt

/-- Where the writing of a value fails, something in it is to blame, or a reference is whose writing
fails. -/
def FailsFor (v : Value) : Prop :=
  ∀ ⦃P : Value → Prop⦄ ⦃f : Value → Value⦄ ⦃refer : List Nat → Nat → Writing (List Char)⦄
    ⦃around : List Nat⦄, (∀ w, w.Unserializable → P w) → (∀ w x, w.Holds x → P x → P w) →
    Relinks f → (∀ m, (f (.again m)).isScalar = false) →
    (∀ m, (f (.again m)).NumbersFit → (refer around m).text? = none → P (f (.again m))) →
    (f v).NumbersFit → (writeVia refer around v).text? = none → P (f v)

variable {i : Identity} {nodes : List Value} {n k : Nat} {around : List Nat}

theorem node_of_none (hnodes : ∀ u ∈ nodes, FailsFor u)
    (hk : k + around.length = nodes.length + 1) (hd : around.Nodup)
    (hlt : ∀ m ∈ around, m < nodes.length) (hfit : (cyclic i nodes n).NumbersFit)
    (h : (writeAfter nodes k around n).text? = none) : (cyclic i nodes n).Unserializable ∨
      ∃ m ∈ around, LiesIn (.cyclic i nodes m) (.cyclic i nodes n) := by
  induction k generalizing around n with
  | zero =>
    have hsub : around ⊆ List.range nodes.length := fun m hm => List.mem_range.mpr (hlt m hm)
    have hle := (List.subperm_of_subset hd hsub).length_le
    rw [List.length_range] at hle
    omega
  | succ k ih =>
    change (revisit nodes (writeAfter nodes k) around n).text? = none at h
    unfold revisit at h
    split at h
    next hn => exact .inr ⟨n, hn, .refl⟩
    next hn =>
      rcases writeNodeVia_eq_or (writeAfter nodes k) (n :: around) nodes n with
        ⟨u, hu, hc, hnode⟩ | ⟨hnone, -⟩
      · have hunrolled := unrolled_cyclic (i := i) hu hc
        have hround : ∀ m, (cyclic i nodes m).NumbersFit →
            (writeAfter nodes k (n :: around) m).text? = none →
            (cyclic i nodes m).Unserializable ∨
              ∃ l ∈ n :: around, LiesIn (.cyclic i nodes l) (.cyclic i nodes m) := by
          intro m hfit h
          refine ih (by simp only [List.length_cons]; omega) (List.nodup_cons.mpr ⟨hn, hd⟩)
            (List.forall_mem_cons.mpr ⟨?_, hlt⟩) hfit h
          exact (List.getElem?_eq_some_iff.mp hu).1
        rw [hnode] at h
        have hfits : (u.tie i nodes).NumbersFit := by
          rw [← hunrolled]
          exact hfit.unrolled
        have hwhole := hnodes u (List.mem_of_getElem? hu)
          (P := fun x => x.Unserializable ∨ ∃ m ∈ n :: around, LiesIn (.cyclic i nodes m) x)
          (fun w hw => .inl hw) (fun w x hx => ?_) (.tie i nodes) (fun _ => rfl) hround hfits h
        · rw [← hunrolled] at hwhole
          have hne (m : Nat) := (unrolled_ne_cyclic (cyclic i nodes n) i nodes m).symm
          rcases hwhole with hwhole | ⟨m, hm, hlies⟩
          · exact .inl hwhole.of_unrolled
          rcases List.mem_cons.mp hm with rfl | hm
          · exact .inl (Offends.unserializable (.inr (.inr (hlies.of_unrolled (hne m)))))
          · exact .inr ⟨m, hm, (hlies.of_unrolled (hne m)).to_reflTransGen⟩
        · rintro (h | ⟨m, hm, hlies⟩)
          · exact .inl (h.of_part hx)
          · exact .inr ⟨m, hm, .head hx hlies⟩
      · have hagain : (cyclic i nodes n).unrolled = .again n := by
          rcases unrolled_cyclic_eq_or i nodes n with h | ⟨u, hu, hc, -⟩
          · exact h
          · rw [hnone u hu] at hc
            contradiction
        exact .inl (Offends.unserializable (.inl (by simp [kind, hagain, jsonKinds])))

theorem failsFor (v : Value) : FailsFor v := by
  induction v with
  | undefined | null | float | str =>
    intro P f refer around _ _ _ _ _ _ h
    contradiction
  | bool b =>
    intro P f refer around _ _ _ _ _ _ h
    cases b <;> contradiction
  | int n =>
    intro P f refer around _ _ hf _ _ hfit h
    rw [hf.scalar _ rfl] at hfit
    have hdigits : (Nat.toDigits 10 n.natAbs).length ≤ maxDigits := (hfit _ .refl).1
    rw [writeVia, Writing.text?_ofText?, intChars?, if_pos hdigits] at h
    contradiction
  | list xs ih =>
    intro P f refer around hP hpart hf hagain hrefer hfit h
    obtain ⟨x, hx, hnone⟩ := writeItemsVia_eq_none_iff.mp (Option.map_eq_none_iff.mp h)
    have hholds : (f (.list xs)).Holds (f x) := by
      rw [hf.list]
      exact .item (List.mem_map_of_mem hx) rfl
    exact hpart _ _ hholds (ih x hx hP hpart hf hagain hrefer (hfit.part hholds) hnone)
  | tuple xs ih =>
    intro P f refer around hP hpart hf hagain hrefer hfit h
    obtain ⟨x, hx, hnone⟩ := writeItemsVia_eq_none_iff.mp (Option.map_eq_none_iff.mp h)
    have hholds : (f (.tuple xs)).Holds (f x) := by
      rw [hf.tuple]
      exact .item (List.mem_map_of_mem hx) rfl
    exact hpart _ _ hholds (ih x hx hP hpart hf hagain hrefer (hfit.part hholds) hnone)
  | dict es ih =>
    intro P f refer around hP hpart hf hagain hrefer hfit h
    obtain ⟨e, he, hnone⟩ := writeMembersVia_eq_none_iff.mp (Option.map_eq_none_iff.mp h)
    have hdict : (f (.dict es)).unrolled = .dict (es.map fun e => (f e.1, f e.2)) := by
      rw [hf.dict]
      rfl
    have hmem : (f e.1, f e.2) ∈ es.map fun e => (f e.1, f e.2) := List.mem_map_of_mem he
    rcases hnone with hkey | hnone
    · refine hP _ (Offends.unserializable (.inr (.inl ⟨_, hdict, _, hmem, ?_⟩)))
      apply kind_not_mem_keyKinds ((hfit _ .refl).2 _ hdict _ hmem)
      rw [keyChars?_relinked hf hagain, hkey]
    · exact hpart _ _ (.entry hmem hdict)
        ((ih e he).2 hP hpart hf hagain hrefer (hfit.part (.entry hmem hdict)) hnone)
  | cyclic i nodes n ih =>
    intro P f refer around hP hpart hf hagain hrefer hfit h
    rw [hf.cyclic] at hfit ⊢
    replace h : (writeAfter nodes (nodes.length + 1) [] n).text? = none := h
    rcases node_of_none ih rfl .nil
      (fun _ hm => absurd hm List.not_mem_nil) hfit h with hnode | ⟨m, hm, -⟩
    · exact hP _ hnode
    · contradiction
  | again m =>
    intro P f refer around _ _ _ _ hrefer hfit h
    exact hrefer m hfit h
  | set | view | mapping | record =>
    intro P f refer around hP _ hf _ _ _ _
    refine hP _ (Offends.unserializable (.inl ?_))
    simp [hf.set, hf.view, hf.mapping, hf.record, kind, Value.unrolled, jsonKinds]
  | _ =>
    intro P f refer around hP _ hf _ _ _ _
    refine hP _ (Offends.unserializable (.inl ?_))
    rw [hf.scalar _ rfl]
    simp [kind, Value.unrolled, jsonKinds]

theorem chars_eq_none_iff (hv : v.NumbersFit) : chars? v = none ↔ v.Unserializable := by
  constructor
  · intro h
    have hagain (m : Nat) : (Value.again m).Unserializable :=
      Offends.unserializable (.inl (by simp [kind, Value.unrolled, jsonKinds]))
    exact failsFor v (P := Unserializable) (fun _ h => h) (fun _ _ hx h => h.of_part hx) .id
      (fun _ => rfl) (fun m _ _ => hagain m) hv h
  · intro h
    by_contra hne
    obtain ⟨t, ht⟩ := Option.ne_none_iff_exists'.mp hne
    exact (compact_of_chars hv ht).not_unserializable h

theorem chars_eq_some_iff (hv : v.NumbersFit) : chars? v = some t ↔ Compact v t := by
  refine ⟨compact_of_chars hv, fun h => ?_⟩
  obtain ⟨u, hu⟩ := Option.ne_none_iff_exists'.mp
    (mt (chars_eq_none_iff hv).mp h.not_unserializable)
  rw [hu, (compact_of_chars hv hu).unique h]

end Json

end Conform
