import Conform.Proofs.Serializable
import Conform.Proofs.VisibleText
import Mathlib.Algebra.BigOperators.Group.Finset.Basic
import Mathlib.Algebra.Order.BigOperators.Group.Finset

namespace Conform

namespace Value

mutual

/-- How many containers lie in each other at most. The nodes of a cyclic value count as if all of
them did. -/
def levels : Value → Nat
  | .list xs => (levelsOf xs).foldr max 0 + 1
  | .tuple xs => (levelsOf xs).foldr max 0 + 1
  | .dict es => (entryLevels es).foldr max 0 + 1
  | .cyclic _ nodes _ => (levelsOf nodes).foldr (· + ·) 0 + 1
  | .null | .bool _ | .int _ | .float _ | .str _ | .again _ => 0
  | _ => 1
termination_by structural v => v

def levelsOf : List Value → List Nat
  | [] => []
  | x :: xs => levels x :: levelsOf xs
termination_by structural xs => xs

def entryLevels : List (Value × Value) → List Nat
  | [] => []
  | (_, v) :: es => levels v :: entryLevels es
termination_by structural es => es

end

/-- Values that stand in each other, so many of which are handed on to be written. -/
inductive Nests : Value → Nat → Prop
  | scalar (v : Value) : Nests v 0
  | handed {v : Value} (hv : v.kind ∉ keyKinds) : Nests v 1
  | part {v x : Value} {n : Nat} (hx : v.Holds x) (h : Nests x n) : Nests v (n + 1)

variable {v x : Value} {xs : List Value} {es : List (Value × Value)}

theorem levels_le_of_mem (hx : x ∈ xs) : x.levels ≤ (levelsOf xs).foldr max 0 := by
  induction xs with
  | nil => contradiction
  | cons y xs ih =>
    rw [levelsOf, List.foldr_cons]
    rcases List.mem_cons.mp hx with rfl | hx
    · exact Nat.le_max_left _ _
    · exact Nat.le_trans (ih hx) (Nat.le_max_right _ _)

theorem levels_le_of_mem_entries {e : Value × Value} (he : e ∈ es) :
    e.2.levels ≤ (entryLevels es).foldr max 0 := by
  induction es with
  | nil => contradiction
  | cons f es ih =>
    rw [entryLevels, List.foldr_cons]
    rcases List.mem_cons.mp he with rfl | he
    · exact Nat.le_max_left _ _
    · exact Nat.le_trans (ih he) (Nat.le_max_right _ _)

def levelsAt (nodes : List Value) (n : Nat) : Nat := ((nodes[n]?).getD .null).levels

theorem sum_levelsOf (nodes : List Value) :
    (levelsOf nodes).foldr (· + ·) 0 = ∑ n ∈ Finset.range nodes.length, levelsAt nodes n := by
  induction nodes with
  | nil => rfl
  | cons v nodes ih =>
    rw [levelsOf, List.foldr_cons, ih, List.length_cons, Finset.sum_range_succ', add_comm]
    rfl

end Value

namespace Json

open Value Writing

variable {α β : Type} {refer : List Nat → Nat → Writing (List Char)} {around : List Nat}
  {v x : Value} {nodes xs : List Value} {es : List (Value × Value)} {n k r : Nat} {t : List Char}
  {ts : List (List Char)}

theorem Writing.depth_andThen_le {w : Writing α} {f : α → Writing β} (hw : w.depth ≤ n)
    (hf : ∀ a, (f a).depth ≤ n) : (w.andThen f).depth ≤ n := by
  unfold andThen
  cases w.text? with
  | none => exact hw
  | some a => exact max_le hw (hf a)

theorem depth_writeItemsVia_le (h : ∀ x ∈ xs, (writeVia refer around x).depth ≤ n) :
    (writeItemsVia refer around xs).depth ≤ n := by
  induction xs with
  | nil => exact Nat.zero_le n
  | cons x xs ih =>
    obtain ⟨hx, hxs⟩ := List.forall_mem_cons.mp h
    exact depth_andThen_le hx fun _ => ih hxs

theorem depth_writeMembersVia_le (h : ∀ e ∈ es, (writeVia refer around e.2).depth ≤ n) :
    (writeMembersVia refer around es).depth ≤ n := by
  induction es with
  | nil => exact Nat.zero_le n
  | cons e es ih =>
    obtain ⟨he, hes⟩ := List.forall_mem_cons.mp h
    exact depth_andThen_le (Nat.zero_le n) fun _ => depth_andThen_le he fun _ => ih hes

theorem depth_writeAfter_le (hnodes : ∀ u ∈ nodes, ∀ refer around r,
      (∀ m, (refer around m).depth ≤ r) → (writeVia refer around u).depth ≤ u.levels + r) :
    (writeAfter nodes k around n).depth ≤
      ∑ m ∈ Finset.range nodes.length \ around.toFinset, levelsAt nodes m + 1 := by
  induction k generalizing around n with
  | zero => exact Nat.zero_le _
  | succ k ih =>
    change (revisit nodes (writeAfter nodes k) around n).depth ≤ _
    unfold revisit
    split
    · exact Nat.le_add_left _ _
    next hn =>
      rcases writeNodeVia_eq_or (writeAfter nodes k) (n :: around) nodes n with
        ⟨u, hu, -, hnode⟩ | ⟨-, hnode⟩
      · have hlevels : levelsAt nodes n = u.levels := by rw [levelsAt, hu, Option.getD_some]
        have hmem : n ∈ Finset.range nodes.length \ around.toFinset := by
          simpa [hn] using (List.getElem?_eq_some_iff.mp hu).1
        have hle := hnodes u (List.mem_of_getElem? hu) _ (n :: around) _ fun m => ih
        rw [hnode]
        refine Nat.le_trans hle (Nat.le_of_eq ?_)
        rw [List.toFinset_cons, Finset.sdiff_insert, ← hlevels, ← Finset.add_sum_erase _ _ hmem,
          Nat.add_assoc]
      · rw [hnode]
        exact Nat.zero_le _

theorem depth_writeVia_le (v : Value) (hr : ∀ m, (refer around m).depth ≤ r) :
    (writeVia refer around v).depth ≤ v.levels + r := by
  induction v generalizing refer around r with
  | list xs ih | tuple xs ih =>
    have hitems : (writeItemsVia refer around xs).depth ≤ (levelsOf xs).foldr max 0 + r :=
      depth_writeItemsVia_le fun x hx =>
        Nat.le_trans (ih x hx hr) (Nat.add_le_add_right (levels_le_of_mem hx) r)
    simp only [writeVia, Writing.map, inside, levels]
    omega
  | dict es ih =>
    have hmembers : (writeMembersVia refer around es).depth ≤ (entryLevels es).foldr max 0 + r :=
      depth_writeMembersVia_le fun e he =>
        Nat.le_trans ((ih e he).2 hr) (Nat.add_le_add_right (levels_le_of_mem_entries he) r)
    simp only [writeVia, Writing.map, inside, levels]
    omega
  | cyclic i nodes n ih =>
    have hafter : (writeAfter nodes (nodes.length + 1) [] n).depth ≤ _ :=
      depth_writeAfter_le fun u hu refer around r => ih u hu
    rw [List.toFinset_nil, Finset.sdiff_empty, ← sum_levelsOf] at hafter
    exact Nat.le_trans hafter (Nat.le_add_right _ r)
  | again m => exact Nat.le_trans (hr m) (Nat.le_add_left r _)
  | bool b => cases b <;> exact Nat.zero_le _
  | null | int | float | str => exact Nat.zero_le _
  | _ => exact Nat.le_add_right 1 r

theorem depth_write_le (v : Value) : (write v).depth ≤ v.levels := by
  refine depth_writeVia_le (r := 0) v fun m => ?_
  exact Nat.le_refl 0

theorem depth_item_le (hts : (writeItemsVia refer around xs).text? = some ts) (hx : x ∈ xs) :
    (writeVia refer around x).depth ≤ (writeItemsVia refer around xs).depth := by
  induction xs generalizing ts with
  | nil => contradiction
  | cons y xs ih =>
    rw [writeItemsVia_cons_text?, Option.bind_eq_some_iff] at hts
    obtain ⟨t, ht, hts⟩ := hts
    obtain ⟨us, hus, -⟩ := Option.map_eq_some_iff.mp hts
    rw [writeItemsVia, andThen_of_text? ht]
    rcases List.mem_cons.mp hx with rfl | hx
    · exact Nat.le_max_left _ _
    · exact Nat.le_trans (ih hus hx) (Nat.le_max_right _ _)

theorem depth_member_le {e : Value × Value}
    (hts : (writeMembersVia refer around es).text? = some ts) (he : e ∈ es) :
    (writeVia refer around e.2).depth ≤ (writeMembersVia refer around es).depth := by
  induction es generalizing ts with
  | nil => contradiction
  | cons f es ih =>
    obtain ⟨k, x⟩ := f
    rw [writeMembersVia_cons_text?, Option.bind_eq_some_iff] at hts
    obtain ⟨key, hkey, hts⟩ := hts
    obtain ⟨t, ht, hts⟩ := Option.bind_eq_some_iff.mp hts
    obtain ⟨us, hus, -⟩ := Option.map_eq_some_iff.mp hts
    have hfirst : (ofText? (keyChars? k)).text? = some key := hkey
    rw [writeMembersVia, andThen_of_text? hfirst, andThen_of_text? ht]
    rcases List.mem_cons.mp he with rfl | he
    · exact Nat.le_trans (Nat.le_max_left _ _) (Nat.le_max_right _ _)
    · refine Nat.le_trans (ih hus he) (Nat.le_trans ?_ (Nat.le_max_right _ _))
      exact Nat.le_max_right _ _

theorem depth_part_lt (h : chars? v = some t) (hx : v.Holds x) :
    (write x).depth < (write v).depth := by
  have hwrite := write_unrolled h
  replace h := chars?_unrolled h
  rw [← hwrite]
  rcases hx with ⟨xs, hv, hx⟩ | ⟨es, hv, hx⟩
  · rw [items?] at hv
    cases hu : v.unrolled <;> rw [hu] at hv h <;> cases hv
    all_goals
      obtain ⟨ts, hts, -⟩ := Option.map_eq_some_iff.mp h
      exact Nat.lt_succ_of_le (depth_item_le hts hx)
  · rw [hv] at h ⊢
    obtain ⟨ts, hts, -⟩ := Option.map_eq_some_iff.mp h
    obtain ⟨e, he, rfl⟩ := List.mem_map.mp hx
    exact Nat.lt_succ_of_le (depth_member_le hts he)

theorem one_le_depth (hv : v.kind ∉ keyKinds) (h : chars? v = some t) : 1 ≤ (write v).depth := by
  rw [← write_unrolled h]
  replace h := chars?_unrolled h
  rw [kind] at hv
  cases hu : v.unrolled with
  | list | tuple | dict => exact Nat.le_add_left 1 _
  | null | bool | int | float | str =>
    rw [hu] at hv
    exact absurd (by simp [keyKinds]) hv
  | cyclic i nodes n => exact absurd hu (unrolled_ne_cyclic _ _ _ _)
  | again =>
    rw [hu] at h
    contradiction
  | _ => exact Nat.le_refl 1

theorem chars_part (h : chars? v = some t) (hx : v.Holds x) : ∃ u, chars? x = some u := by
  rcases hx with ⟨xs, hv, hx⟩ | ⟨es, hv, hx⟩
  · obtain ⟨ts, hts, -⟩ := itemTexts_of_chars hv h
    obtain ⟨u, -, hu⟩ := exists_forall₂_left hts hx
    exact ⟨u, hu⟩
  · obtain ⟨keys, ts, -, hts, -⟩ := memberTexts_of_chars hv h
    obtain ⟨u, -, hu⟩ := exists_forall₂_left hts hx
    exact ⟨u, hu⟩

theorem nests_le_depth (hn : v.Nests n) (h : chars? v = some t) : n ≤ (write v).depth := by
  induction hn generalizing t with
  | scalar => exact Nat.zero_le _
  | handed hv => exact one_le_depth hv h
  | part hx _ ih =>
    obtain ⟨u, hu⟩ := chars_part h hx
    exact Nat.le_trans (Nat.succ_le_succ (ih hu)) (depth_part_lt h hx)

theorem ne_of_isNumberChar {c : Char} {cs : List Char} (ht : ∀ c ∈ t, Binary64.IsNumberChar c)
    (hc : c ∈ cs) (hletter : ¬ Binary64.IsNumberChar c) : t ≠ cs := by
  rintro rfl
  exact hletter (ht c hc)

theorem Compact.ne_name (hn : v.NumbersFit) (h : Compact v t) (hv : v ≠ .undefined) :
    t ≠ v.kind.name.toList := by
  cases h with
  | undefined => exact absurd rfl hv
  | null => decide
  | bool b => cases b <;> simp only [kind, Value.unrolled] <;> decide
  | int n =>
    have hi : 'i' ∈ Kind.int.name.toList := by decide
    rw [toString_int]
    exact ne_of_isNumberChar (intChars_isNumberChar n) hi (by decide)
  | @float x t h =>
    have hl : 'l' ∈ Kind.float.name.toList := by decide
    rw [h.unique (floatText_floatChars (hn _ .refl).1)]
    rcases floatChars_cases x with h | h | h | h
    · exact ne_of_isNumberChar h hl (by decide)
    all_goals
      rw [h]
      simp [kind, Value.unrolled, Kind.name]
  | str h =>
    rw [← stringText_iff.mp h]
    simp [stringChars, kind, Value.unrolled, Kind.name]
  | array hi =>
    rw [items?] at hi
    rw [kind]
    cases hu : v.unrolled <;> rw [hu] at hi <;> cases hi
    all_goals simp [Kind.name]
  | dict hu => simp [kind, hu, Kind.name]

end Json

namespace Value

def nested : Nat → Value
  | 0 => .null
  | n + 1 => .list [nested n]

theorem nested_ne_undefined (n : Nat) : nested n ≠ .undefined := by
  cases n <;> nofun

theorem nested_numbersFit (n : Nat) : (nested n).NumbersFit := by
  induction n with
  | zero => exact numbersFit_of_scalar rfl trivial
  | succ n ih => exact numbersFit_list (by simpa using ih)

theorem nests_nested (n : Nat) : (nested n).Nests n := by
  induction n with
  | zero => exact .scalar _
  | succ n ih => exact .part (.item List.mem_cons_self rfl) ih

theorem not_unserializable_nested (n : Nat) : ¬ (nested n).Unserializable := by
  obtain ⟨t, ht⟩ : ∃ t, Json.Compact (nested n) t := by
    induction n with
    | zero => exact ⟨_, .null⟩
    | succ n ih =>
      obtain ⟨t, ht⟩ := ih
      exact ⟨_, .array rfl (.cons ht .nil)⟩
  exact ht.not_unserializable

end Value

namespace Display

open Value

variable {v : Value}

theorem fullText_of_ne_undefined (hv : v ≠ .undefined) :
    fullText v = (Json.chars? v).getD v.kind.name.toList := by
  cases v with
  | undefined => exact absurd rfl hv
  | _ => rfl

theorem fullText_eq_name_iff (hv : v ≠ .undefined) (h : v.NumbersFit) :
    fullText v = v.kind.name.toList ↔ v.Unserializable := by
  rw [fullText_of_ne_undefined hv, ← Json.chars_eq_none_iff h]
  cases ht : Json.chars? v with
  | none => simp
  | some t =>
    have hne := Json.Compact.ne_name h ((Json.chars_eq_some_iff h).mp ht) hv
    simp [hne]

theorem compact_iff_fullText (hv : v ≠ .undefined) (h : v.NumbersFit) {t : List Char} :
    Json.Compact v t ↔ ¬ v.Unserializable ∧ fullText v = t := by
  rw [fullText_of_ne_undefined hv, ← Json.chars_eq_none_iff h, ← Json.chars_eq_some_iff h]
  cases Json.chars? v <;> simp

theorem received_toList (o : Options) (v : Value) : (received o v).toList =
    if (fullText v).length ≤ o.limit then fullText v
    else (fullText v).take o.limit ++ "...".toList := by
  rw [received, String.toList_ofList, truncate]
  split
  next hl => rw [if_neg (by omega)]; rfl
  next hl => rw [if_pos (by omega)]

theorem received?_eq_some_iff {room : Nat} {o : Options} {s : String} (hv : v ≠ .undefined) :
    received? room o v = some s ↔ (Json.write v).depth ≤ room ∧ received o v = s := by
  have hu : v.isUndefined = false := by
    cases v with
    | undefined => exact absurd rfl hv
    | _ => rfl
  simp [received?, isShown, hu]

theorem received_text (room : Nat) (o : Options) (hv : v ≠ .undefined) (hn : v.NumbersFit) :
    (v.levels ≤ room → ∃ s, received? room o v = some s) ∧
    (∀ n, v.Nests n → room < n → ¬ v.Unserializable → received? room o v = none) ∧
    (fullText v = v.kind.name.toList ↔ v.Unserializable) ∧
    (∀ t, Json.Compact v t ↔ ¬ v.Unserializable ∧ fullText v = t) ∧
    ∀ s, received? room o v = some s →
      ((v.Unserializable → ∀ c ∈ v.kind.name.toList, 0x20 ≤ c.toNat) →
        ∀ c ∈ s.toList, 0x20 ≤ c.toNat) ∧
      s.toList = if (fullText v).length ≤ o.limit then fullText v
        else (fullText v).take o.limit ++ "...".toList := by
  refine ⟨fun hl => ?_, fun n hnests hlt hs => ?_, fullText_eq_name_iff hv hn,
    fun _ => compact_iff_fullText hv hn, fun s hs => ?_⟩
  · have hroom : (Json.write v).depth ≤ room := Nat.le_trans (Json.depth_write_le v) hl
    exact ⟨_, (received?_eq_some_iff hv).mpr ⟨hroom, rfl⟩⟩
  · obtain ⟨t, ht⟩ := Option.ne_none_iff_exists'.mp (mt (Json.chars_eq_none_iff hn).mp hs)
    have hdeep : room < (Json.write v).depth :=
      Nat.lt_of_lt_of_le hlt (Json.nests_le_depth hnests ht)
    refine Option.eq_none_iff_forall_ne_some.mpr fun s h => ?_
    exact absurd ((received?_eq_some_iff hv).mp h).1 (Nat.not_le.mpr hdeep)
  · obtain ⟨-, rfl⟩ := (received?_eq_some_iff hv).mp hs
    refine ⟨fun hname c hc => ?_, received_toList o v⟩
    rcases mem_received hc with h | ⟨hnone, h⟩
    · exact h
    · exact hname ((Json.chars_eq_none_iff hn).mp hnone) c h

def readings : Value :=
  .list [.undefined, .dict [(.int 1, .str "a\n"), (.null, .bool true)], .tuple [
    .float (.finite false 7205759403792794 (-56)), .float (.finite true 1 (-1074)),
    .float (.finite false 4768371582031250 21), .float (.finite false 4503599627370497 (-2)),
    .float (.nan (.given 0))]]

def ringNode (n : Nat) : Value :=
  .cyclic (.given 0) [.list [.int 1, .again 1], .dict [(.str "a", .again 0)]] n

theorem readings_numbersFit : readings.NumbersFit := by
  refine numbersFit_list ?_
  simp only [List.forall_mem_cons, List.not_mem_nil, false_imp_iff, implies_true, and_true]
  refine ⟨numbersFit_of_scalar rfl trivial, numbersFit_dict ?_, numbersFit_tuple ?_⟩
  · simp only [List.forall_mem_cons, List.not_mem_nil, false_imp_iff, implies_true, and_true]
    have hone : (Nat.toDigits 10 1).length ≤ 4300 := by decide
    exact ⟨⟨hone, numbersFit_of_scalar rfl trivial⟩, trivial, numbersFit_of_scalar rfl trivial⟩
  · simp only [List.forall_mem_cons, List.not_mem_nil, false_imp_iff, implies_true, and_true]
    refine ⟨?_, ?_, ?_, ?_, numbersFit_of_scalar rfl trivial⟩
    all_goals exact numbersFit_of_scalar rfl ⟨⟨by norm_num, by norm_num, by norm_num⟩, by norm_num⟩

theorem ringNode_numbersFit : (ringNode 0).NumbersFit := by
  have hone : (Value.int 1).NumbersFit :=
    numbersFit_of_scalar rfl (show (Nat.toDigits 10 1).length ≤ 4300 by decide)
  refine .of_closed (P := fun w => w = ringNode 0 ∨ w = ringNode 1 ∨ w = .int 1) (.inl rfl) ?_
  rintro w (rfl | rfl | rfl)
  · refine ⟨⟨trivial, nofun⟩, ?_⟩
    rintro x (⟨xs, hi, hx⟩ | ⟨es, hes, -⟩)
    · obtain rfl : [.int 1, ringNode 1] = xs := Option.some.inj hi
      simp only [List.mem_cons, List.not_mem_nil, or_false] at hx
      rcases hx with rfl | rfl
      · exact .inr (.inr rfl)
      · exact .inr (.inl rfl)
    · contradiction
  · have hentries : (ringNode 1).unrolled = .dict [(.str "a", ringNode 0)] := rfl
    refine ⟨⟨trivial, fun es hes e he => ?_⟩, ?_⟩
    · cases hentries.symm.trans hes
      obtain rfl := List.mem_singleton.mp he
      trivial
    · rintro x (⟨xs, hi, -⟩ | ⟨es, hes, hx⟩)
      · contradiction
      · cases hentries.symm.trans hes
        exact .inl (List.mem_singleton.mp hx)
  · exact ⟨hone _ .refl, fun x hx => absurd hx (not_holds_of_isScalar rfl)⟩

theorem received?_nested (o : Options) {room n : Nat} (hn : room < n) :
    received? room o (nested n) = none := by
  obtain ⟨t, ht⟩ := Option.ne_none_iff_exists'.mp
    (mt (Json.chars_eq_none_iff (nested_numbersFit n)).mp (not_unserializable_nested n))
  have hdeep := Json.nests_le_depth (nests_nested n) ht
  refine Option.eq_none_iff_forall_ne_some.mpr fun s h => ?_
  have hshown := ((received?_eq_some_iff (nested_ne_undefined n)).mp h).1
  omega

theorem received_text_nested :
    let t := "[null,\x7b\"1\":\"a\\n\",\"null\":true\x7d,[0.1,-5e-324,1e+22,1125899906842624.2,NaN]]"
    (readings ≠ .undefined ∧ readings.NumbersFit ∧
      received? Json.room ⟨"data", 80⟩ readings = some t ∧ Json.Compact readings t.toList ∧
      ∃ s, received? Json.room ⟨"data", 4⟩ readings = some s ∧ s.toList = "[nul...".toList) ∧
    (ringNode 0 ≠ .undefined ∧ (ringNode 0).NumbersFit ∧ (ringNode 0).Unserializable ∧
      ∃ s, received? Json.room ⟨"data", 4⟩ (ringNode 0) = some s ∧ s.toList = "list".toList) ∧
    nested 10001 ≠ .undefined ∧ (nested 10001).NumbersFit ∧
      received? Json.room .default (nested 10001) = none := by
  intro t
  have hreadings : readings ≠ .undefined := nofun
  have hring : ringNode 0 ≠ .undefined := nofun
  have hnested := nested_ne_undefined 10001
  have hfull : fullText readings = t.toList := by decide +kernel
  have hloop : fullText (ringNode 0) = "list".toList := by decide +kernel
  obtain ⟨-, -, hname, hcompact, -⟩ :=
    received_text Json.room ⟨"data", 80⟩ hreadings readings_numbersFit
  have hs : ¬ readings.Unserializable := by
    rw [← hname, hfull]
    decide
  obtain ⟨hreturns, -, -, -, hcut⟩ :=
    received_text Json.room ⟨"data", 4⟩ hreadings readings_numbersFit
  obtain ⟨s, hshort⟩ := hreturns (by decide)
  obtain ⟨hreturns', -, hname', -, hcut'⟩ :=
    received_text Json.room ⟨"data", 4⟩ hring ringNode_numbersFit
  obtain ⟨s', hshort'⟩ := hreturns' (by decide)
  obtain ⟨-, hdeep, -⟩ := received_text Json.room .default hnested (nested_numbersFit 10001)
  refine ⟨⟨hreadings, readings_numbersFit, by decide +kernel, (hcompact _).mpr ⟨hs, hfull⟩, s,
    hshort, ?_⟩, ⟨hring, ringNode_numbersFit, hname'.mp hloop, s', hshort', ?_⟩, hnested,
    nested_numbersFit 10001, ?_⟩
  · rw [(hcut s hshort).2, hfull]
    decide
  · rw [(hcut' s' hshort').2, hloop]
    decide
  · exact hdeep _ (nests_nested 10001) (by decide) (not_unserializable_nested 10001)

theorem received_text_fails :
    (nested 10001 ≠ .undefined ∧ (nested 10001).NumbersFit ∧
      received? Json.room .default (nested 10001) = none) ∧
    ∃ s, received? Json.room .default (.object "A\nB" (.given 0)) = some s ∧ '\n' ∈ s.toList := by
  exact ⟨⟨nested_ne_undefined 10001, nested_numbersFit 10001,
    received?_nested .default (by decide)⟩, "A\nB", by decide +kernel, by decide⟩

end Display

end Conform
