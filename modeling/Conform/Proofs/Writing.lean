import Conform.Json.Writer
import Conform.Proofs.Unrolling

namespace Conform

theorem exists_forall₂_left {α β : Type} {R : α → β → Prop} {as : List α} {bs : List β} {a : α}
    (h : List.Forall₂ R as bs) (ha : a ∈ as) : ∃ b ∈ bs, R a b := by
  induction h with
  | nil => contradiction
  | cons hr _ ih =>
    rcases List.mem_cons.mp ha with rfl | ha
    · exact ⟨_, List.mem_cons_self, hr⟩
    · obtain ⟨b, hb, hr⟩ := ih ha
      exact ⟨b, List.mem_cons_of_mem _ hb, hr⟩

theorem exists_forall₂_right {α β : Type} {R : α → β → Prop} {as : List α} {bs : List β} {b : β}
    (h : List.Forall₂ R as bs) (hb : b ∈ bs) : ∃ a ∈ as, R a b := by
  have hflip : List.Forall₂ (flip R) bs as := h.flip
  exact exists_forall₂_left hflip hb

theorem forall₂_of_mem {α β : Type} {R S : α → β → Prop} {as : List α} {bs : List β}
    (h : ∀ a ∈ as, ∀ b ∈ bs, R a b → S a b) (hr : List.Forall₂ R as bs) : List.Forall₂ S as bs := by
  induction hr with
  | nil => exact .nil
  | cons hr _ ih =>
    refine .cons (h _ List.mem_cons_self _ List.mem_cons_self hr) (ih fun a ha b hb => ?_)
    exact h a (List.mem_cons_of_mem _ ha) b (List.mem_cons_of_mem _ hb)

namespace Json

namespace Writing

variable {α β : Type}

@[simp]
theorem text?_ofText? (t? : Option α) : (ofText? t?).text? = t? := rfl

@[simp]
theorem text?_map (f : α → β) (w : Writing α) : (w.map f).text? = w.text?.map f := rfl

@[simp]
theorem text?_andThen (w : Writing α) (f : α → Writing β) :
    (w.andThen f).text? = w.text?.bind fun a => (f a).text? := by
  unfold andThen
  cases w.text? <;> rfl

theorem andThen_of_text? {w : Writing α} {a : α} (h : w.text? = some a) (f : α → Writing β) :
    w.andThen f = ⟨max w.depth (f a).depth, (f a).text?⟩ := by
  rw [andThen, h]

end Writing

open Writing

variable {refer refer' : List Nat → Nat → Writing (List Char)} {around around' : List Nat}
  {i : Identity} {nodes xs : List Value} {es : List (Value × Value)} {n : Nat} {v : Value}
  {t : List Char} {ts : List (List Char)}

theorem writeItemsVia_cons_text? (x : Value) (xs : List Value) :
    (writeItemsVia refer around (x :: xs)).text? = (writeVia refer around x).text?.bind fun t =>
      (writeItemsVia refer around xs).text?.map (t :: ·) := by
  rw [writeItemsVia, text?_andThen]
  rfl

def member (key text : List Char) : List Char := stringChars key ++ ':' :: text

theorem writeMembersVia_cons_text? (k v : Value) (es : List (Value × Value)) :
    (writeMembersVia refer around ((k, v) :: es)).text? = (keyChars? k).bind fun key =>
      (writeVia refer around v).text?.bind fun t =>
        (writeMembersVia refer around es).text?.map (member key t :: ·) := by
  rw [writeMembersVia, text?_andThen]
  simp only [text?_ofText?, text?_andThen, text?_map, member]

theorem writeItemsVia_eq_some_iff : (writeItemsVia refer around xs).text? = some ts ↔
    List.Forall₂ (fun x t => (writeVia refer around x).text? = some t) xs ts := by
  induction xs generalizing ts with
  | nil => simp [writeItemsVia, eq_comm]
  | cons x xs ih =>
    rw [writeItemsVia_cons_text?, List.forall₂_cons_left_iff]
    simp only [Option.bind_eq_some_iff, Option.map_eq_some_iff, ih]
    grind

theorem writeItemsVia_eq_none_iff : (writeItemsVia refer around xs).text? = none ↔
    ∃ x ∈ xs, (writeVia refer around x).text? = none := by
  induction xs with
  | nil => simp [writeItemsVia]
  | cons x xs ih =>
    rw [writeItemsVia_cons_text?, List.exists_mem_cons_iff, ← ih]
    cases (writeVia refer around x).text? <;> simp

theorem writeMembersVia_eq_some_iff : (writeMembersVia refer around es).text? = some ts ↔
    ∃ keys us, List.Forall₂ (fun k t => keyChars? k = some t) (es.map Prod.fst) keys ∧
      List.Forall₂ (fun x t => (writeVia refer around x).text? = some t) (es.map Prod.snd) us ∧
      List.zipWith member keys us = ts := by
  induction es generalizing ts with
  | nil => simp [writeMembersVia, eq_comm]
  | cons e es ih =>
    obtain ⟨k, x⟩ := e
    rw [writeMembersVia_cons_text?]
    simp only [Option.bind_eq_some_iff, Option.map_eq_some_iff, ih, List.map_cons,
      List.forall₂_cons_left_iff]
    constructor
    · rintro ⟨key, hkey, u, hu, -, ⟨keys, us, hkeys, hus, rfl⟩, rfl⟩
      exact ⟨_, _, ⟨key, keys, hkey, hkeys, rfl⟩, ⟨u, us, hu, hus, rfl⟩, rfl⟩
    · rintro ⟨_, _, ⟨key, keys, hkey, hkeys, rfl⟩, ⟨u, us, hu, hus, rfl⟩, rfl⟩
      exact ⟨key, hkey, u, hu, _, ⟨keys, us, hkeys, hus, rfl⟩, rfl⟩

theorem writeMembersVia_eq_none_iff : (writeMembersVia refer around es).text? = none ↔
    ∃ e ∈ es, keyChars? e.1 = none ∨ (writeVia refer around e.2).text? = none := by
  induction es with
  | nil => simp [writeMembersVia]
  | cons e es ih =>
    obtain ⟨k, x⟩ := e
    rw [writeMembersVia_cons_text?, List.exists_mem_cons_iff, ← ih]
    cases keyChars? k <;> cases (writeVia refer around x).text? <;> simp

theorem writeItemsVia_congr (h : ∀ x ∈ xs, ∀ t, (writeVia refer around x).text? = some t →
      writeVia refer' around' x = writeVia refer around x)
    (hts : (writeItemsVia refer around xs).text? = some ts) :
    writeItemsVia refer' around' xs = writeItemsVia refer around xs := by
  induction xs generalizing ts with
  | nil => rfl
  | cons x xs ih =>
    obtain ⟨hx, hxs⟩ := List.forall_mem_cons.mp h
    rw [writeItemsVia_cons_text?, Option.bind_eq_some_iff] at hts
    obtain ⟨t, ht, hts⟩ := hts
    obtain ⟨us, hus, -⟩ := Option.map_eq_some_iff.mp hts
    rw [writeItemsVia, writeItemsVia, hx t ht, ih hxs hus]

theorem writeMembersVia_congr (h : ∀ e ∈ es, ∀ t, (writeVia refer around e.2).text? = some t →
      writeVia refer' around' e.2 = writeVia refer around e.2)
    (hts : (writeMembersVia refer around es).text? = some ts) :
    writeMembersVia refer' around' es = writeMembersVia refer around es := by
  induction es generalizing ts with
  | nil => rfl
  | cons e es ih =>
    obtain ⟨k, x⟩ := e
    obtain ⟨hx, hes⟩ := List.forall_mem_cons.mp h
    rw [writeMembersVia_cons_text?, Option.bind_eq_some_iff] at hts
    obtain ⟨key, -, hts⟩ := hts
    obtain ⟨t, ht, hts⟩ := Option.bind_eq_some_iff.mp hts
    obtain ⟨us, hus, -⟩ := Option.map_eq_some_iff.mp hts
    rw [writeMembersVia, writeMembersVia, hx t ht, ih hes hus]

theorem writeVia_congr (h : ∀ m t, (refer around m).text? = some t →
      refer' around' m = refer around m) (ht : (writeVia refer around v).text? = some t) :
    writeVia refer' around' v = writeVia refer around v := by
  induction v generalizing t with
  | list xs ih | tuple xs ih =>
    obtain ⟨ts, hts, -⟩ := Option.map_eq_some_iff.mp ht
    rw [writeVia, writeVia, writeItemsVia_congr (fun x hx t => ih x hx) hts]
  | dict es ih =>
    obtain ⟨ts, hts, -⟩ := Option.map_eq_some_iff.mp ht
    rw [writeVia, writeVia, writeMembersVia_congr (fun e he t => (ih e he).2) hts]
  | again m => exact h m t ht
  | bool b => cases b <;> rfl
  | _ => rfl

def revisit (nodes : List Value) (refer : List Nat → Nat → Writing (List Char))
    (around : List Nat) (n : Nat) : Writing (List Char) :=
  if n ∈ around then (ofText? none).inside else writeNodeVia refer (n :: around) nodes n

def writeAfter (nodes : List Value) (k : Nat) : List Nat → Nat → Writing (List Char) :=
  Nat.repeat (revisit nodes) k fun _ _ => ofText? none

theorem writeNodeVia_eq_or (refer : List Nat → Nat → Writing (List Char)) (around : List Nat)
    (nodes : List Value) (n : Nat) :
    (∃ v, nodes[n]? = some v ∧ v.isContainer = true ∧
      writeNodeVia refer around nodes n = writeVia refer around v) ∨
    (∀ v, nodes[n]? = some v → v.isContainer = false) ∧
      writeNodeVia refer around nodes n = ofText? none := by
  induction nodes generalizing n with
  | nil => exact .inr ⟨fun v hv => absurd hv.symm (Option.some_ne_none v), rfl⟩
  | cons v nodes ih =>
    cases n with
    | zero =>
      cases hv : v.isContainer with
      | false =>
        refine .inr ⟨fun w hw => ?_, if_neg (by rw [hv]; decide)⟩
        rwa [← Option.some.inj hw]
      | true => exact .inl ⟨v, rfl, hv, if_pos hv⟩
    | succ n => exact ih n

theorem writeAfter_mono {k l : Nat} (hkl : k ≤ l) (hsub : around' ⊆ around)
    (ht : (writeAfter nodes k around n).text? = some t) :
    writeAfter nodes l around' n = writeAfter nodes k around n := by
  induction k generalizing l around around' n t with
  | zero => contradiction
  | succ k ih =>
    obtain ⟨l, rfl⟩ := Nat.exists_eq_add_of_le' (Nat.one_le_of_lt hkl)
    change (revisit nodes (writeAfter nodes k) around n).text? = some t at ht
    change revisit nodes (writeAfter nodes l) around' n = revisit nodes (writeAfter nodes k) around n
    unfold revisit at ht ⊢
    split at ht
    · contradiction
    next hn =>
      rw [if_neg hn, if_neg fun h => hn (hsub h)]
      rcases writeNodeVia_eq_or (writeAfter nodes k) (n :: around) nodes n with
        ⟨v, hv, hc, hnode⟩ | ⟨-, hnode⟩
      · rcases writeNodeVia_eq_or (writeAfter nodes l) (n :: around') nodes n with
          ⟨w, hw, -, hnode'⟩ | ⟨hnone, -⟩
        · cases hv.symm.trans hw
          rw [hnode] at ht ⊢
          rw [hnode']
          refine writeVia_congr (fun m u hu => ?_) ht
          exact ih (Nat.le_of_succ_le_succ hkl) (List.cons_subset_cons n hsub) hu
        · rw [hnone v hv] at hc
          contradiction
      · rw [hnode] at ht
        contradiction

theorem keyChars?_relinked {f : Value → Value} (hf : Value.Relinks f)
    (hagain : ∀ m, (f (.again m)).isScalar = false) (k : Value) :
    keyChars? (f k) = keyChars? k := by
  cases k with
  | again m =>
    have hm := hagain m
    generalize f (.again m) = x at hm
    cases x <;> first | rfl | contradiction
  | cyclic => rw [hf.cyclic]
  | list | tuple | set | dict | view | mapping | record =>
    simp only [hf.list, hf.tuple, hf.set, hf.dict, hf.view, hf.mapping, hf.record, keyChars?]
  | _ => rw [hf.scalar _ rfl]

theorem writeItemsVia_tie (h : ∀ x ∈ xs,
      writeVia refer around (x.tie i nodes) = writeVia refer' around' x) :
    writeItemsVia refer around (Value.tieAll i nodes xs) = writeItemsVia refer' around' xs := by
  induction xs with
  | nil => rfl
  | cons x xs ih =>
    obtain ⟨hx, hxs⟩ := List.forall_mem_cons.mp h
    rw [Value.tieAll, writeItemsVia, writeItemsVia, hx, ih hxs]

theorem writeMembersVia_tie (h : ∀ e ∈ es,
      writeVia refer around (e.2.tie i nodes) = writeVia refer' around' e.2) :
    writeMembersVia refer around (Value.tieEntries i nodes es) =
      writeMembersVia refer' around' es := by
  induction es with
  | nil => rfl
  | cons e es ih =>
    obtain ⟨he, hes⟩ := List.forall_mem_cons.mp h
    rw [Value.tieEntries, writeMembersVia, writeMembersVia,
      keyChars?_relinked (.tie i nodes) fun _ => rfl, he, ih hes]

theorem writeVia_tie (v : Value) (around' : List Nat) : writeVia refer around (v.tie i nodes) =
    writeVia (fun _ m => write (.cyclic i nodes m)) around' v := by
  induction v with
  | list xs ih | tuple xs ih => rw [Value.tie, writeVia, writeVia, writeItemsVia_tie ih]
  | dict es ih =>
    rw [Value.tie, writeVia, writeVia, writeMembersVia_tie fun e he => (ih e he).2]
  | bool b => cases b <;> rfl
  | _ => rfl

theorem write_unrolled (ht : (write v).text? = some t) : write v.unrolled = write v := by
  cases v with
  | cyclic i nodes n =>
    change (writeAfter nodes (nodes.length + 1) [] n).text? = some t at ht
    have hstep : writeAfter nodes (nodes.length + 1) [] n =
        writeNodeVia (writeAfter nodes nodes.length) [n] nodes n := rfl
    rcases writeNodeVia_eq_or (writeAfter nodes nodes.length) [n] nodes n with
      ⟨v, hv, hc, hnode⟩ | ⟨-, hnode⟩
    · rw [hstep, hnode] at ht
      change _ = writeAfter nodes (nodes.length + 1) [] n
      rw [hstep, hnode, Value.unrolled_cyclic hv hc, write, writeVia_tie v []]
      exact writeVia_congr (fun m u hu => writeAfter_mono (Nat.le_succ _) (List.nil_subset _) hu) ht
    · rw [hstep, hnode] at ht
      contradiction
  | _ => rfl

def itemTexts? (xs : List Value) : Option (List (List Char)) :=
  (writeItemsVia (fun _ _ => ofText? none) [] xs).text?

def memberTexts? (es : List (Value × Value)) : Option (List (List Char)) :=
  (writeMembersVia (fun _ _ => ofText? none) [] es).text?

theorem itemTexts?_eq_some_iff : itemTexts? xs = some ts ↔
    List.Forall₂ (fun x t => chars? x = some t) xs ts := writeItemsVia_eq_some_iff

theorem memberTexts?_eq_some_iff : memberTexts? es = some ts ↔
    ∃ keys us, List.Forall₂ (fun k t => keyChars? k = some t) (es.map Prod.fst) keys ∧
      List.Forall₂ (fun x t => chars? x = some t) (es.map Prod.snd) us ∧
      List.zipWith member keys us = ts := writeMembersVia_eq_some_iff

end Json

end Conform
