import Conform.Proofs.Coercion
import Conform.Proofs.Grounded
import Conform.Validate
import Mathlib.Data.List.Forall2

/-!
The validator of a plain schema. A schema has none exactly when there is a fault somewhere in it,
and then the first fault from the left is the error.
-/

namespace Conform.Schema

def parts : Schema → List Schema
  | .dict fs => fs.map Prod.snd
  | .list ss => ss
  | _ => []

def at? : Schema → List Nat → Option Schema
  | s, [] => some s
  | s, n :: p => s.parts[n]?.bind fun t => at? t p

/-- Why the schema has no validator, when this is not the fault of a part. -/
def fault? : Schema → Option SchemaError
  | .list [] => some .emptyList
  | .value v => some (.notConvertible v.kind)
  | _ => none

def faultAt? (s : Schema) (p : List Nat) : Option SchemaError := (s.at? p).bind fault?

/-- A walk that goes into a schema before it goes on to the right comes to `q` only after `p`. -/
def NotAfter (p q : List Nat) : Prop := p = q ∨ List.Lex (· < ·) p q

def FirstFault (s : Schema) (e : SchemaError) : Prop :=
  ∃ p, s.faultAt? p = some e ∧ ∀ q, s.faultAt? q ≠ none → NotAfter p q

/-- Every dict and every list in it is itself a schema. Only values that contain themselves cannot
be written so. -/
def Unfolded (s : Schema) : Prop :=
  ∀ p v, s.at? p = some (.value v) → v.kind ≠ .dict ∧ v.kind ≠ .list ∧ v.kind ≠ .again

inductive Builtin : Class → List Kind → String → Prop
  | bool : Builtin .bool [.bool] "a boolean"
  | int : Builtin .int [.int] "an integer"
  | float : Builtin .float [.int, .float] "a number"
  | str : Builtin .str [.str] "a string"
  | null : Builtin .null [.null] "null"
  | date : Builtin .date [.date, .datetime] "a date"

def Instance (v : Value) : Class → Prop
  | .datetime => v.kind = .datetime
  | .decimal => v.kind = .decimal
  | .list => v.kind = .list
  | .dict => v.kind = .dict
  | .tuple => v.kind = .tuple
  | .set => v.kind = .set
  | .bytes => v.kind = .bytes
  | .object => True
  | .mapping => ∃ es, v.entries? = some es
  | .undefined => v = .undefined
  | .other _ _ members => members v = true
  | .bool | .int | .float | .str | .null | .date => False

inductive Elaborates : Schema → Validator → Prop
  | validator (v : Validator) : Elaborates (.validator v) v
  | builtin {c : Class} {kinds : List Kind} {label : String} (h : Builtin c kinds label) :
    Elaborates (.ofClass c) (.test (fun v => some (v.kind ∈ kinds)) label)
  | instanceOf {c : Class} {p : Value → Option Bool} (h : ∀ kinds label, ¬ Builtin c kinds label)
    (htrue : ∀ v, p v = some true ↔ Instance v c) (hfalse : ∀ v, p v = some false ↔ ¬ Instance v c) :
    Elaborates (.ofClass c) (.test p ("an instance of " ++ c.name))
  | function (f : UserFunction) : Elaborates (.function f) (.function f)
  | dict {fs : List (Value × Schema)} {ws : List (Value × Validator)}
    (hnames : fs.map Prod.fst = ws.map Prod.fst)
    (h : List.Forall₂ Elaborates (fs.map Prod.snd) (ws.map Prod.snd)) :
    Elaborates (.dict fs) (.dict ws)
  | single {s : Schema} {w : Validator} (h : Elaborates s w) : Elaborates (.list [s]) (.list w)
  | several {ss : List Schema} {ws : List Validator} (hl : 2 ≤ ss.length)
    (h : List.Forall₂ Elaborates ss ws) : Elaborates (.list ss) (.list (.union ws))

variable {s t : Schema} {ss : List Schema} {fs : List (Value × Schema)} {w : Validator}
  {ws : List Validator} {e : SchemaError}

theorem nil_notAfter (q : List Nat) : NotAfter [] q := by
  cases q with
  | nil => exact .inl rfl
  | cons m q => exact .inr .nil

theorem cons_notAfter_iff {n m : Nat} {p q : List Nat} :
    NotAfter (n :: p) (m :: q) ↔ n < m ∨ n = m ∧ NotAfter p q := by
  simp only [NotAfter, List.cons_lex_cons_iff, List.cons.injEq]
  tauto

theorem part_induction {motive : Schema → Prop}
    (step : ∀ s, (∀ t ∈ s.parts, motive t) → motive s) (s : Schema) : motive s := by
  refine @Schema.rec motive (fun fs => ∀ t ∈ fs.map Prod.snd, motive t)
    (fun ss => ∀ t ∈ ss, motive t) (fun f => motive f.2) ?_ ?_ ?_ ?_ ?_ ?_ ?_ ?_ ?_ ?_ ?_ s
  · exact fun v => step _ nofun
  · exact fun c => step _ nofun
  · exact fun f => step _ nofun
  · exact fun fs hfs => step _ hfs
  · exact fun ss hss => step _ hss
  · exact fun v => step _ nofun
  · nofun
  · exact fun f fs hf hfs => List.forall_mem_cons.mpr ⟨hf, hfs⟩
  · nofun
  · exact fun s ss hs hss => List.forall_mem_cons.mpr ⟨hs, hss⟩
  · exact fun _ _ h => h

theorem faultAt?_nil (s : Schema) : s.faultAt? [] = s.fault? := rfl

theorem faultAt?_cons (s : Schema) (n : Nat) (p : List Nat) :
    s.faultAt? (n :: p) = s.parts[n]?.bind fun t => t.faultAt? p := by
  rw [faultAt?, at?, Option.bind_assoc]
  rfl

theorem parts_of_fault (h : s.fault? = some e) : s.parts = [] := by
  unfold fault? at h
  split at h
  · rfl
  · rfl
  · contradiction

theorem Unfolded.part (h : s.Unfolded) (ht : t ∈ s.parts) : t.Unfolded := by
  intro p v hp
  obtain ⟨n, hn⟩ := List.mem_iff_getElem?.mp ht
  apply h (n :: p)
  rw [at?, hn]
  exact hp

theorem elaborateFields_eq (fs : List (Value × Schema)) :
    elaborateFields fs = (elaborateAll (fs.map Prod.snd)).map ((fs.map Prod.fst).zip ·) := by
  induction fs with
  | nil => rfl
  | cons f fs ih =>
    obtain ⟨k, s⟩ := f
    simp only [elaborateFields, ih, List.map_cons, elaborateAll]
    cases s.elaborate with
    | error e => rfl
    | ok w => cases elaborateAll (fs.map Prod.snd) <;> rfl

theorem elaborateAll_eq_ok_iff {P : Schema → Validator → Prop}
    (h : ∀ s ∈ ss, ∀ w, s.elaborate = .ok w ↔ P s w) :
    elaborateAll ss = .ok ws ↔ List.Forall₂ P ss ws := by
  induction ss generalizing ws with
  | nil =>
    rw [elaborateAll, List.forall₂_nil_left_iff, Except.ok.injEq, eq_comm]
  | cons s ss ih =>
    obtain ⟨hs, hss⟩ := List.forall_mem_cons.mp h
    rw [elaborateAll, List.forall₂_cons_left_iff]
    simp only [bind_eq_ok_iff, hs, ih hss]
    constructor
    · rintro ⟨w, hw, us, hus, hws⟩
      cases hws
      exact ⟨w, us, hw, hus, rfl⟩
    · rintro ⟨w, us, hw, hus, rfl⟩
      exact ⟨w, hw, us, hus, rfl⟩

theorem exists_elaborateAll_iff :
    (∃ ws, elaborateAll ss = .ok ws) ↔ ∀ s ∈ ss, ∃ w, s.elaborate = .ok w := by
  induction ss with
  | nil => exact iff_of_true ⟨[], rfl⟩ nofun
  | cons s ss ih =>
    rw [List.forall_mem_cons, ← ih]
    constructor
    · rintro ⟨ws, h⟩
      obtain ⟨w, hw, h⟩ := bind_eq_ok_iff.mp h
      obtain ⟨us, hus, h⟩ := bind_eq_ok_iff.mp h
      exact ⟨⟨w, hw⟩, us, hus⟩
    · rintro ⟨⟨w, hw⟩, us, hus⟩
      exact ⟨w :: us, elaborateAll_cons hw hus⟩

theorem elaborateAll_cons_eq_error_iff : elaborateAll (s :: ss) = .error e ↔
    s.elaborate = .error e ∨ (∃ w, s.elaborate = .ok w) ∧ elaborateAll ss = .error e := by
  rw [elaborateAll]
  cases s.elaborate with
  | error f => simp [bind, Except.bind]
  | ok w => cases elaborateAll ss <;> simp [bind, Except.bind, pure, Except.pure]

theorem elaborateAll_eq_error_iff : elaborateAll ss = .error e ↔
    ∃ (n : Nat) (s : Schema), ss[n]? = some s ∧ s.elaborate = .error e ∧
      ∀ m < n, ∀ t, ss[m]? = some t → ∃ w, t.elaborate = .ok w := by
  induction ss with
  | nil => simp [elaborateAll]
  | cons s ss ih =>
    rw [elaborateAll_cons_eq_error_iff, ih]
    constructor
    · rintro (he | ⟨hs, n, t, ht, he, hbefore⟩)
      · exact ⟨0, s, rfl, he, fun m hm => absurd hm (Nat.not_lt_zero m)⟩
      · refine ⟨n + 1, t, ht, he, fun m hm u hu => ?_⟩
        cases m with
        | zero =>
          cases hu
          exact hs
        | succ m => exact hbefore m (by omega) u hu
    · rintro ⟨n, t, ht, he, hbefore⟩
      cases n with
      | zero =>
        cases ht
        exact .inl he
      | succ n =>
        have hs := hbefore 0 (Nat.succ_pos n) s rfl
        exact .inr ⟨hs, n, t, ht, he, fun m hm u hu => hbefore (m + 1) (by omega) u hu⟩

theorem elaborate_dict (fs : List (Value × Schema)) : (Schema.dict fs).elaborate =
    (elaborateAll (fs.map Prod.snd)).map fun ws => .dict ((fs.map Prod.fst).zip ws) := by
  rw [elaborate, elaborateFields_eq]
  cases elaborateAll (fs.map Prod.snd) <;> rfl

theorem elaborate_single (s : Schema) : (Schema.list [s]).elaborate = s.elaborate.map .list := rfl

theorem elaborate_several (hl : 2 ≤ ss.length) :
    (Schema.list ss).elaborate = (elaborateAll ss).map fun ws => .list (.union ws) := by
  match ss, hl with
  | _ :: _ :: _, _ => rfl

theorem exists_elaborate_eq_map (h : s.fault? = none) :
    ∃ f, s.elaborate = (elaborateAll s.parts).map f := by
  cases s with
  | validator v => exact ⟨fun _ => v, rfl⟩
  | ofClass c => exact ⟨fun _ => .ofClass c, rfl⟩
  | function f => exact ⟨fun _ => .function f, rfl⟩
  | dict fs => exact ⟨_, elaborate_dict fs⟩
  | list ss =>
    match ss with
    | [] => contradiction
    | [t] =>
      refine ⟨fun ws => .list (ws.headD .bare), ?_⟩
      rw [elaborate_single, parts, elaborateAll]
      cases t.elaborate <;> rfl
    | t :: u :: ss => exact ⟨_, elaborate_several (by simp)⟩
  | value v => contradiction

theorem exists_elaborate_iff_parts (h : s.fault? = none) :
    (∃ w, s.elaborate = .ok w) ↔ ∀ t ∈ s.parts, ∃ w, t.elaborate = .ok w := by
  obtain ⟨f, hf⟩ := exists_elaborate_eq_map h
  rw [hf, ← exists_elaborateAll_iff]
  cases elaborateAll s.parts <;> simp [Except.map]

theorem elaborate_eq_error_iff_parts (h : s.fault? = none) :
    s.elaborate = .error e ↔ elaborateAll s.parts = .error e := by
  obtain ⟨f, hf⟩ := exists_elaborate_eq_map h
  rw [hf]
  cases elaborateAll s.parts <;> simp [Except.map]

theorem elaborate_ne_ok_of_fault (h : s.fault? = some e) : s.elaborate ≠ .ok w := by
  unfold fault? at h
  split at h
  · nofun
  next v => cases v <;> nofun
  · contradiction

theorem elaborate_of_fault (hs : s.Unfolded) (h : s.fault? = some e) : s.elaborate = .error e := by
  unfold fault? at h
  split at h
  · cases h
    rfl
  next v =>
    cases h
    obtain ⟨-, -, ha⟩ := hs [] v rfl
    cases v with
    | again n => exact absurd rfl ha
    | _ => rfl
  · contradiction

theorem faultAt?_eq_none_iff (h : s.fault? = none) :
    (∀ p, s.faultAt? p = none) ↔ ∀ t ∈ s.parts, ∀ p, t.faultAt? p = none := by
  constructor
  · intro hs t ht p
    obtain ⟨n, hn⟩ := List.mem_iff_getElem?.mp ht
    have hbelow := hs (n :: p)
    rwa [faultAt?_cons, hn] at hbelow
  · intro hparts p
    cases p with
    | nil => exact h
    | cons n p =>
      rw [faultAt?_cons]
      cases hn : s.parts[n]? with
      | none => rfl
      | some t => exact hparts t (List.mem_of_getElem? hn) p

theorem exists_elaborate_iff (s : Schema) :
    (∃ w, s.elaborate = .ok w) ↔ ∀ p, s.faultAt? p = none := by
  induction s using part_induction with
  | step s ih =>
    cases h : s.fault? with
    | some e =>
      refine iff_of_false (fun ⟨w, hw⟩ => elaborate_ne_ok_of_fault h hw) fun hnone => ?_
      have hroot := hnone []
      rw [faultAt?_nil, h] at hroot
      contradiction
    | none =>
      rw [exists_elaborate_iff_parts h, faultAt?_eq_none_iff h]
      exact forall₂_congr ih

theorem firstFault_iff_parts (h : s.fault? = none) : s.FirstFault e ↔
    ∃ (n : Nat) (t : Schema), s.parts[n]? = some t ∧ t.FirstFault e ∧
      ∀ m < n, ∀ u, s.parts[m]? = some u → ∀ q, u.faultAt? q = none := by
  constructor
  · rintro ⟨p, hp, hfirst⟩
    cases p with
    | nil =>
      rw [faultAt?_nil, h] at hp
      contradiction
    | cons n p =>
      rw [faultAt?_cons] at hp
      obtain ⟨t, hn, hp⟩ := Option.bind_eq_some_iff.mp hp
      refine ⟨n, t, hn, ⟨p, hp, fun q hq => ?_⟩, fun m hm u hu q => ?_⟩
      · have hafter := hfirst (n :: q) (by rw [faultAt?_cons, hn]; exact hq)
        rcases cons_notAfter_iff.mp hafter with hlt | ⟨-, hafter⟩
        · omega
        · exact hafter
      · by_contra hq
        have hafter := hfirst (m :: q) (by rw [faultAt?_cons, hu]; exact hq)
        rcases cons_notAfter_iff.mp hafter with hlt | ⟨heq, -⟩ <;> omega
  · rintro ⟨n, t, hn, ⟨p, hp, hfirst⟩, hbefore⟩
    refine ⟨n :: p, by rw [faultAt?_cons, hn]; exact hp, fun q hq => ?_⟩
    cases q with
    | nil => exact absurd h hq
    | cons m q =>
      rw [faultAt?_cons] at hq
      cases hm : s.parts[m]? with
      | none => simp [hm] at hq
      | some u =>
        rw [hm] at hq
        rw [cons_notAfter_iff]
        rcases Nat.lt_trichotomy m n with hlt | rfl | hlt
        · exact absurd (hbefore m hlt u hm q) hq
        · rw [hn] at hm
          cases hm
          exact .inr ⟨rfl, hfirst q hq⟩
        · exact .inl hlt

theorem firstFault_of_fault {f : SchemaError} (h : s.fault? = some f) :
    s.FirstFault e ↔ f = e := by
  constructor
  · rintro ⟨p, hp, -⟩
    cases p with
    | nil =>
      rw [faultAt?_nil, h] at hp
      exact Option.some.inj hp
    | cons n p =>
      rw [faultAt?_cons, parts_of_fault h] at hp
      contradiction
  · rintro rfl
    exact ⟨[], h, fun q _ => nil_notAfter q⟩

theorem elaborate_eq_error_iff (hs : s.Unfolded) : s.elaborate = .error e ↔ s.FirstFault e := by
  induction s using part_induction with
  | step s ih =>
    cases h : s.fault? with
    | some f => rw [elaborate_of_fault hs h, Except.error.injEq, firstFault_of_fault h]
    | none =>
      rw [elaborate_eq_error_iff_parts h, elaborateAll_eq_error_iff, firstFault_iff_parts h]
      refine exists₂_congr fun n t => and_congr_right fun hn => ?_
      have ht := List.mem_of_getElem? hn
      simp only [ih t ht (hs.part ht), exists_elaborate_iff]

theorem has_iff_instance {c : Class} (h : ∀ kinds label, ¬ Builtin c kinds label) {v : Value} :
    c.has v = true ↔ Instance v c := by
  cases c with
  | bool => exact absurd .bool (h _ _)
  | int => exact absurd .int (h _ _)
  | float => exact absurd .float (h _ _)
  | str => exact absurd .str (h _ _)
  | null => exact absurd .null (h _ _)
  | date => exact absurd .date (h _ _)
  | mapping => exact Option.isSome_iff_exists
  | undefined => cases v <;> simp [Class.has, Value.isUndefined, Instance]
  | _ => simp [Class.has, Instance]

theorem ofClass_of_builtin {c : Class} {kinds : List Kind} {label : String}
    (h : Builtin c kinds label) :
    Validator.ofClass c = .test (fun v => some (v.kind ∈ kinds)) label := by
  have hkinds {p : Value → Bool} (hp : ∀ v, p v = decide (v.kind ∈ kinds)) :
      Validator.testing p label = .test (fun v => some (v.kind ∈ kinds)) label := by
    rw [Validator.testing]
    simp only [hp]
  cases h <;> exact hkinds fun v => by
    simp [Class.has, Validator.isInteger, Validator.isNumber, List.mem_cons, Bool.decide_or]

theorem ofClass_of_not_builtin {c : Class} (h : ∀ kinds label, ¬ Builtin c kinds label) :
    Validator.ofClass c = .test (fun v => some (c.has v)) ("an instance of " ++ c.name) := by
  cases c with
  | bool => exact absurd .bool (h _ _)
  | int => exact absurd .int (h _ _)
  | float => exact absurd .float (h _ _)
  | str => exact absurd .str (h _ _)
  | null => exact absurd .null (h _ _)
  | date => exact absurd .date (h _ _)
  | _ => rfl

theorem elaborates_ofClass_iff {c : Class} :
    Elaborates (.ofClass c) w ↔ Validator.ofClass c = w := by
  constructor
  · intro h
    cases h with
    | builtin h => exact ofClass_of_builtin h
    | @instanceOf _ p h htrue hfalse =>
      have hp : (fun v => some (c.has v)) = p := by
        funext v
        cases hv : c.has v with
        | true => exact ((htrue v).mpr ((has_iff_instance h).mp hv)).symm
        | false =>
          refine ((hfalse v).mpr fun hi => ?_).symm
          rw [(has_iff_instance h).mpr hi] at hv
          contradiction
      rw [ofClass_of_not_builtin h, hp]
  · rintro rfl
    by_cases h : ∃ kinds label, Builtin c kinds label
    · obtain ⟨kinds, label, h⟩ := h
      rw [ofClass_of_builtin h]
      exact .builtin h
    · have hnone : ∀ kinds label, ¬ Builtin c kinds label :=
        fun kinds label hb => h ⟨kinds, label, hb⟩
      rw [ofClass_of_not_builtin hnone]
      refine .instanceOf hnone (fun v => ?_) (fun v => ?_)
      · rw [Option.some.injEq, has_iff_instance hnone]
      · rw [Option.some.injEq, ← has_iff_instance hnone, Bool.not_eq_true]

theorem map_eq_ok_iff {ε α β : Type} {x : Except ε α} {f : α → β} {b : β} :
    x.map f = .ok b ↔ ∃ a, x = .ok a ∧ f a = b := by
  cases x <;> simp [Except.map]

theorem elaborate_dict_eq_ok_iff {P : Schema → Validator → Prop}
    (h : ∀ s ∈ fs.map Prod.snd, ∀ w, s.elaborate = .ok w ↔ P s w) :
    (Schema.dict fs).elaborate = .ok w ↔ ∃ us, fs.map Prod.fst = us.map Prod.fst ∧
      List.Forall₂ P (fs.map Prod.snd) (us.map Prod.snd) ∧ .dict us = w := by
  simp only [elaborate_dict, map_eq_ok_iff, elaborateAll_eq_ok_iff h]
  constructor
  · rintro ⟨ws, hparts, rfl⟩
    have hlength := hparts.length_eq
    rw [List.length_map] at hlength
    have hfst : ((fs.map Prod.fst).zip ws).map Prod.fst = fs.map Prod.fst :=
      List.map_fst_zip (by rw [List.length_map]; omega)
    have hsnd : ((fs.map Prod.fst).zip ws).map Prod.snd = ws :=
      List.map_snd_zip (by rw [List.length_map]; omega)
    exact ⟨_, hfst.symm, by rwa [hsnd], rfl⟩
  · rintro ⟨us, hnames, hparts, rfl⟩
    exact ⟨_, hparts, by rw [hnames, ← List.zip_of_prod rfl rfl]⟩

theorem elaborates_single_iff :
    Elaborates (.list [s]) w ↔ ∃ v, Elaborates s v ∧ .list v = w := by
  constructor
  · intro h
    cases h with
    | single h => exact ⟨_, h, rfl⟩
    | several hl => simp at hl
  · rintro ⟨v, h, rfl⟩
    exact .single h

theorem elaborates_several_iff (hl : 2 ≤ ss.length) :
    Elaborates (.list ss) w ↔ ∃ ws, List.Forall₂ Elaborates ss ws ∧ .list (.union ws) = w := by
  constructor
  · intro h
    cases h with
    | single h => simp at hl
    | several _ h => exact ⟨_, h, rfl⟩
  · rintro ⟨ws, h, rfl⟩
    exact .several hl h

theorem elaborate_eq_ok_iff : s.elaborate = .ok w ↔ Elaborates s w := by
  induction s using part_induction generalizing w with
  | step s ih =>
    cases s with
    | validator v =>
      constructor
      · rintro ⟨⟩
        exact .validator _
      · rintro ⟨⟩
        rfl
    | ofClass c => rw [elaborates_ofClass_iff, elaborate, Except.ok.injEq]
    | function f =>
      constructor
      · rintro ⟨⟩
        exact .function f
      · rintro ⟨⟩
        rfl
    | dict fs =>
      rw [elaborate_dict_eq_ok_iff fun t ht w => ih t ht]
      constructor
      · rintro ⟨us, hnames, h, rfl⟩
        exact .dict hnames h
      · intro h
        cases h with
        | dict hnames h => exact ⟨_, hnames, h, rfl⟩
    | list ss =>
      cases ss with
      | nil =>
        constructor
        · intro h
          contradiction
        · intro h
          cases h with
          | several hl => contradiction
      | cons t ss =>
        by_cases hl : 2 ≤ (t :: ss).length
        · have hall (ws : List Validator) : elaborateAll (t :: ss) = .ok ws ↔
              List.Forall₂ Elaborates (t :: ss) ws :=
            elaborateAll_eq_ok_iff fun v hv w => ih v hv
          simp only [elaborate_several hl, map_eq_ok_iff, hall, elaborates_several_iff hl]
        · rw [List.length_cons] at hl
          obtain rfl : ss = [] := List.eq_nil_of_length_eq_zero (by omega)
          simp only [elaborate_single, map_eq_ok_iff, elaborates_single_iff,
            ih t (List.mem_singleton_self t)]
    | value v =>
      constructor
      · intro h
        exact absurd h (elaborate_ne_ok_of_fault rfl)
      · intro h
        cases h

theorem faultAt?_eq_some_iff {p : List Nat} : s.faultAt? p = some e ↔
    (s.at? p = some (.list []) ∧ .emptyList = e) ∨
      ∃ v, s.at? p = some (.value v) ∧ .notConvertible v.kind = e := by
  rw [faultAt?, Option.bind_eq_some_iff]
  constructor
  · rintro ⟨t, ht, h⟩
    unfold fault? at h
    split at h
    · exact .inl ⟨ht, Option.some.inj h⟩
    · exact .inr ⟨_, ht, Option.some.inj h⟩
    · contradiction
  · rintro (⟨ht, rfl⟩ | ⟨v, ht, rfl⟩)
    · exact ⟨_, ht, rfl⟩
    · exact ⟨_, ht, rfl⟩

theorem faultless_iff : (∀ p, s.faultAt? p = none) ↔
    ∀ p, s.at? p ≠ some (.list []) ∧ ∀ v, s.at? p ≠ some (.value v) := by
  refine forall_congr' fun p => ?_
  rw [Option.eq_none_iff_forall_ne_some]
  constructor
  · intro h
    refine ⟨fun hp => h .emptyList (faultAt?_eq_some_iff.mpr (.inl ⟨hp, rfl⟩)), fun v hp => ?_⟩
    exact h _ (faultAt?_eq_some_iff.mpr (.inr ⟨v, hp, rfl⟩))
  · rintro ⟨hempty, hvalue⟩ e he
    rcases faultAt?_eq_some_iff.mp he with ⟨hp, -⟩ | ⟨v, hp, -⟩
    · exact hempty hp
    · exact hvalue v hp

theorem check_of_elaborates (defs : Definitions) (o : Display.Options) (h : Elaborates s w) :
    check defs o s = check defs o (.validator w) := by
  unfold check
  rw [elaborate_eq_ok_iff.mpr h]
  rfl

theorem unfolded_of_parts
    (hs : ∀ v, s = .value v → v.kind ≠ .dict ∧ v.kind ≠ .list ∧ v.kind ≠ .again)
    (hparts : ∀ t ∈ s.parts, t.Unfolded) : s.Unfolded := by
  intro p v hp
  cases p with
  | nil => exact hs v (Option.some.inj hp)
  | cons n p =>
    obtain ⟨t, hn, hp⟩ := Option.bind_eq_some_iff.mp hp
    exact hparts t (List.mem_of_getElem? hn) p v hp

variable {refer : List Nat → Nat → Schema} {around : List Nat}

theorem ofItemsVia_eq_map (xs : List Value) :
    ofItemsVia refer around xs = xs.map (ofValueVia refer around) := by
  induction xs with
  | nil => rfl
  | cons x xs ih => rw [ofItemsVia, ih, List.map_cons]

theorem ofEntriesVia_eq_map (es : List (Value × Value)) :
    ofEntriesVia refer around es = es.map fun e => (e.1, ofValueVia refer around e.2) := by
  induction es with
  | nil => rfl
  | cons e es ih =>
    obtain ⟨k, v⟩ := e
    rw [ofEntriesVia, ih, List.map_cons]

theorem unfolded_ofValue {v : Value} (h : v.Grounded) : (ofValue v).Unfolded := by
  rw [ofValue]
  induction h with
  | @intro v loose items entries _ ih_items ih_entries _ =>
    cases v with
    | list xs =>
      refine unfolded_of_parts nofun ?_
      rw [ofValueVia, parts, ofItemsVia_eq_map, List.forall_mem_map]
      exact ih_items xs rfl
    | dict es =>
      refine unfolded_of_parts nofun ?_
      rw [ofValueVia, parts, ofEntriesVia_eq_map, List.map_map, List.forall_mem_map]
      exact ih_entries es rfl
    | cyclic | again => contradiction
    | _ =>
      refine unfolded_of_parts ?_ nofun
      rintro v ⟨⟩
      exact ⟨nofun, nofun, nofun⟩

theorem elaborate_plain (hs : s.Unfolded) :
    ((∃ w, s.elaborate = .ok w) ↔
      ∀ p, s.at? p ≠ some (.list []) ∧ ∀ v, s.at? p ≠ some (.value v)) ∧
    (∀ w, s.elaborate = .ok w ↔ Elaborates s w) ∧
    (∀ w, Elaborates s w → ∀ defs o x, check defs o s x = check defs o (.validator w) x) ∧
    (∀ e, s.elaborate = .error e ↔ s.FirstFault e) ∧
    ∀ e, s.elaborate = .error e →
      (∃ p, s.at? p = some (.list []) ∧ e = .emptyList ∧
        e.message? = some "Empty list cannot be converted to validator") ∨
      ∃ p v, s.at? p = some (.value v) ∧ v.kind ≠ .dict ∧ v.kind ≠ .list ∧
        e = .notConvertible v.kind ∧
        e.message? = some ("Cannot convert " ++ v.kind.name ++ " to validator") := by
  refine ⟨?_, fun w => elaborate_eq_ok_iff, fun w h defs o x => ?_,
    fun e => elaborate_eq_error_iff hs, fun e he => ?_⟩
  · rw [exists_elaborate_iff, faultless_iff]
  · rw [check_of_elaborates defs o h]
  · obtain ⟨p, hp, -⟩ := (elaborate_eq_error_iff hs).mp he
    rcases faultAt?_eq_some_iff.mp hp with ⟨ht, rfl⟩ | ⟨v, hv, rfl⟩
    · exact .inl ⟨p, ht, rfl, rfl⟩
    · obtain ⟨hd, hl, -⟩ := hs p v hv
      exact .inr ⟨p, v, hv, hd, hl, rfl, rfl⟩

def color : Class := .other "Color" "<class \x27colors.Color\x27>" fun v => v.kind = .record "Color"

def mixedSchema (sizes : Value) : Schema :=
  .dict [(.str "name", .ofClass .str), (.str "tags", .list [.ofClass color, .ofClass .date]),
    (.str "sizes", ofValue sizes)]

theorem unfolded_mixedSchema {v : Value} (h : v.Grounded) : (mixedSchema v).Unfolded := by
  have hclass (c : Class) : (Schema.ofClass c).Unfolded := unfolded_of_parts nofun nofun
  have htags : (Schema.list [.ofClass color, .ofClass .date]).Unfolded := by
    refine unfolded_of_parts nofun ?_
    simp [parts, hclass]
  refine unfolded_of_parts nofun ?_
  simp [mixedSchema, parts, hclass, htags, unfolded_ofValue h]

theorem elaborate_plain_mixed :
    ((mixedSchema (.dict [])).Unfolded ∧ Elaborates (mixedSchema (.dict []))
      (.dict [(.str "name", .test (fun v => some (v.kind = .str)) "a string"),
        (.str "tags", .list (.union [
          .test (fun v => some (v.kind = .record "Color")) "an instance of Color",
          .test (fun v => some (v.kind = .date || v.kind = .datetime)) "a date"])),
        (.str "sizes", .dict [])])) ∧
    (mixedSchema (.list [.int 5, .list []])).Unfolded ∧
      (mixedSchema (.list [.int 5, .list []])).FirstFault (.notConvertible .int) := by
  have hempty : (Value.dict []).Grounded := .dict nofun
  have hsizes : (Value.list [.int 5, .list []]).Grounded := by
    apply Value.Grounded.list
    simp only [List.forall_mem_cons, List.not_mem_nil, false_imp_iff, implies_true, and_true]
    exact ⟨.of_scalar rfl rfl rfl rfl, .list nofun⟩
  obtain ⟨-, helaborates, -, -, -⟩ := elaborate_plain (unfolded_mixedSchema hempty)
  obtain ⟨-, -, -, hfault, -⟩ := elaborate_plain (unfolded_mixedSchema hsizes)
  exact ⟨⟨unfolded_mixedSchema hempty, (helaborates _).mp rfl⟩, unfolded_mixedSchema hsizes,
    (hfault _).mp rfl⟩

end Conform.Schema
