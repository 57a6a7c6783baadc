import Conform.Proofs.SnakeCase
import Mathlib.Data.List.Nodup

namespace Conform

namespace Text

def isSmall (c : Char) : Bool := 'a' ≤ c && c ≤ 'z'

def camelChars : List Char → List Char
  | [] => []
  | [c] => [c]
  | b :: c :: cs =>
    if b = '_' ∧ isSmall c then Char.ofNat (c.toNat - 32) :: camelChars cs
    else b :: camelChars (c :: cs)

def camelCase (name : String) : String := String.ofList (camelChars name.toList)

/-- No underscore stands right before a small letter. -/
def Reversible (name : String) : Prop :=
  name.toList.IsChain fun b c => b = '_' → isSmall c = false

theorem isCapital_iff {c : Char} : isCapital c = true ↔ 65 ≤ c.toNat ∧ c.toNat ≤ 90 := by
  simp only [isCapital, Bool.and_eq_true, decide_eq_true_eq, Char.le_def, UInt32.le_iff_toNat_le]
  rfl

theorem isSmall_iff {c : Char} : isSmall c = true ↔ 97 ≤ c.toNat ∧ c.toNat ≤ 122 := by
  simp only [isSmall, Bool.and_eq_true, decide_eq_true_eq, Char.le_def, UInt32.le_iff_toNat_le]
  rfl

theorem toNat_small {c : Char} (h : isCapital c = true) :
    (Char.ofNat (c.toNat + 32)).toNat = c.toNat + 32 := by
  have hc := isCapital_iff.mp h
  have hv : (c.toNat + 32).isValidChar := .inl (by omega)
  rw [Char.ofNat, dif_pos hv]
  rfl

theorem isSmall_small {c : Char} (h : isCapital c = true) :
    isSmall (Char.ofNat (c.toNat + 32)) = true := by
  have hc := isCapital_iff.mp h
  rw [isSmall_iff, toNat_small h]
  omega

theorem isCapital_small {c : Char} (h : isCapital c = true) :
    isCapital (Char.ofNat (c.toNat + 32)) = false := by
  have hc := isCapital_iff.mp h
  rw [Bool.eq_false_iff, Ne, isCapital_iff, toNat_small h]
  omega

theorem camelChars_cons {b c : Char} (h : b = '_' → isSmall c = false) (cs : List Char) :
    camelChars (b :: c :: cs) = b :: camelChars (c :: cs) := by
  rw [camelChars, if_neg]
  rintro ⟨hb, hc⟩
  rw [h hb] at hc
  contradiction

theorem camelChars_small {c : Char} (h : isCapital c = true) (cs : List Char) :
    camelChars ('_' :: Char.ofNat (c.toNat + 32) :: cs) = c :: camelChars cs := by
  have hc : Char.ofNat (c.toNat + 32 - 32) = c := by rw [Nat.add_sub_cancel, Char.ofNat_toNat]
  rw [camelChars, if_pos ⟨rfl, isSmall_small h⟩, toNat_small h, hc]

theorem camelChars_cons_of_ne {b : Char} (h : b ≠ '_') (cs : List Char) :
    camelChars (b :: cs) = b :: camelChars cs := by
  cases cs with
  | nil => rfl
  | cons c cs => exact camelChars_cons (fun hb => absurd hb h) cs

theorem camelChars_flatMap {b : Char} {cs : List Char}
    (h : (b :: cs).IsChain fun b c => b = '_' → isSmall c = false) :
    camelChars (b :: cs.flatMap splitCapital) = b :: cs := by
  induction cs generalizing b with
  | nil => rfl
  | cons c cs ih =>
    obtain ⟨hbc, hcs⟩ := List.isChain_cons_cons.mp h
    have hrest := ih hcs
    rw [List.flatMap_cons, splitCapital]
    by_cases hc : isCapital c = true
    · -- the underscore is a new one, so nothing that stands before it can go with it
      have hne : c ≠ '_' := by rintro rfl; contradiction
      rw [camelChars_cons_of_ne hne] at hrest
      rw [if_pos hc, List.cons_append, List.cons_append, List.nil_append,
        camelChars_cons (fun _ => rfl), camelChars_small hc, List.tail_eq_of_cons_eq hrest]
    · rw [if_neg hc, List.cons_append, List.nil_append, camelChars_cons hbc, hrest]

theorem camelCase_snakeCase {name : String} (h : Reversible name) :
    camelCase (snakeCase name) = name := by
  rw [camelCase, snakeCase, String.toList_ofList]
  rw [Reversible] at h
  cases hn : name.toList with
  | nil => rw [← String.ofList_toList (s := name), hn]; rfl
  | cons c cs =>
    rw [hn] at h
    rw [snakeChars, camelChars_flatMap h, ← hn, String.ofList_toList]

theorem snakeCase_inj {a b : String} (ha : Reversible a) (hb : Reversible b) :
    snakeCase a = snakeCase b ↔ a = b := by
  refine ⟨fun h => ?_, congrArg snakeCase⟩
  rw [← camelCase_snakeCase ha, h, camelCase_snakeCase hb]

theorem isCapital_of_mem_flatMap {cs : List Char} :
    ∀ c ∈ cs.flatMap splitCapital, isCapital c = false := by
  intro c hc
  obtain ⟨b, -, hb⟩ := List.mem_flatMap.mp hc
  unfold splitCapital at hb
  split at hb
  next hcap =>
    rcases List.mem_pair.mp hb with rfl | rfl
    · rfl
    · exact isCapital_small hcap
  next hcap =>
    rw [List.mem_singleton.mp hb]
    exact Bool.eq_false_iff.mpr hcap

theorem flatMap_splitCapital_eq_self {cs : List Char} (h : ∀ c ∈ cs, isCapital c = false) :
    cs.flatMap splitCapital = cs := by
  have hc : ∀ c ∈ cs, splitCapital c = [c] := by
    intro c hc
    rw [splitCapital, if_neg (by simp [h c hc])]
  rw [List.flatMap_congr hc, List.flatMap_singleton']

theorem length_flatMap_splitCapital (cs : List Char) :
    (cs.flatMap splitCapital).length = cs.length + cs.countP isCapital := by
  induction cs with
  | nil => rfl
  | cons c cs ih =>
    rw [List.flatMap_cons, List.length_append, ih, splitCapital, List.countP_cons]
    split <;> simp only [List.length_cons, List.length_nil] <;> omega

theorem toList_snakeCase (name : String) : (snakeCase name).toList = snakeChars name.toList :=
  String.toList_ofList

theorem tail_snakeChars (cs : List Char) :
    (snakeChars cs).tail = cs.tail.flatMap splitCapital := by
  cases cs <;> rfl

theorem snakeChars_snakeChars (cs : List Char) : snakeChars (snakeChars cs) = snakeChars cs := by
  cases cs with
  | nil => rfl
  | cons c cs =>
    rw [snakeChars, snakeChars, flatMap_splitCapital_eq_self isCapital_of_mem_flatMap]

theorem snakeCase_snakeCase (name : String) : snakeCase (snakeCase name) = snakeCase name := by
  rw [snakeCase, toList_snakeCase, snakeChars_snakeChars]
  rfl

theorem isCapital_of_mem_tail_snakeCase {name : String} :
    ∀ c ∈ (snakeCase name).toList.tail, isCapital c = false := by
  rw [toList_snakeCase, tail_snakeChars]
  exact isCapital_of_mem_flatMap

theorem length_snakeCase (name : String) :
    (snakeCase name).length = name.length + name.toList.tail.countP isCapital := by
  rw [← String.length_toList, ← String.length_toList, toList_snakeCase]
  cases name.toList with
  | nil => rfl
  | cons c cs =>
    simp only [snakeChars, List.length_cons, List.tail_cons, length_flatMap_splitCapital]
    omega

end Text

theorem Table.nodup_snakeNames {α : Type} {es : List (String × α)}
    (h : ∀ e ∈ es, Text.Reversible e.1) (hd : (es.map Prod.fst).Nodup) :
    ((snakeNames es).map Prod.fst).Nodup := by
  have hnames : (snakeNames es).map Prod.fst = (es.map Prod.fst).map Text.snakeCase := by
    simp [snakeNames]
  rw [hnames]
  refine hd.map_on fun a ha b hb hab => ?_
  obtain ⟨e, he, rfl⟩ := List.mem_map.mp ha
  obtain ⟨f, hf, rfl⟩ := List.mem_map.mp hb
  exact (Text.snakeCase_inj (h e he) (h f hf)).mp hab

namespace Validator

variable (resolve : String → Checker) (o : Display.Options)

theorem run_camelCase_of_other_key {name : String} {fs : List (String × Validator)}
    (hd : (fs.map Prod.fst).Nodup) (hname : Text.Reversible name)
    (h : ∀ f ∈ fs, Text.Reversible f.1 ∧ f.1 ≠ name) {v w : Value}
    (hvw : ∀ key, key ≠ Text.snakeCase name →
      Checker.lookup v (.str key) = Checker.lookup w (.str key)) :
    (camelCase fs).run resolve o v =
      ((camelCase fs).run resolve o w).mapRejection fun d => { d with received := v } := by
  rw [run_camelCase_of_nodup resolve o hd]
  refine Checker.snakeDict_congr fun g hg key hkey => hvw _ fun heq => ?_
  obtain ⟨e, he, rfl⟩ := List.mem_map.mp hg
  obtain ⟨f, hf, rfl⟩ := List.mem_map.mp he
  obtain ⟨hf, hne⟩ := h f hf
  cases hkey
  exact hne ((Text.snakeCase_inj hf hname).mp heq)

theorem snakeNames_separate :
    (∀ name, Text.Reversible name → Text.camelCase (Text.snakeCase name) = name) ∧
    (∀ a b, Text.Reversible a → Text.Reversible b → Text.snakeCase a = Text.snakeCase b → a = b) ∧
    (∀ fs : List (String × Validator),
      (∀ f ∈ fs, Text.Reversible f.1) → (fs.map Prod.fst).Nodup →
        ((Table.snakeNames fs).map Prod.fst).Nodup ∧
        ∀ before f after, fs = before ++ f :: after → ∀ v w : Value,
          (∀ key, key ≠ Text.snakeCase f.1 →
            Checker.lookup v (.str key) = Checker.lookup w (.str key)) →
          (camelCase (before ++ after)).run resolve o v =
            ((camelCase (before ++ after)).run resolve o w).mapRejection
              fun d => { d with received := v }) ∧
    ∀ name, Text.snakeCase (Text.snakeCase name) = Text.snakeCase name ∧
      (∀ c ∈ (Text.snakeCase name).toList.tail, Text.isCapital c = false) ∧
      (Text.snakeCase name).length = name.length + name.toList.tail.countP Text.isCapital := by
  refine ⟨fun _ => Text.camelCase_snakeCase, fun a b ha hb => (Text.snakeCase_inj ha hb).mp,
    fun fs h hd => ⟨Table.nodup_snakeNames h hd, ?_⟩, fun name => ⟨Text.snakeCase_snakeCase name,
      Text.isCapital_of_mem_tail_snakeCase, Text.length_snakeCase name⟩⟩
  rintro before f after rfl v w hvw
  rw [List.map_append, List.map_cons, List.nodup_middle, List.nodup_cons, ← List.map_append] at hd
  have hmem : ∀ g ∈ before ++ after, g ∈ before ++ f :: after := by grind
  refine run_camelCase_of_other_key resolve o hd.2 (h f (by simp)) (fun g hg => ?_) hvw
  refine ⟨h g (hmem g hg), fun heq => hd.1 ?_⟩
  rw [← heq]
  exact List.mem_map_of_mem hg

theorem snakeNames_separate_person :
    let before := [("userId", string)]
    let f := ("userID", integer)
    let after := [("_Id", unknown)]
    let v := Value.dict
      [(.str "user_id", .str "u"), (.str "user_i_d", .int 7), (.str "__id", .null)]
    let w := Value.dict [(.str "user_id", .str "u"), (.str "__id", .null)]
    let resolve : String → Checker := fun _ => .constant .null
    (∀ g ∈ before ++ f :: after, Text.Reversible g.1) ∧
      ((before ++ f :: after).map Prod.fst).Nodup ∧
      Text.camelCase (Text.snakeCase "_Id") = "_Id" ∧
      (Text.snakeCase "userId" = Text.snakeCase "userID" → "userId" = "userID") ∧
      (∀ key, key ≠ Text.snakeCase f.1 →
        Checker.lookup v (.str key) = Checker.lookup w (.str key)) ∧
      ((Table.snakeNames (before ++ f :: after)).map Prod.fst).Nodup ∧
      (camelCase (before ++ after)).run resolve .default v =
        ((camelCase (before ++ after)).run resolve .default w).mapRejection
          fun d => { d with received := v } := by
  intro before f after v w resolve
  have hall : ∀ g ∈ before ++ f :: after, Text.Reversible g.1 := by
    unfold Text.Reversible
    decide
  have hnodup : ((before ++ f :: after).map Prod.fst).Nodup := by decide
  have hvw : ∀ key, key ≠ Text.snakeCase f.1 →
      Checker.lookup v (.str key) = Checker.lookup w (.str key) := by
    intro key hkey
    have hs : Text.snakeCase f.1 = "user_i_d" := by decide
    have hother : ¬(Value.str "user_i_d").equal (.str key) = true := by
      rw [hs] at hkey
      simpa [Value.equal, Value.equalVia] using hkey.symm
    simp [v, w, Checker.lookup, Value.refusal?, Value.field, Value.held?, Value.unrolled,
      Table.lookup?_cons, hother]
  obtain ⟨hread, hinj, hfields, -⟩ := snakeNames_separate resolve .default
  obtain ⟨hkeys, hrun⟩ := hfields _ hall hnodup
  exact ⟨hall, hnodup, hread _ (hall ("_Id", unknown) (by simp [before, after])),
    hinj _ _ (hall ("userId", string) (by simp [before])) (hall f (by simp)), hvw, hkeys,
    hrun before f after rfl v w hvw⟩

end Validator

end Conform
