import Conform.Proofs.CheckerOutcome
import Conform.Proofs.ValueParts
import Conform.Validator.Run
import Conform.Validator.Stock

/-!
What a literal says about the parts of the values that it accepts. They are equal to its own parts,
place by place. Of the same kinds they are for certain only if nothing of another kind is equal to a
part of the literal.
-/

namespace Conform

namespace Value

def SameKind (v w : Value) : Prop :=
  v.kind = w.kind ∨ Validator.isNumber v = true ∧ Validator.isNumber w = true

def SameParts (v w : Value) : Prop :=
  ∀ p, Option.Rel (fun a b => a.equal b = true) (v.at? p) (w.at? p)

/-- The same places, with equal values of the same kind in them. -/
def Alike (v w : Value) : Prop :=
  ∀ p, Option.Rel (fun a b => a.equal b = true ∧ SameKind a b) (v.at? p) (w.at? p)

def OwnKind (w : Value) : Prop := ∀ v : Value, v.Keyed → v.equal w = true → SameKind v w

theorem ownKind_of_no_number_or_mapping {w : Value} (hn : w.unrolled.number? = none)
    (hm : w.isMapping = false) : OwnKind w := by
  intro v _ h
  cases Match.of_equal h with
  | numbers _ hw => rw [hn] at hw; contradiction
  | mappings _ hw => rw [isMapping, hw] at hm; contradiction
  | arrays _ _ hk => exact .inl hk
  | others _ _ hk => exact .inl hk

theorem exists_equal_mapping {w : Value} {es : Table Value} (hes : w.entries? = some es) :
    ∃ v, v.entries? = some es ∧ v.equal w = true ∧ ¬ SameKind v w := by
  have hself : ∃ fs, w.entries? = some fs ∧ es.length = fs.length ∧
      ∀ e ∈ es, ∃ f ∈ fs, e.1.equal f.1 = true ∧ e.2.equal f.2 = true :=
    ⟨es, hes, rfl, fun e he => ⟨e, he, equal_self e.1, equal_self e.2⟩⟩
  by_cases hk : w.kind = .view
  · refine ⟨.dict es, rfl, (mapping_equalVia_iff rfl rfl).mpr hself, ?_⟩
    rintro (h | ⟨h, -⟩)
    · rw [hk] at h
      contradiction
    · contradiction
  · refine ⟨.view es, rfl, (mapping_equalVia_iff rfl rfl).mpr hself, ?_⟩
    rintro (h | ⟨h, -⟩)
    · exact hk h.symm
    · contradiction

theorem equal_of_equals {v w : Value} (h : v.equals w = true) : v.equal w = true := by
  rw [equals, Bool.and_eq_true] at h
  exact h.2

theorem not_ownKind {w : Value} (hw : w.Keyed)
    (h : w.kind = .bool ∨ w.kind = .int ∨ w.isMapping = true) : ¬ OwnKind w := by
  intro hown
  rcases h with hk | hk | hm
  · have hw := unrolled_of_scalar_kind (v := w) (by simp [hk, scalarKinds])
    rw [kind, hw] at hk
    cases w with
    | bool b =>
      have hsame := hown (.int (if b then 1 else 0)) (.scalar rfl rfl)
        (by simp [equal, equalVia, number?, Number.equal])
      rcases hsame with hsame | ⟨-, hsame⟩ <;> contradiction
    | _ => contradiction
  · have hw := unrolled_of_scalar_kind (v := w) (by simp [hk, scalarKinds])
    rw [kind, hw] at hk
    cases w with
    | int n =>
      have hsame := hown (.decimal (.ofInt n)) (.scalar rfl rfl)
        (by simp [equal, equalVia, number?, Number.equal, Number.toDecimal, Decimal.ofInt,
          Number.isNaN])
      rcases hsame with hsame | ⟨hsame, -⟩ <;> contradiction
    | _ => contradiction
  · obtain ⟨es, hes⟩ := Option.isSome_iff_exists.mp hm
    obtain ⟨v, hv, he, hk⟩ := exists_equal_mapping hes
    exact hk (hown v (hw.of_entries hes hv) he)

end Value

namespace Validator

open Value

variable {resolve : String → Checker} {o : Display.Options} {l v w : Value}

theorem isBoolean_iff {b : Bool} : isBoolean b v = true ↔ v = .bool b := by
  cases v with
  | bool c => cases b <;> cases c <;> simp [isBoolean]
  | _ => simp [isBoolean]

theorem of_literal_done (h : ((literal l).run resolve o v).outcome = .done w) :
    v = w ∧ SameKind v l ∧ v.equal l = true := by
  have hother : ∀ label,
      ((testing (fun v => v.kind = l.kind && v.equals l) label).run resolve o v).outcome = .done w →
        v = w ∧ SameKind v l ∧ v.equal l = true := by
    intro label h
    obtain ⟨hp, rfl⟩ := Checker.test_eq_done_iff.mp h
    simp only [Option.some.injEq, Bool.and_eq_true, decide_eq_true_eq] at hp
    exact ⟨rfl, .inl hp.1, equal_of_equals hp.2⟩
  cases l with
  | bool b =>
    have hb : (testing (isBoolean b) (if b then "true" else "false")).run resolve o v =
        (literal (.bool b)).run resolve o v := by cases b <;> rfl
    rw [← hb] at h
    obtain ⟨hp, rfl⟩ := Checker.test_eq_done_iff.mp h
    rw [Option.some.injEq, isBoolean_iff] at hp
    rw [hp]
    exact ⟨rfl, .inl rfl, equal_self _⟩
  | null =>
    obtain ⟨hp, rfl⟩ := Checker.test_eq_done_iff.mp h
    rw [Option.some.injEq, Class.has, decide_eq_true_eq] at hp
    have hv := unrolled_of_scalar_kind (v := v) (by simp [hp, scalarKinds])
    rw [kind, hv] at hp
    cases v with
    | null => exact ⟨rfl, .inl rfl, rfl⟩
    | _ => contradiction
  | str s =>
    obtain ⟨hp, rfl⟩ := Checker.test_eq_done_iff.mp h
    rw [Option.some.injEq, Bool.and_eq_true, decide_eq_true_eq] at hp
    exact ⟨rfl, .inl hp.1, hp.2⟩
  | int n | float x =>
    obtain ⟨hp, rfl⟩ := Checker.test_eq_done_iff.mp h
    rw [Option.some.injEq, Bool.and_eq_true] at hp
    exact ⟨rfl, .inr ⟨hp.1, rfl⟩, equal_of_equals hp.2⟩
  | _ => exact hother _ h

theorem literal_done_of_equal (hl : l.isArray = true ∨ l.isMapping = true) (hk : v.kind = l.kind)
    (h : v.equal l = true) : ((literal l).run resolve o v).outcome = .done v := by
  have hnan : v.isNaN = false := by
    cases hn : v.number? with
    | none => rw [isNaN, hn, Option.any_none]
    | some m =>
      -- a number equals numbers only
      rw [equal_of_number hn, Option.any_eq_true] at h
      obtain ⟨n, hln, -⟩ := h
      cases l <;> first | contradiction | (rcases hl with hl | hl <;> contradiction)
  have htest : ((testing (fun v => v.kind = l.kind && v.equals l) l.literal).run resolve o v).outcome
      = .done v := by
    refine Checker.test_eq_done_iff.mpr ⟨?_, rfl⟩
    simp [hk, equals, hnan, h]
  cases l with
  | list | tuple | dict | view | mapping | cyclic => exact htest
  | _ => rcases hl with hl | hl <;> contradiction

theorem literal_alike_iff (resolve : String → Checker) (o : Display.Options) {l : Value}
    (hl : l.Keyed) :
    (∀ v : Value, v.Keyed → ∀ w, ((literal l).run resolve o v).outcome = .done w →
      v = w ∧ SameKind v l ∧ SameParts v l) ∧
    ((∀ v : Value, v.Keyed → ∀ w, ((literal l).run resolve o v).outcome = .done w → Alike v l) ↔
      ∀ t w, l.part? t = some w → w.Everywhere OwnKind) := by
  refine ⟨fun v hv w h => ?_, fun h t u hu p w hw x hx hxw => ?_, fun h v hv w hvw p => ?_⟩
  · obtain ⟨hw, hk, he⟩ := of_literal_done h
    exact ⟨hw, hk, rel_at? hv hl he⟩
  · -- the literal with `x` at this place is accepted
    have hplace : l.at? (t :: p) = some w := by
      rw [at?, hu]
      exact hw
    obtain ⟨v, hv, he, hvp, hk⟩ := exists_exchanged hl hplace hx hxw
    have haccepted : ((literal l).run resolve o v).outcome = .done v :=
      literal_done_of_equal (container_of_part hu) (hk (List.cons_ne_nil t p)) he
    have hrel := h v hv v haccepted (t :: p)
    rw [hvp, hplace] at hrel
    cases hrel with
    | some hxw => exact hxw.2
  · obtain ⟨-, hk, he⟩ := of_literal_done hvw
    cases p with
    | nil => exact .some ⟨he, hk⟩
    | cons t p =>
      have hrel := rel_at? hv hl he (t :: p)
      generalize hvp : v.at? (t :: p) = a, hlp : l.at? (t :: p) = b at hrel
      cases hrel with
      | none => exact .none
      | @some a b hab =>
        obtain ⟨u, hu, hb⟩ := Option.bind_eq_some_iff.mp hlp
        exact .some ⟨hab, h t u hu p b hb a (hv.at? hvp) hab⟩

theorem literal_alike_iff_tags :
    let l := Value.dict [(.str "tags", .list [.str "a", .null])]
    let m := Value.list [.str "a", .tuple [.int 2]]
    let resolve : String → Checker := fun _ => .constant .null
    l.Keyed ∧ ((literal l).run resolve .default l).outcome = .done l ∧
      (∀ v : Value, v.Keyed → ∀ w, ((literal l).run resolve .default v).outcome = .done w →
        Alike v l) ∧
      m.Keyed ∧
      ¬ ∀ v : Value, v.Keyed → ∀ w, ((literal m).run resolve .default v).outcome = .done w →
        Alike v m := by
  intro l m resolve
  have htags : (Value.list [.str "a", .null]).Keyed :=
    .array rfl (List.forall_mem_cons.mpr
      ⟨.scalar rfl rfl, List.forall_mem_singleton.mpr (.scalar rfl rfl)⟩)
  have hl : l.Keyed :=
    .mapping rfl ⟨List.forall_mem_singleton.mpr (.scalar rfl), List.pairwise_singleton _ _⟩
      (List.forall_mem_singleton.mpr htags)
  have hm : m.Keyed :=
    .array rfl (List.forall_mem_cons.mpr ⟨.scalar rfl rfl, List.forall_mem_singleton.mpr
      (.array rfl (List.forall_mem_singleton.mpr (.scalar rfl rfl)))⟩)
  refine ⟨hl, literal_done_of_equal (.inr rfl) rfl (equal_self l),
    (literal_alike_iff resolve .default hl).2.mpr fun t w hw => ?_, hm, fun h => ?_⟩
  · -- the one part is the list
    cases t with
    | item n => contradiction
    | entry k =>
      obtain ⟨e, he, rfl⟩ := Option.map_eq_some_iff.mp hw
      rw [List.mem_singleton.mp (List.mem_of_find?_eq_some he)]
      have hown : ∀ v : Value, v.unrolled.number? = none → v.isMapping = false → OwnKind v :=
        fun _ => ownKind_of_no_number_or_mapping
      exact everywhere_of_items rfl (hown _ rfl rfl) (List.forall_mem_cons.mpr
        ⟨everywhere_of_scalar (hown _ rfl rfl) rfl rfl,
          List.forall_mem_singleton.mpr (everywhere_of_scalar (hown _ rfl rfl) rfl rfl)⟩)
  · have hown := (literal_alike_iff resolve .default hm).2.mp h (.item 1) _ rfl [.item 0] _ rfl
    exact not_ownKind (.scalar rfl rfl) (.inr (.inl rfl)) hown

theorem literal_list_takes_bool :
    let resolve : String → Checker := fun _ => .constant .null
    ((literal (.list [.int 1])).run resolve .default (.list [.bool true])).outcome =
        .done (.list [.bool true]) ∧
      ¬ Alike (.list [.bool true]) (.list [.int 1]) := by
  intro resolve
  refine ⟨literal_done_of_equal (.inl rfl) rfl ?_, fun h => ?_⟩
  · simp [equal, equalVia, allVia, unrolled, number?, Number.equal]
  · cases h [.item 0] with
    | some h => rcases h.2 with hk | ⟨hk, -⟩ <;> contradiction

end Validator

end Conform
