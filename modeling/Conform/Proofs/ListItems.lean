import Conform.Proofs.CheckerFaults
import Conform.Proofs.DeclaredFields
import Conform.Proofs.NodeOrder
import Conform.Stock.Functions

namespace Conform

namespace Value

variable {v : Value}

theorem isUndefined_eq_false_iff : v.isUndefined = false ↔ v ≠ .undefined := by
  cases v <;> simp [isUndefined]

theorem items_of_kind_ne (hl : v.kind ≠ .list) (ht : v.kind ≠ .tuple) : v.items? = none := by
  rw [kind] at hl ht
  rw [items?]
  split <;> simp_all

theorem exists_items_of_kind (h : v.kind = .list ∨ v.kind = .tuple) :
    ∃ xs, v.items? = some xs := by
  rw [kind] at h
  unfold items?
  cases hv : v.unrolled <;> simp_all

end Value

namespace Checker

variable {c : Checker} {x v w : Value} {xs ys before : List Value}

theorem sparing_outcomes_iff :
    xs.map (fun x => (c.sparing x).outcome) = ys.map .done ↔
      ys.length = xs.length ∧
        ∀ (i : Nat) (x y : Value), xs[i]? = some x → ys[i]? = some y →
          (c.sparing x).outcome = .done y := by
  induction xs generalizing ys with
  | nil => simp
  | cons x xs ih =>
    cases ys with
    | nil => simp
    | cons y ys =>
      rw [List.map_cons, List.map_cons, List.cons.injEq, ih]
      constructor
      · rintro ⟨hy, hl, hys⟩
        refine ⟨by simp [hl], fun i a b ha hb => ?_⟩
        cases i with
        | zero =>
          cases ha
          cases hb
          exact hy
        | succ i => exact hys i a b ha hb
      · rintro ⟨hl, hys⟩
        exact ⟨hys 0 x y rfl rfl, by simpa using hl, fun i => hys (i + 1)⟩

theorem items_of_not_done (hu : x.isUndefined = false) (hx : ∀ y, (c x).outcome ≠ .done y)
    (n : Nat) (before after after' : List Value) :
    items c n (before ++ x :: after) = items c n (before ++ x :: after') := by
  induction before generalizing n with
  | nil =>
    simp only [List.nil_append, items, hu, Bool.false_eq_true, if_false]
    apply Trace.bind_of_not_done
    exact fun y hy => hx y (under_eq_done_iff.mp hy)
  | cons z before ih => rw [List.cons_append, List.cons_append, items, items, ih]

theorem list_of_not_done (hu : x.isUndefined = false) (hx : ∀ y, (c x).outcome ≠ .done y)
    {after after' : List Value} (hv : v.items? = some (before ++ x :: after))
    (hw : w.items? = some (before ++ x :: after')) : list c v = list c w := by
  rw [list, list, hv, hw]
  exact congrArg (Value.list <$> ·) (items_of_not_done hu hx 0 before after after')

end Checker

namespace Validator

variable (resolve : String → Checker) (o : Display.Options)

def Passes (item : Validator) (x y : Value) : Prop :=
  x = .undefined ∧ y = .undefined ∨
    x ≠ .undefined ∧ (item.run resolve o x).outcome = .done y

structure StopsAt (item : Validator) (xs : List Value) (i : Nat) (x : Value) : Prop where
  get : xs[i]? = some x
  ne_undefined : x ≠ .undefined
  not_done : ∀ y, (item.run resolve o x).outcome ≠ .done y
  before : ∀ j < i, ∀ z, xs[j]? = some z → ∃ y, Passes resolve o item z y

variable {resolve o} {item : Validator} {x y : Value}

theorem passes_iff_sparing :
    Passes resolve o item x y ↔ ((item.run resolve o).sparing x).outcome = .done y := by
  rw [Checker.sparing_eq_done_iff, Passes]
  by_cases hx : x = .undefined
  · subst hx
    simp [Value.isUndefined, eq_comm]
  · simp [hx, Value.isUndefined_eq_false_iff.mpr hx]

theorem exists_passes_iff : (∃ y, Passes resolve o item x y) ↔
    ∃ y, ((item.run resolve o).sparing x).outcome = .done y :=
  exists_congr fun _ => passes_iff_sparing

theorem list_eq_rejected_iff {v : Value} {xs : List Value} {d : Diagnostic}
    (hv : v.items? = some xs) : ((list item).run resolve o v).outcome = .rejected d ↔
      ∃ i x e, StopsAt resolve o item xs i x ∧ (item.run resolve o x).outcome = .rejected e ∧
        e.under (toString i) = d := by
  rw [run, Checker.list_eq_rejected_iff]
  simp only [hv, reduceCtorEq, false_and, false_or, Option.some.injEq,
    ← exists_passes_iff, Checker.sparing_eq_rejected_iff, Value.isUndefined_eq_false_iff]
  constructor
  · rintro ⟨_, i, x, e, rfl, hx, ⟨hu, he⟩, hd, hbefore⟩
    exact ⟨i, x, e, ⟨hx, hu, by simp [he], hbefore⟩, he, hd⟩
  · rintro ⟨i, x, e, hstop, he, hd⟩
    exact ⟨xs, i, x, e, rfl, hstop.get, ⟨hstop.ne_undefined, he⟩, hd, hstop.before⟩

theorem list_eq_raised_iff {v : Value} {xs : List Value} {e : Fault} (hv : v.items? = some xs) :
    ((list item).run resolve o v).outcome = .raised e ↔
      ∃ i x, StopsAt resolve o item xs i x ∧ (item.run resolve o x).outcome = .raised e := by
  rw [run, Checker.list_eq_raised_iff]
  simp only [hv, Option.some.injEq, ← exists_passes_iff, Value.isUndefined_eq_false_iff]
  constructor
  · rintro ⟨before, x, after, rfl, hu, he, hbefore⟩
    obtain ⟨i, hx, hi⟩ := exists_index_iff_append.mpr ⟨before, after, rfl, hbefore⟩
    exact ⟨i, x, ⟨hx, hu, by simp [he], hi⟩, he⟩
  · rintro ⟨i, x, hstop, he⟩
    obtain ⟨before, after, hxs, hbefore⟩ :=
      exists_index_iff_append.mp ⟨i, hstop.get, hstop.before⟩
    exact ⟨before, x, after, hxs, hstop.ne_undefined, he, hbefore⟩

theorem list_eq_done_iff {v w : Value} {xs : List Value} (hv : v.items? = some xs) :
    ((list item).run resolve o v).outcome = .done w ↔
      ∃ ys : List Value, ys.length = xs.length ∧
        (∀ (i : Nat) (x y : Value), xs[i]? = some x → ys[i]? = some y →
          Passes resolve o item x y) ∧ .list ys = w := by
  rw [run, Checker.list_eq_done_iff]
  simp only [hv, Option.some.injEq, Checker.sparing_outcomes_iff, passes_iff_sparing, and_assoc,
    exists_and_left, exists_eq_left']

theorem StopsAt.list_eq {v w : Value} {xs zs : List Value} {i : Nat}
    (h : StopsAt resolve o item xs i x) (hv : v.items? = some xs) (hw : w.items? = some zs)
    (hzs : zs.take (i + 1) = xs.take (i + 1)) :
    (list item).run resolve o w = (list item).run resolve o v := by
  have htake : xs.take (i + 1) = xs.take i ++ [x] := by
    rw [List.take_add_one, h.get, Option.toList_some]
  have hxs : xs = xs.take i ++ x :: xs.drop (i + 1) := by
    rw [List.append_cons, ← htake, List.take_append_drop]
  have hsplit : zs = xs.take i ++ x :: zs.drop (i + 1) := by
    rw [List.append_cons, ← htake, ← hzs, List.take_append_drop]
  rw [hxs] at hv
  rw [hsplit] at hw
  have hu : x.isUndefined = false := Value.isUndefined_eq_false_iff.mpr h.ne_undefined
  exact Checker.list_of_not_done hu h.not_done hw hv

variable (resolve o) in
theorem list_positional (item : Validator) (v : Value) :
    (v.kind ≠ .list → v.kind ≠ .tuple →
      ((list item).run resolve o v).outcome = .rejected ⟨[], v, [⟨"an array", none⟩]⟩) ∧
    (v.kind = .list ∨ v.kind = .tuple → ∃ xs, v.items? = some xs ∧
      (∀ w, ((list item).run resolve o v).outcome = .done w ↔
        ∃ ys : List Value, ys.length = xs.length ∧
          (∀ (i : Nat) (x y : Value), xs[i]? = some x → ys[i]? = some y →
            Passes resolve o item x y) ∧ .list ys = w) ∧
      (∀ d, ((list item).run resolve o v).outcome = .rejected d ↔
        ∃ i x e, StopsAt resolve o item xs i x ∧ (item.run resolve o x).outcome = .rejected e ∧
          e.under (toString i) = d) ∧
      (∀ e, ((list item).run resolve o v).outcome = .raised e ↔
        ∃ i x, StopsAt resolve o item xs i x ∧ (item.run resolve o x).outcome = .raised e) ∧
      ∀ i x, StopsAt resolve o item xs i x → ∀ w zs, w.items? = some zs →
        zs.take (i + 1) = xs.take (i + 1) →
        (list item).run resolve o w = (list item).run resolve o v) ∧
    ∀ (i : Nat) (e : Diagnostic),
      (e.under (toString i)).nodes.map Diagnostic.content =
        e.nodes.map fun n => { n.content with path := toString i :: n.path } := by
  refine ⟨fun hl ht => ?_, fun h => ?_, fun i e => Diagnostic.content_under _ e⟩
  · rw [run, Checker.list, Value.items_of_kind_ne hl ht]
    rfl
  · obtain ⟨xs, hv⟩ := Value.exists_items_of_kind h
    exact ⟨xs, hv, fun w => list_eq_done_iff hv, fun d => list_eq_rejected_iff hv,
      fun e => list_eq_raised_iff hv, fun i x hstop w zs hw hzs => hstop.list_eq hv hw hzs⟩

theorem list_positional_holes :
    let resolve : String → Checker := fun _ => .constant .null
    let item : Validator := .label "a count" .integer
    let v : Value := .tuple [.undefined, .int 1, .str "x", .int 2]
    let w : Value := .list [.undefined, .int 1, .str "x"]
    let d : Diagnostic := ⟨["2"], .str "x", [⟨"an integer", none⟩]⟩
    (v.kind = .list ∨ v.kind = .tuple) ∧
      StopsAt resolve .default item [.undefined, .int 1, .str "x", .int 2] 2 (.str "x") ∧
      ((list item).run resolve .default v).outcome =
        .rejected ⟨["2"], .str "x", [⟨"a count", some d⟩]⟩ ∧
      w.items? = some [.undefined, .int 1, .str "x"] ∧
      (list item).run resolve .default w = (list item).run resolve .default v ∧
      ((list (.function RawFunction.toUndefined)).run resolve .default v).outcome =
        .done (.list [.undefined, .undefined, .undefined, .undefined]) ∧
      ((list (.function RawFunction.raise)).run resolve .default v).outcome = .raised .badValue ∧
      (Value.str "x").kind ≠ .list ∧ (Value.str "x").kind ≠ .tuple ∧
      ((list item).run resolve .default (.str "x")).outcome =
        .rejected ⟨[], .str "x", [⟨"an array", none⟩]⟩ := by
  intro resolve item v w d
  have hkind : v.kind = .list ∨ v.kind = .tuple := .inr rfl
  have hstop :
      StopsAt resolve .default item [.undefined, .int 1, .str "x", .int 2] 2 (.str "x") := by
    refine ⟨rfl, nofun, nofun, fun j hj z hz => ?_⟩
    match j, hj with
    | 0, _ => exact ⟨.undefined, .inl ⟨(Option.some.inj hz).symm, rfl⟩⟩
    | 1, _ =>
      cases hz
      exact ⟨.int 1, .inr ⟨nofun, rfl⟩⟩
  obtain ⟨-, hlist, -⟩ := list_positional resolve .default item v
  obtain ⟨xs, hxs, -, hrejected, -, hlater⟩ := hlist hkind
  cases hxs
  obtain ⟨hother, -⟩ := list_positional resolve .default item (.str "x")
  obtain ⟨-, hlist, -⟩ :=
    list_positional resolve .default (.function RawFunction.toUndefined) v
  obtain ⟨xs, hxs, hdone, -⟩ := hlist hkind
  cases hxs
  obtain ⟨-, hlist, -⟩ := list_positional resolve .default (.function RawFunction.raise) v
  obtain ⟨xs, hxs, -, -, hraised, -⟩ := hlist hkind
  cases hxs
  have hw : w.items? = some [.undefined, .int 1, .str "x"] := rfl
  refine ⟨hkind, hstop, (hrejected _).mpr ⟨2, .str "x", _, hstop, rfl, rfl⟩, hw,
    hlater 2 _ hstop w _ hw rfl,
    (hdone _).mpr ⟨List.replicate 4 .undefined, rfl, fun i x y hx hy => ?_, rfl⟩,
    (hraised _).mpr ⟨1, .int 1, ?_, rfl⟩, nofun, nofun, hother nofun nofun⟩
  · have hi : i < 4 := (List.getElem?_eq_some_iff.mp hx).1
    match i, hi with
    | 0, _ => exact .inl ⟨(Option.some.inj hx).symm, (Option.some.inj hy).symm⟩
    | 1, _ | 2, _ | 3, _ =>
      cases hx
      cases hy
      exact .inr ⟨nofun, rfl⟩
  · refine ⟨rfl, nofun, nofun, fun j hj z hz => ?_⟩
    match j, hj with
    | 0, _ => exact ⟨.undefined, .inl ⟨(Option.some.inj hz).symm, rfl⟩⟩

end Validator

end Conform
