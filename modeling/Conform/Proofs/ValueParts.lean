import Conform.Proofs.EqualTables
import Conform.Proofs.Unrolling
import Mathlib.Data.Option.Basic

namespace Conform

namespace Value

inductive Match : Value → Value → Prop
  | numbers {v w : Value} {m n : Number} (hv : v.unrolled.number? = some m)
      (hw : w.unrolled.number? = some n) : Match v w
  | arrays {v w : Value} {xs ys : List Value} (hv : v.items? = some xs) (hw : w.items? = some ys)
      (hk : v.kind = w.kind) (h : List.Forall₂ (fun x y => x.equal y = true) xs ys) : Match v w
  | mappings {v w : Value} {es fs : Table Value} (hv : v.entries? = some es)
      (hw : w.entries? = some fs) (hl : es.length = fs.length)
      (h : ∀ e ∈ es, ∃ f ∈ fs, e.1.equal f.1 = true ∧ e.2.equal f.2 = true) : Match v w
  | others {v w : Value} (hv : v.isArray = false ∧ v.isMapping = false)
      (hw : w.isArray = false ∧ w.isMapping = false) (hk : v.kind = w.kind) : Match v w

theorem kind_unrolled (v : Value) : v.unrolled.kind = v.kind := by
  rw [kind, kind, unrolled_unrolled]

theorem items?_unrolled (v : Value) : v.unrolled.items? = v.items? := by
  rw [items?, items?, unrolled_unrolled]

theorem entries?_unrolled (v : Value) : v.unrolled.entries? = v.entries? := by
  rw [entries?, entries?, unrolled_unrolled]

theorem Match.of_unrolled {v w : Value} (h : Match v.unrolled w.unrolled) : Match v w := by
  cases h with
  | numbers hv hw =>
    rw [unrolled_unrolled] at hv hw
    exact .numbers hv hw
  | arrays hv hw hk h =>
    rw [items?_unrolled] at hv hw
    rw [kind_unrolled, kind_unrolled] at hk
    exact .arrays hv hw hk h
  | mappings hv hw hl h =>
    rw [entries?_unrolled] at hv hw
    exact .mappings hv hw hl h
  | others hv hw hk =>
    rw [isArray, isMapping, items?_unrolled, entries?_unrolled] at hv hw
    rw [kind_unrolled, kind_unrolled] at hk
    exact .others hv hw hk

theorem Match.of_equal_unrolled {v w : Value} (hv : v.unrolled = v) (h : v.equal w = true) :
    Match v w := by
  cases v with
  | bool | int | float | decimal =>
    rw [equal_of_number rfl, Option.any_eq_true] at h
    obtain ⟨n, hn, -⟩ := h
    have hw : w.unrolled = w := by cases w <;> first | rfl | contradiction
    exact .numbers rfl (hw ▸ hn)
  | list xs =>
    obtain ⟨ys, hw, hall⟩ := list_equalVia_iff.mp h
    exact .arrays rfl (by rw [items?, hw]) (by rw [kind, kind, hv, hw]) hall
  | tuple xs =>
    obtain ⟨ys, hw, hall⟩ := tuple_equalVia_iff.mp h
    exact .arrays rfl (by rw [items?, hw]) (by rw [kind, kind, hv, hw]) hall
  | dict es | view es | mapping _ _ _ es _ =>
    obtain ⟨fs, hw, hl, hall⟩ := (mapping_equalVia_iff rfl rfl).mp h
    exact .mappings rfl hw hl hall
  | set xs =>
    obtain ⟨ys, hw, -⟩ := set_equalVia_iff.mp h
    exact .others ⟨rfl, rfl⟩ (by simp [isArray, isMapping, items?, entries?, hw])
      (by rw [kind, kind, hv, hw])
  | record type fs =>
    obtain ⟨gs, hw, -⟩ := record_equalVia_iff.mp h
    exact .others ⟨rfl, rfl⟩ (by simp [isArray, isMapping, items?, entries?, hw])
      (by rw [kind, kind, hv, hw])
  | cyclic i nodes n => exact absurd hv (unrolled_ne_cyclic _ i nodes n)
  | object type i =>
    cases w with
    | object type' j =>
      simp only [equal, equalVia, Bool.and_eq_true, beq_iff_eq] at h
      exact .others ⟨rfl, rfl⟩ ⟨rfl, rfl⟩ (congrArg Kind.object h.1)
    | _ => contradiction
  | undefined | null | str | bytes | date | datetime | again =>
    cases w with
    | undefined | null | str | bytes | date | datetime | again =>
      first
      | exact .others ⟨rfl, rfl⟩ ⟨rfl, rfl⟩ rfl
      | contradiction
    | _ => contradiction

theorem Match.of_equal {v w : Value} (h : v.equal w = true) : Match v w :=
  .of_unrolled (.of_equal_unrolled (unrolled_unrolled v) (equal_unrolled h))

inductive Turn
  | item (n : Nat)
  | entry (key : Value)

def part? (v : Value) : Turn → Option Value
  | .item n => v.items?.bind fun xs => xs[n]?
  | .entry k => v.entries?.bind fun es => Table.lookup? es k

def at? : Value → List Turn → Option Value
  | v, [] => some v
  | v, t :: p => (v.part? t).bind fun w => at? w p

def Everywhere (P : Value → Prop) (v : Value) : Prop := ∀ p w, v.at? p = some w → P w

theorem everywhere_iff {P : Value → Prop} {v : Value} :
    v.Everywhere P ↔ P v ∧ ∀ t w, v.part? t = some w → w.Everywhere P := by
  constructor
  · intro h
    refine ⟨h [] v rfl, fun t w hw p u hu => h (t :: p) u ?_⟩
    rw [at?, hw]
    exact hu
  · rintro ⟨hv, hparts⟩ p w hw
    cases p with
    | nil =>
      cases hw
      exact hv
    | cons t p =>
      obtain ⟨u, hu, hw⟩ := Option.bind_eq_some_iff.mp hw
      exact hparts t u hu p w hw

theorem Everywhere.at? {P : Value → Prop} {v w : Value} {p : List Turn} (h : v.Everywhere P)
    (hw : v.at? p = some w) : w.Everywhere P := by
  induction p generalizing v with
  | nil =>
    cases hw
    exact h
  | cons t p ih =>
    obtain ⟨u, hu, hw⟩ := Option.bind_eq_some_iff.mp hw
    exact ih ((everywhere_iff.mp h).2 t u hu) hw

def Keyed : Value → Prop := Everywhere fun v => ∀ es, v.entries? = some es → Table.Keyed es

variable {v w y : Value} {t : Turn}

theorem entries?_of_items {xs : List Value} (h : v.items? = some xs) : v.entries? = none := by
  rw [items?] at h
  rw [entries?]
  cases hv : v.unrolled <;> first | rfl | (rw [hv] at h; contradiction)

theorem items?_of_entries {es : Table Value} (h : v.entries? = some es) : v.items? = none := by
  rw [entries?] at h
  rw [items?]
  cases hv : v.unrolled <;> first | rfl | (rw [hv] at h; contradiction)

theorem part?_of_scalar (hi : v.isArray = false) (he : v.isMapping = false) (t : Turn) :
    v.part? t = none := by
  have hi' : v.items? = none := by simpa [isArray] using hi
  have he' : v.entries? = none := by simpa [isMapping] using he
  cases t with
  | item n => rw [part?, hi']; rfl
  | entry k => rw [part?, he']; rfl

theorem everywhere_of_scalar {P : Value → Prop} (h : P v) (hi : v.isArray = false)
    (he : v.isMapping = false) : v.Everywhere P := by
  refine everywhere_iff.mpr ⟨h, fun t w hw => ?_⟩
  rw [part?_of_scalar hi he] at hw
  contradiction

theorem everywhere_of_items {P : Value → Prop} {xs : List Value} (hxs : v.items? = some xs)
    (h : P v) (hparts : ∀ x ∈ xs, x.Everywhere P) : v.Everywhere P := by
  refine everywhere_iff.mpr ⟨h, fun t w hw => ?_⟩
  cases t with
  | item n =>
    rw [part?, hxs] at hw
    exact hparts w (List.mem_of_getElem? hw)
  | entry k =>
    rw [part?, entries?_of_items hxs] at hw
    contradiction

theorem everywhere_of_entries {P : Value → Prop} {es : Table Value} (hes : v.entries? = some es)
    (h : P v) (hparts : ∀ e ∈ es, e.2.Everywhere P) : v.Everywhere P := by
  refine everywhere_iff.mpr ⟨h, fun t w hw => ?_⟩
  cases t with
  | item n =>
    rw [part?, items?_of_entries hes] at hw
    contradiction
  | entry k =>
    rw [part?, hes] at hw
    obtain ⟨e, he, rfl⟩ := Option.map_eq_some_iff.mp hw
    exact hparts e (List.mem_of_find?_eq_some he)

theorem Keyed.scalar (hi : v.isArray = false) (he : v.isMapping = false) : v.Keyed := by
  refine everywhere_of_scalar (fun es hes => ?_) hi he
  rw [isMapping, hes] at he
  contradiction

theorem Keyed.array {xs : List Value} (hxs : v.items? = some xs) (h : ∀ x ∈ xs, x.Keyed) :
    v.Keyed := by
  refine everywhere_of_items hxs (fun es hes => ?_) h
  rw [entries?_of_items hxs] at hes
  contradiction

theorem Keyed.mapping {es : Table Value} (hes : v.entries? = some es) (hk : Table.Keyed es)
    (h : ∀ e ∈ es, e.2.Keyed) : v.Keyed := by
  refine everywhere_of_entries hes (fun fs hfs => ?_) h
  rw [hes, Option.some.injEq] at hfs
  rwa [← hfs]

theorem Keyed.of_entries {es : Table Value} (hv : v.Keyed) (hes : v.entries? = some es)
    (hw : w.entries? = some es) : w.Keyed := by
  have hsame : ∀ t, w.part? t = v.part? t := by
    intro t
    cases t with
    | item n => rw [part?, part?, items?_of_entries hes, items?_of_entries hw]
    | entry k => rw [part?, part?, hes, hw]
  obtain ⟨hkeys, hparts⟩ := everywhere_iff.mp hv
  refine everywhere_iff.mpr ⟨fun fs hfs => ?_, fun t u hu => hparts t u (by rwa [← hsame])⟩
  rw [hw, ← hes] at hfs
  exact hkeys fs hfs

theorem container_of_part (h : v.part? t = some w) : v.isArray = true ∨ v.isMapping = true := by
  cases t with
  | item n =>
    obtain ⟨xs, hxs, -⟩ := Option.bind_eq_some_iff.mp h
    exact .inl (by rw [isArray, hxs]; rfl)
  | entry k =>
    obtain ⟨es, hes, -⟩ := Option.bind_eq_some_iff.mp h
    exact .inr (by rw [isMapping, hes]; rfl)

theorem part?_of_number {m : Number} (h : v.unrolled.number? = some m) (t : Turn) :
    v.part? t = none := by
  apply part?_of_scalar
  · rw [isArray, items?]
    cases hv : v.unrolled <;> first | rfl | (rw [hv] at h; contradiction)
  · rw [isMapping, entries?]
    cases hv : v.unrolled <;> first | rfl | (rw [hv] at h; contradiction)

theorem rel_part? (hv : v.Keyed) (hw : w.Keyed) (h : v.equal w = true) (t : Turn) :
    Option.Rel (fun v w => v.equal w = true) (v.part? t) (w.part? t) := by
  cases Match.of_equal h with
  | numbers hm hn =>
    rw [part?_of_number hm, part?_of_number hn]
    exact .none
  | others hs hs' =>
    rw [part?_of_scalar hs.1 hs.2, part?_of_scalar hs'.1 hs'.2]
    exact .none
  | arrays hxs hys _ hall =>
    cases t with
    | item n =>
      rw [part?, part?, hxs, hys]
      exact rel_getElem? hall n
    | entry k =>
      rw [part?, part?, entries?_of_items hxs, entries?_of_items hys]
      exact .none
  | mappings hes hfs hl hwithin =>
    cases t with
    | item n =>
      rw [part?, part?, items?_of_entries hes, items?_of_entries hfs]
      exact .none
    | entry k =>
      rw [part?, part?, hes, hfs]
      exact Table.rel_lookup? (hv [] v rfl _ hes) (hw [] w rfl _ hfs) hl hwithin k

theorem rel_at? (hv : v.Keyed) (hw : w.Keyed) (h : v.equal w = true) (p : List Turn) :
    Option.Rel (fun v w => v.equal w = true) (v.at? p) (w.at? p) := by
  induction p generalizing v w with
  | nil => exact .some h
  | cons t p ih =>
    have hrel := rel_part? hv hw h t
    rw [at?, at?]
    generalize hvt : v.part? t = a, hwt : w.part? t = b at hrel
    cases hrel with
    | none => exact .none
    | some hab => exact ih ((everywhere_iff.mp hv).2 t _ hvt) ((everywhere_iff.mp hw).2 t _ hwt) hab

def replace (v : Value) (t : Turn) (y : Value) : Value :=
  match v.unrolled, t with
  | .list xs, .item n => .list (xs.set n y)
  | .tuple xs, .item n => .tuple (xs.set n y)
  | .dict es, .entry k => .dict (Table.insert es k y)
  | .view es, .entry k => .view (Table.insert es k y)
  | .mapping type held refusal walked stop, .entry k =>
    .mapping type held refusal (Table.insert walked k y) stop
  | _, _ => v

theorem kind_replace : (v.replace t y).kind = v.kind := by
  unfold replace
  split
  next h => exact (congrArg kind h).symm.trans (kind_unrolled v)
  next h => exact (congrArg kind h).symm.trans (kind_unrolled v)
  next h => exact (congrArg kind h).symm.trans (kind_unrolled v)
  next h => exact (congrArg kind h).symm.trans (kind_unrolled v)
  next h => exact (congrArg kind h).symm.trans (kind_unrolled v)
  next => rfl

theorem replace_item {xs : List Value} (h : v.items? = some xs) (n : Nat) (y : Value) :
    v.unrolled = .list xs ∧ v.replace (.item n) y = .list (xs.set n y) ∨
      v.unrolled = .tuple xs ∧ v.replace (.item n) y = .tuple (xs.set n y) := by
  rw [items?] at h
  split at h
  next hv =>
    cases h
    exact .inl ⟨hv, by simp only [replace, hv]⟩
  next hv =>
    cases h
    exact .inr ⟨hv, by simp only [replace, hv]⟩
  next => contradiction

theorem items?_replace {xs : List Value} (h : v.items? = some xs) (n : Nat) (y : Value) :
    (v.replace (.item n) y).items? = some (xs.set n y) := by
  rcases replace_item h n y with ⟨-, h⟩ | ⟨-, h⟩ <;> rw [h] <;> rfl

theorem replace_entry {es : Table Value} (h : v.entries? = some es) (k y : Value) :
    (v.replace (.entry k) y).unrolled = v.replace (.entry k) y ∧
      (v.replace (.entry k) y).entries? = some (es.insert k y) := by
  rw [entries?] at h
  cases hv : v.unrolled with
  | dict | view | mapping =>
    rw [hv] at h
    cases h
    simp only [replace, hv]
    exact ⟨rfl, rfl⟩
  | _ =>
    rw [hv] at h
    contradiction

theorem forall₂_set {xs : List Value} {n : Nat} (h : xs[n]? = some w) (hy : y.equal w = true) :
    List.Forall₂ (fun x y => x.equal y = true) (xs.set n y) xs := by
  induction xs generalizing n with
  | nil => contradiction
  | cons x xs ih =>
    cases n with
    | zero =>
      cases h
      exact .cons hy (List.forall₂_same.mpr fun x _ => equal_self x)
    | succ n => exact .cons (equal_self x) (ih h)

theorem entries_insert {es : Table Value} {k : Value} (h : es.lookup? k = some w)
    (hy : y.equal w = true) : (es.insert k y).length = es.length ∧
      ∀ e ∈ es.insert k y, ∃ f ∈ es, e.1.equal f.1 = true ∧ e.2.equal f.2 = true := by
  obtain ⟨before, l, after, rfl, hins⟩ := Table.exists_insert_eq h y
  rw [hins]
  refine ⟨by simp, fun e he => ?_⟩
  rcases List.mem_cons.mp (List.perm_middle.mem_iff.mp he) with rfl | he
  · exact ⟨(l, w), by simp, equal_self l, hy⟩
  · exact ⟨e, List.perm_middle.mem_iff.mpr (List.mem_cons_of_mem _ he), equal_self _, equal_self _⟩

theorem equal_replace (h : v.part? t = some w) (hy : y.equal w = true) :
    (v.replace t y).equal v = true := by
  cases t with
  | item n =>
    obtain ⟨xs, hxs, hn⟩ := Option.bind_eq_some_iff.mp h
    rcases replace_item hxs n y with ⟨hv, hr⟩ | ⟨hv, hr⟩
    · rw [hr]
      exact list_equalVia_iff.mpr ⟨xs, hv, forall₂_set hn hy⟩
    · rw [hr]
      exact tuple_equalVia_iff.mpr ⟨xs, hv, forall₂_set hn hy⟩
  | entry k =>
    obtain ⟨es, hes, hk⟩ := Option.bind_eq_some_iff.mp h
    obtain ⟨hr, hreplaced⟩ := replace_entry hes k y
    exact (mapping_equalVia_iff hr hreplaced).mpr ⟨es, hes, entries_insert hk hy⟩

theorem part?_replace_self (h : v.part? t = some w) : (v.replace t y).part? t = some y := by
  cases t with
  | item n =>
    obtain ⟨xs, hxs, hn⟩ := Option.bind_eq_some_iff.mp h
    rw [part?, items?_replace hxs]
    exact List.getElem?_set_self (List.getElem?_eq_some_iff.mp hn).1
  | entry k =>
    obtain ⟨es, hes, -⟩ := Option.bind_eq_some_iff.mp h
    rw [part?, (replace_entry hes k y).2]
    exact Table.lookup?_insert_self es k y

theorem exists_part?_of_replace (hv : v.Keyed) (h : v.part? t = some w) {s : Turn} {u : Value}
    (hu : (v.replace t y).part? s = some u) : u = y ∨ ∃ r, v.part? r = some u := by
  cases t with
  | item n =>
    obtain ⟨xs, hxs, -⟩ := Option.bind_eq_some_iff.mp h
    have hreplaced := items?_replace hxs n y
    cases s with
    | item m =>
      rw [part?, hreplaced] at hu
      rcases List.mem_or_eq_of_mem_set (List.mem_of_getElem? hu) with hmem | rfl
      · obtain ⟨r, hr⟩ := List.mem_iff_getElem?.mp hmem
        exact .inr ⟨.item r, by rw [part?, hxs]; exact hr⟩
      · exact .inl rfl
    | entry k => rw [part?, entries?_of_items hreplaced] at hu; contradiction
  | entry k =>
    obtain ⟨es, hes, hk⟩ := Option.bind_eq_some_iff.mp h
    have hreplaced := (replace_entry hes k y).2
    cases s with
    | item m => rw [part?, items?_of_entries hreplaced] at hu; contradiction
    | entry l =>
      rw [part?, hreplaced] at hu
      have hkeyed : Table.Keyed es := hv [] v rfl es hes
      obtain ⟨e, he, -, rfl⟩ := (hkeyed.insert hk y).lookup?_eq_some_iff.mp hu
      obtain ⟨before, l, after, rfl, hins⟩ := Table.exists_insert_eq hk y
      rw [hins] at he
      rcases List.mem_cons.mp (List.perm_middle.mem_iff.mp he) with rfl | he
      · exact .inl rfl
      · refine .inr ⟨.entry e.1, ?_⟩
        rw [part?, hes]
        exact hkeyed.distinct.lookup
          (List.perm_middle.mem_iff.mpr (List.mem_cons_of_mem _ he))

theorem Keyed.replace (hv : v.Keyed) (h : v.part? t = some w) (hy : y.Keyed) :
    (v.replace t y).Keyed := by
  refine everywhere_iff.mpr ⟨fun es hes => ?_, fun s u hu => ?_⟩
  · cases t with
    | item n =>
      obtain ⟨xs, hxs, -⟩ := Option.bind_eq_some_iff.mp h
      rw [entries?_of_items (items?_replace hxs n y)] at hes
      contradiction
    | entry k =>
      obtain ⟨fs, hfs, hk⟩ := Option.bind_eq_some_iff.mp h
      rw [(replace_entry hfs k y).2, Option.some.injEq] at hes
      rw [← hes]
      exact (hv [] v rfl fs hfs).insert hk y
  · rcases exists_part?_of_replace hv h hu with rfl | ⟨r, hr⟩
    · exact hy
    · exact (everywhere_iff.mp hv).2 r u hr

theorem exists_exchanged {p : List Turn} (hv : v.Keyed) (h : v.at? p = some w) (hy : y.Keyed)
    (he : y.equal w = true) : ∃ x : Value, x.Keyed ∧ x.equal v = true ∧ x.at? p = some y ∧
      (p ≠ [] → x.kind = v.kind) := by
  induction p generalizing v with
  | nil =>
    cases h
    exact ⟨y, hy, he, rfl, fun hne => absurd rfl hne⟩
  | cons t p ih =>
    obtain ⟨u, hu, hw⟩ := Option.bind_eq_some_iff.mp h
    obtain ⟨x, hx, hxu, hxp, -⟩ := ih ((everywhere_iff.mp hv).2 t u hu) hw
    refine ⟨v.replace t x, hv.replace hu hx, equal_replace hu hxu, ?_, fun _ => kind_replace⟩
    rw [at?, part?_replace_self hu]
    exact hxp

end Value

end Conform
