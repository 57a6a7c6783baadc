import Conform.Proofs.DistinctKeys
import Mathlib.Data.List.Find

namespace Conform

namespace Value

inductive Hashable : Value → Prop
  | scalar {v : Value} (h : v.isScalar = true) : Hashable v
  | tuple {xs : List Value} (h : ∀ x ∈ xs, Hashable x) : Hashable (.tuple xs)

theorem equal_of_number {v : Value} {m : Number} (h : v.number? = some m) (w : Value) :
    v.equal w = w.number?.any m.equal := by
  cases v with
  | bool | int | float | decimal =>
    cases h
    cases w <;> rfl
  | _ => contradiction

theorem equal_number_congr {m n : Number} (h : m.equal n = true) : m.equal = n.equal := by
  unfold Number.equal at h
  split at h
  next =>
    obtain rfl : m = n := of_decide_eq_true h
    rfl
  next hnan =>
    have hnormal : m.toDecimal.normal = n.toDecimal.normal := of_decide_eq_true h
    simp only [Bool.or_eq_true, not_or, Bool.not_eq_true] at hnan
    funext k
    simp only [Number.equal, hnan.1, hnan.2, hnormal, Bool.false_or]
    cases hk : k.isNaN with
    | false => rfl
    | true =>
      -- neither number is the one that is none
      have hm : m ≠ k := by
        rintro rfl
        simp [hk] at hnan
      have hn : n ≠ k := by
        rintro rfl
        simp [hk] at hnan
      simp [hm, hn]

theorem equal_time_congr {t u : DateTime} (h : t.equal u = true) : t.equal = u.equal := by
  simp only [DateTime.equal, Bool.and_eq_true, decide_eq_true_eq] at h
  funext s
  simp only [DateTime.equal, h]

theorem eq_of_scalar_equal {a b : Value} (hs : a.isScalar = true) (hn : a.number? = none)
    (ht : a.kind ≠ .datetime) (h : a.equal b = true) : a = b := by
  cases a with
  | undefined =>
    cases b with
    | undefined => rfl
    | _ => contradiction
  | null | str | bytes | date | object =>
    cases b <;> simp_all [equal, equalVia]
  | _ => contradiction

theorem scalar_equal_congr {a b : Value} (ha : a.isScalar = true) (h : a.equal b = true)
    (c : Value) : a.equal c = b.equal c := by
  cases hn : a.number? with
  | some m =>
    rw [equal_of_number hn, Option.any_eq_true] at h
    obtain ⟨n, hb, hmn⟩ := h
    rw [equal_of_number hn, equal_of_number hb, equal_number_congr hmn]
  | none =>
    by_cases ht : a.kind = .datetime
    · cases a with
      | datetime t =>
        cases b with
        | datetime u =>
          have hcongr : t.equal = u.equal := equal_time_congr h
          cases c with
          | datetime s => rw [equal, equal, equalVia, equalVia, hcongr]
          | _ => rfl
        | _ => contradiction
      | _ => contradiction
    · rw [eq_of_scalar_equal ha hn ht h]

theorem scalar_equal_comm {a b : Value} (ha : a.isScalar = true) (h : a.equal b = true) :
    b.equal a = true := by
  rw [← scalar_equal_congr ha h, equal_self]

theorem unrolled_of_scalar {a : Value} (ha : a.isScalar = true) : a.unrolled = a := by
  cases a <;> first | rfl | contradiction

theorem scalar_ne_tuple {a : Value} (ha : a.isScalar = true) (xs : List Value) :
    a.equal (.tuple xs) = false ∧ (Value.tuple xs).equal a = false := by
  rw [Bool.eq_false_iff, Bool.eq_false_iff]
  refine ⟨fun h => ?_, fun h => ?_⟩
  · exact absurd (isScalar_of_scalar_equal ha h) (by simp [isScalar])
  · obtain ⟨ys, hy, -⟩ := tuple_equalVia_iff.mp h
    rw [unrolled_of_scalar ha] at hy
    rw [hy] at ha
    contradiction

namespace Hashable

theorem forall₂_swap {xs ys zs : List Value} (hys : ∀ y ∈ ys, y.Hashable)
    (ih : ∀ x ∈ xs, ∀ y : Value, y.Hashable → ∀ z, x.equal z = true → x.equal y = y.equal z)
    (h : List.Forall₂ (fun x z => x.equal z = true) xs zs) :
    List.Forall₂ (fun x y => x.equal y = true) xs ys ↔
      List.Forall₂ (fun y z => y.equal z = true) ys zs := by
  induction h generalizing ys with
  | nil => cases ys <;> simp
  | @cons x z xs zs hxz _ ihxs =>
    obtain ⟨ihx, ihrest⟩ := List.forall_mem_cons.mp ih
    cases ys with
    | nil => simp
    | cons y ys =>
      obtain ⟨hy, hys⟩ := List.forall_mem_cons.mp hys
      rw [List.forall₂_cons, List.forall₂_cons, ihx y hy z hxz, ihxs hys ihrest]

theorem equal_swap {a b c : Value} (ha : a.Hashable) (hb : b.Hashable) (h : a.equal c = true) :
    a.equal b = b.equal c := by
  induction ha generalizing b c with
  | @scalar a hs =>
    have hc : c.isScalar = true := isScalar_of_scalar_equal hs h
    cases hb with
    | scalar hb =>
      rw [scalar_equal_congr hs h, Bool.eq_iff_iff]
      exact ⟨scalar_equal_comm hc, scalar_equal_comm hb⟩
    | tuple _ => rw [(scalar_ne_tuple hs _).1, (scalar_ne_tuple hc _).2]
  | @tuple xs _ ih =>
    obtain ⟨zs, hz, hxz⟩ := tuple_equalVia_iff.mp h
    cases hb with
    | scalar hb =>
      rw [(scalar_ne_tuple hb _).2, eq_comm, Bool.eq_false_iff]
      intro hbc
      rw [unrolled_of_scalar (isScalar_of_scalar_equal hb hbc)] at hz
      have hscalar := isScalar_of_scalar_equal hb hbc
      rw [hz] at hscalar
      contradiction
    | @tuple ys hys =>
      have hswap := forall₂_swap hys (fun x hx y hy z hxz => ih x hx hy hxz) hxz
      rw [Bool.eq_iff_iff]
      constructor
      · intro hab
        obtain ⟨_, ⟨⟩, hall⟩ := tuple_equalVia_iff.mp hab
        exact tuple_equalVia_iff.mpr ⟨zs, hz, hswap.mp hall⟩
      · intro hbc
        obtain ⟨us, hu, hall⟩ := tuple_equalVia_iff.mp hbc
        obtain rfl : zs = us := Value.tuple.inj (hz.symm.trans hu)
        exact tuple_equalVia_iff.mpr ⟨ys, rfl, hswap.mpr hall⟩

theorem equal_comm {a b : Value} (ha : a.Hashable) (hb : b.Hashable) (h : a.equal b = true) :
    b.equal a = true := by
  rw [← ha.equal_swap hb (equal_self a), h]

theorem equal_congr {a b : Value} (ha : a.Hashable) (hb : b.Hashable) (h : a.equal b = true)
    (c : Value) : a.equal c = b.equal c := by
  rw [Bool.eq_iff_iff]
  constructor
  · intro hac
    rw [← ha.equal_swap hb hac, h]
  · intro hbc
    rw [← hb.equal_swap ha hbc, ha.equal_comm hb h]

end Hashable

end Value

namespace Table

variable {α : Type} {t : Table α} {es fs : Table Value}

structure Keyed (t : Table α) : Prop where
  hashable : ∀ e ∈ t, e.1.Hashable
  distinct : t.Distinct

namespace Keyed

theorem lookup?_eq_some_iff (ht : t.Keyed) {k : Value} {a : α} :
    t.lookup? k = some a ↔ ∃ e ∈ t, e.1.equal k = true ∧ e.2 = a := by
  constructor
  · intro h
    obtain ⟨e, he, rfl⟩ := Option.map_eq_some_iff.mp h
    have hk := List.find?_some he
    exact ⟨e, List.mem_of_find?_eq_some he, hk, rfl⟩
  · rintro ⟨e, he, hk, rfl⟩
    have hsame : ∀ f ∈ t, f.1.equal k = f.1.equal e.1 := by
      intro f hf
      rw [(ht.hashable e he).equal_swap (ht.hashable f hf) hk |>.symm, Bool.eq_iff_iff]
      exact ⟨(ht.hashable e he).equal_comm (ht.hashable f hf),
        (ht.hashable f hf).equal_comm (ht.hashable e he)⟩
    rw [lookup?, List.find?_congr hsame]
    exact ht.distinct.lookup he

theorem tail {e : Value × α} (ht : Keyed (e :: t)) : t.Keyed :=
  ⟨fun f hf => ht.hashable f (List.mem_cons_of_mem _ hf), (List.pairwise_cons.mp ht.distinct).2⟩

end Keyed

theorem exists_match (hes : es.Keyed) (hl : es.length = fs.length)
    (h : ∀ e ∈ es, ∃ f ∈ fs, e.1.equal f.1 = true ∧ e.2.equal f.2 = true) {f : Value × Value}
    (hf : f ∈ fs) :
    ∃ e ∈ es, e.1.equal f.1 = true ∧ e.2.equal f.2 = true := by
  induction es generalizing fs with
  | nil =>
    rw [List.length_eq_zero_iff.mp hl.symm] at hf
    contradiction
  | cons e es ih =>
    obtain ⟨⟨g, hg, heg⟩, hrest⟩ := List.forall_mem_cons.mp h
    obtain ⟨before, after, rfl⟩ := List.append_of_mem hg
    have hlen : es.length = (before ++ after).length := by
      simp only [List.length_cons, List.length_append] at hl ⊢
      omega
    have hwithin : ∀ e ∈ es, ∃ f ∈ before ++ after, e.1.equal f.1 = true ∧ e.2.equal f.2 = true := by
      intro e' he'
      obtain ⟨g', hg', heg'⟩ := hrest e' he'
      rcases List.mem_cons.mp (List.perm_middle.mem_iff.mp hg') with rfl | hg'
      · have hne : e.1.equal e'.1 = false :=
          (List.pairwise_cons.mp hes.distinct).1 e'.1 (List.mem_map_of_mem he')
        have heq := (hes.hashable e List.mem_cons_self).equal_swap
          (hes.hashable e' (List.mem_cons_of_mem _ he')) heg.1
        rw [heq, heg'.1] at hne
        contradiction
      · exact ⟨g', hg', heg'⟩
    rcases List.mem_cons.mp (List.perm_middle.mem_iff.mp hf) with rfl | hf
    · exact ⟨e, List.mem_cons_self, heg⟩
    · obtain ⟨e', he', hef⟩ := ih hes.tail hlen hwithin hf
      exact ⟨e', List.mem_cons_of_mem _ he', hef⟩

theorem rel_lookup? (hes : es.Keyed) (hfs : fs.Keyed) (hl : es.length = fs.length)
    (h : ∀ e ∈ es, ∃ f ∈ fs, e.1.equal f.1 = true ∧ e.2.equal f.2 = true) (k : Value) :
    Option.Rel (fun v w => v.equal w = true) (es.lookup? k) (fs.lookup? k) := by
  have hsame : ∀ e ∈ es, ∀ f ∈ fs, e.1.equal f.1 = true → e.1.equal k = f.1.equal k :=
    fun e he f hf hef => (hes.hashable e he).equal_congr (hfs.hashable f hf) hef k
  cases he : es.lookup? k with
  | some v =>
    obtain ⟨e, hmem, hk, rfl⟩ := hes.lookup?_eq_some_iff.mp he
    obtain ⟨f, hf, hef⟩ := h e hmem
    have hfound : fs.lookup? k = some f.2 :=
      hfs.lookup?_eq_some_iff.mpr ⟨f, hf, by rwa [← hsame e hmem f hf hef.1], rfl⟩
    rw [hfound]
    exact .some hef.2
  | none =>
    cases hf : fs.lookup? k with
    | none => exact .none
    | some w =>
      obtain ⟨f, hmem, hk, rfl⟩ := hfs.lookup?_eq_some_iff.mp hf
      obtain ⟨e, hes', hef⟩ := exists_match hes hl h hmem
      have hfound : es.lookup? k = some e.2 :=
        hes.lookup?_eq_some_iff.mpr ⟨e, hes', by rwa [hsame e hes' f (by assumption) hef.1], rfl⟩
      rw [hfound] at he
      contradiction

theorem lookup?_insert_self (t : Table α) (k : Value) (a : α) :
    (t.insert k a).lookup? k = some a := by
  induction t with
  | nil => rw [insert, lookup?_cons, if_pos (Value.equal_self k)]
  | cons e t ih =>
    by_cases he : e.1.equal k = true
    · rw [insert, if_pos he, lookup?_cons, if_pos he]
    · rw [insert, if_neg he, lookup?_cons, if_neg he, ih]

theorem exists_insert_eq {k : Value} {b : α} (h : t.lookup? k = some b) (a : α) :
    ∃ before l after, t = before ++ (l, b) :: after ∧
      t.insert k a = before ++ (l, a) :: after := by
  induction t with
  | nil => contradiction
  | cons e t ih =>
    rw [lookup?_cons] at h
    by_cases he : e.1.equal k = true
    · rw [if_pos he, Option.some.injEq] at h
      refine ⟨[], e.1, t, by rw [← h]; rfl, ?_⟩
      rw [insert, if_pos he, List.nil_append]
    · rw [if_neg he] at h
      obtain ⟨before, l, after, rfl, hins⟩ := ih h
      exact ⟨e :: before, l, after, rfl, by rw [insert, if_neg he, hins, List.cons_append]⟩

theorem Keyed.insert (ht : t.Keyed) {k : Value} {b : α} (h : t.lookup? k = some b) (a : α) :
    Keyed (t.insert k a) := by
  refine ⟨fun e he => ?_, ht.distinct.insert k a⟩
  obtain ⟨before, l, after, rfl, hins⟩ := exists_insert_eq h a
  rw [hins] at he
  rcases List.mem_cons.mp (List.perm_middle.mem_iff.mp he) with rfl | he
  · exact ht.hashable (l, b) (by simp)
  · exact ht.hashable e (List.perm_middle.mem_iff.mpr (List.mem_cons_of_mem _ he))

end Table

end Conform
