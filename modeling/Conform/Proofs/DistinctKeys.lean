import Conform.Proofs.ValueTree

namespace Conform

namespace Table

variable {α : Type} {t u : Table α}

theorem lookup?_cons (e : Value × α) (t : Table α) (k : Value) :
    lookup? (e :: t) k = if e.1.equal k then some e.2 else t.lookup? k := by
  unfold lookup?
  rw [List.find?_cons]
  cases e.1.equal k <;> rfl

def Distinct (t : Table α) : Prop := (t.map Prod.fst).Pairwise fun k l => k.equal l = false

theorem insert_of_new {k : Value} (h : ∀ e ∈ t, e.1.equal k = false) (a : α) :
    t.insert k a = t ++ [(k, a)] := by
  induction t with
  | nil => rfl
  | cons e t ih =>
    obtain ⟨he, ht⟩ := List.forall_mem_cons.mp h
    rw [insert, if_neg (by simp [he]), ih ht, List.cons_append]

theorem keys_insert (t : Table α) (k : Value) (a : α) :
    (t.insert k a).map Prod.fst = t.map Prod.fst ∨ ∀ e ∈ t, e.1.equal k = false := by
  induction t with
  | nil => exact .inr (by simp)
  | cons e t ih =>
    by_cases he : e.1.equal k = true
    · left
      rw [insert, if_pos he, List.map_cons, List.map_cons]
    · rw [insert, if_neg he, List.map_cons, List.map_cons]
      rcases ih with ih | ih
      · exact .inl (by rw [ih])
      · exact .inr (List.forall_mem_cons.mpr ⟨Bool.eq_false_iff.mpr he, ih⟩)

theorem foldl_insert_of_distinct (h : Distinct (t ++ u)) :
    u.foldl (fun t e => t.insert e.1 e.2) t = t ++ u := by
  induction u generalizing t with
  | nil => simp
  | cons e u ih =>
    have hnew : ∀ f ∈ t, f.1.equal e.1 = false := by
      rw [Distinct, List.map_append, List.pairwise_append] at h
      intro f hf
      exact h.2.2 f.1 (List.mem_map_of_mem hf) e.1 (by simp)
    have hstep : t.insert e.1 e.2 = t ++ [e] := insert_of_new hnew e.2
    rw [List.foldl_cons, hstep, ih (by simpa using h), List.append_assoc]
    rfl

theorem ofPairs_of_distinct (h : Distinct t) : ofPairs t = t := foldl_insert_of_distinct h

namespace Distinct

theorem insert (h : Distinct t) (k : Value) (a : α) : Distinct (t.insert k a) := by
  rcases keys_insert t k a with hk | hnew
  · rw [Distinct, hk]
    exact h
  · rw [insert_of_new hnew, Distinct, List.map_append, List.pairwise_append]
    refine ⟨h, by simp, fun l hl l' hl' => ?_⟩
    obtain ⟨e, he, rfl⟩ := List.mem_map.mp hl
    rw [List.mem_singleton.mp hl']
    exact hnew e he

theorem ofPairs (es : List (Value × α)) : Distinct (ofPairs es) := by
  have hfold : ∀ t : Table α, Distinct t →
      Distinct (es.foldl (fun t e => t.insert e.1 e.2) t) := by
    induction es with
    | nil => exact fun t ht => ht
    | cons e es ih => exact fun t ht => ih _ (ht.insert e.1 e.2)
  exact hfold [] .nil

theorem lookup (h : Distinct t) {e : Value × α} (he : e ∈ t) : t.lookup? e.1 = some e.2 := by
  induction t with
  | nil => contradiction
  | cons f t ih =>
    rw [Distinct, List.map_cons, List.pairwise_cons] at h
    rw [lookup?_cons]
    rcases List.mem_cons.mp he with rfl | he
    · rw [if_pos (Value.equal_self e.1)]
    · have hne : ¬ f.1.equal e.1 = true := by simp [h.1 e.1 (List.mem_map_of_mem he)]
      rw [if_neg hne]
      exact ih h.2 he

end Distinct

end Table

theorem Value.field_of_mem {v : Value} {es : Table Value} (hv : v.held? = some es)
    (hd : Table.Distinct es) {e : Value × Value} (he : e ∈ es) : v.field e.1 = e.2 := by
  rw [field, hv]
  change (Table.lookup? es e.1).getD .undefined = e.2
  rw [hd.lookup he]
  rfl

end Conform
