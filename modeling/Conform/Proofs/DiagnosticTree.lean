import Conform.Diagnostic.Merge

namespace Conform.Diagnostic

inductive Node : Diagnostic → Diagnostic → Prop
  | root (d : Diagnostic) : Node d d
  | cause {n c d : Diagnostic} {e : Expectation} (he : e ∈ d.expectations) (hc : e.cause = some c)
      (hn : Node n c) : Node n d

theorem causeUnder_eq_map (s : String) (c : Option Diagnostic) :
    causeUnder s c = c.map (under s) := by
  cases c <;> rfl

theorem expectationsUnder_eq_map (s : String) (es : List Expectation) :
    expectationsUnder s es = es.map fun e => ⟨e.label, e.cause.map (under s)⟩ := by
  induction es with
  | nil => rfl
  | cons e es ih =>
    obtain ⟨l, c⟩ := e
    rw [expectationsUnder, ih, causeUnder_eq_map, List.map_cons]

@[simp] theorem under_path (s : String) (d : Diagnostic) : (d.under s).path = s :: d.path := by
  cases d; rfl

@[simp] theorem under_received (s : String) (d : Diagnostic) :
    (d.under s).received = d.received := by
  cases d; rfl

theorem under_expectations (s : String) (d : Diagnostic) :
    (d.under s).expectations = d.expectations.map fun e => ⟨e.label, e.cause.map (under s)⟩ := by
  obtain ⟨p, v, es⟩ := d
  exact expectationsUnder_eq_map s es

theorem Node.of_under {n d : Diagnostic} {s : String} (h : Node n (d.under s)) :
    ∃ m, Node m d ∧ m.under s = n := by
  generalize hd : d.under s = d' at h
  induction h generalizing d with
  | root => exact ⟨d, .root d, hd⟩
  | cause he hc hn ih =>
    rw [← hd, under_expectations] at he
    obtain ⟨e, hed, rfl⟩ := List.mem_map.mp he
    obtain ⟨c, hec, hcd⟩ := Option.map_eq_some_iff.mp hc
    obtain ⟨m, hm, hmn⟩ := ih hcd
    exact ⟨m, .cause hed hec hm, hmn⟩

def IsLeaf (d : Diagnostic) : Prop := ∀ e ∈ d.expectations, e.cause = none

theorem isLeaf_of_under {d : Diagnostic} {s : String} (h : (d.under s).IsLeaf) : d.IsLeaf := by
  intro e he
  have hs := h ⟨e.label, e.cause.map (under s)⟩
    (by rw [under_expectations]; exact List.mem_map_of_mem he)
  exact Option.map_eq_none_iff.mp hs

def Leaves (R : List String → Value → Prop) (d : Diagnostic) : Prop :=
  ∀ n, Node n d → n.IsLeaf → R n.path n.received

namespace Leaves

variable {R S : List String → Value → Prop} {a b d : Diagnostic}

theorem simple {v : Value} (h : R [] v) (l : String) : Leaves R (.simple v l) := by
  intro n hn _
  cases hn with
  | root => exact h
  | cause he hc => rw [List.mem_singleton.mp he] at hc; contradiction

theorem empty {v : Value} (h : R [] v) : Leaves R (.empty v) := by
  intro n hn _
  cases hn with
  | root => exact h
  | cause he => contradiction

theorem label (h : Leaves R d) (name : String) : Leaves R (.label name d) := by
  intro n hn hl
  cases hn with
  | root => exact absurd (hl ⟨name, some d⟩ (List.mem_singleton.mpr rfl)) (by simp)
  | cause he hc hn =>
    rw [List.mem_singleton.mp he] at hc
    cases hc
    exact h n hn hl

theorem under {s : String} (h : Leaves R d) (hs : ∀ p v, R p v → S (s :: p) v) :
    Leaves S (d.under s) := by
  intro n hn hl
  obtain ⟨m, hm, rfl⟩ := hn.of_under
  rw [under_path, under_received]
  exact hs _ _ (h m hm (isLeaf_of_under hl))

theorem combine (ha : Leaves R a) (hb : Leaves R b) : Leaves R (a.combine b) := by
  unfold Diagnostic.combine
  split
  · exact ha
  · exact hb
  · intro n hn hl
    cases hn with
    | root => exact ha a (.root a) fun e he => hl e (List.mem_append_left _ he)
    | cause he hc hn =>
      rcases List.mem_append.mp he with he | he
      · exact ha n (.cause he hc hn) hl
      · exact hb n (.cause he hc hn) hl

theorem foldl_combine {ds : List Diagnostic} (ha : Leaves R a) (hds : ∀ d ∈ ds, Leaves R d) :
    Leaves R (ds.foldl Diagnostic.combine a) := by
  induction ds generalizing a with
  | nil => exact ha
  | cons d ds ih =>
    exact ih (ha.combine (hds d (by simp))) fun e he => hds e (List.mem_cons_of_mem _ he)

end Leaves

end Conform.Diagnostic
