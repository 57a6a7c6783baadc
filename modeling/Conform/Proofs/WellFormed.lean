import Conform.Proofs.Calls
import Conform.Proofs.DiagnosticTree
import Conform.Proofs.Issues
import Conform.Proofs.MergeLaws
import Conform.Proofs.Reports
import Conform.Stock.Functions
import Conform.Stock.Models

namespace Conform

namespace Diagnostic

def WellFormed (d : Diagnostic) : Prop :=
  ∀ n, Node n d → n.expectations ≠ [] ∧
    ∀ e ∈ n.expectations, ∀ c, e.cause = some c → n.path <+: c.path

theorem wellFormed_iff {d : Diagnostic} : d.WellFormed ↔
    d.expectations ≠ [] ∧
      ∀ e ∈ d.expectations, ∀ c, e.cause = some c → d.path <+: c.path ∧ c.WellFormed := by
  constructor
  · intro h
    refine ⟨(h d (.root d)).1, fun e he c hc => ⟨(h d (.root d)).2 e he c hc, ?_⟩⟩
    exact fun n hn => h n (.cause he hc hn)
  · rintro ⟨hne, hc⟩ n hn
    cases hn with
    | root => exact ⟨hne, fun e he c hec => (hc e he c hec).1⟩
    | cause he hec hn => exact (hc _ he _ hec).2 n hn

namespace WellFormed

variable {a b d : Diagnostic}

theorem simple (v : Value) (l : String) : (simple v l).WellFormed := by
  refine wellFormed_iff.mpr ⟨List.cons_ne_nil _ _, List.forall_mem_singleton.mpr ?_⟩
  intro c hc
  contradiction

theorem label (h : d.WellFormed) (name : String) : (label name d).WellFormed := by
  refine wellFormed_iff.mpr ⟨List.cons_ne_nil _ _, List.forall_mem_singleton.mpr ?_⟩
  rintro _ ⟨⟩
  exact ⟨List.nil_prefix, h⟩

theorem under (h : d.WellFormed) (s : String) : (d.under s).WellFormed := by
  intro n hn
  obtain ⟨m, hm, rfl⟩ := hn.of_under
  obtain ⟨hne, hc⟩ := h m hm
  rw [under_expectations]
  refine ⟨by simpa using hne, List.forall_mem_map.mpr fun e he c hec => ?_⟩
  obtain ⟨c, hc', rfl⟩ := Option.map_eq_some_iff.mp hec
  rw [under_path, under_path]
  exact (List.prefix_cons_inj s).mpr (hc e he c hc')

theorem combine (ha : a.WellFormed) (hb : b.WellFormed) : (a.combine b).WellFormed := by
  rcases Outranks.trichotomy a.path b.path with hab | hab | hba
  · rwa [combine_of_outranks hab]
  · obtain ⟨hne, hac⟩ := wellFormed_iff.mp ha
    have hbc := (wellFormed_iff.mp hb).2
    rw [combine_of_path_eq hab]
    refine wellFormed_iff.mpr ⟨by simp [hne], fun e he => ?_⟩
    rcases List.mem_append.mp he with he | he
    · exact hac e he
    · rw [hab]
      exact hbc e he
  · rwa [combine_of_outranked hba]

theorem empty_combine (h : d.WellFormed) (v : Value) : ((empty v).combine d).WellFormed := by
  obtain ⟨hne, hc⟩ := wellFormed_iff.mp h
  rw [Diagnostic.empty_combine]
  exact wellFormed_iff.mpr ⟨hne, hc⟩

theorem mergeAll {ds : List Diagnostic} (ha : a.WellFormed) (h : ∀ d ∈ ds, d.WellFormed) :
    (a.mergeAll ds).WellFormed := by
  induction ds generalizing a with
  | nil => exact ha
  | cons d ds ih =>
    obtain ⟨hd, hds⟩ := List.forall_mem_cons.mp h
    exact ih (ha.combine hd) hds

theorem empty_mergeAll {ds : List Diagnostic} (hne : ds ≠ []) (h : ∀ d ∈ ds, d.WellFormed)
    (v : Value) : ((empty v).mergeAll ds).WellFormed := by
  obtain ⟨d, ds, rfl⟩ := List.exists_cons_of_ne_nil hne
  obtain ⟨hd, hds⟩ := List.forall_mem_cons.mp h
  exact (hd.empty_combine v).mergeAll hds

theorem rule : ReportRule Set.univ fun _ d => d.WellFormed where
  simple := simple
  label h name := h.label name
  below _ h := h.under _
  merge hne h := empty_mergeAll hne h _

end WellFormed

end Diagnostic

theorem Issue.leaf_wellFormed (i : Issue) : i.leaf.WellFormed := by
  unfold leaf
  induction i.location with
  | nil => exact .simple _ _
  | cons s p ih => exact ih.under s.text

theorem Diagnostic.ofIssues_wellFormed {is : List Issue} (hne : is ≠ []) (v : Value) :
    (ofIssues is v).WellFormed := by
  rw [ofIssues_eq_mergeAll]
  refine .empty_mergeAll (by simpa using hne) (List.forall_mem_map.mpr fun i _ => ?_) v
  exact i.leaf_wellFormed

def Model.FindsIssues (m : Model) : Prop :=
  ∀ o v is, (m.read o v).result = .ok (.error is) → is ≠ []

theorem gather_error_ne_nil {α : Type} {parts : List (Except (List Issue) α)} {is : List Issue}
    (h : gather parts = .error is) : is ≠ [] := by
  simp only [gather] at h
  split at h
  · contradiction
  next hne =>
    cases h
    simpa using hne

theorem RecordShape.findsIssues (s : RecordShape) : s.model.FindsIssues := by
  intro o v is h
  obtain ⟨type, fields⟩ := s
  have hread : (RecordShape.mk type fields).read v = .error is := by simpa [model] using h
  rw [read] at hread
  split at hread
  · contradiction
  · split at hread
    · cases hg : gather (readFields fields v) with
      | ok ws => simp [hg, Except.map] at hread
      | error js =>
        rw [hg] at hread
        cases hread
        exact gather_error_ne_nil hg
    · cases hread
      exact List.cons_ne_nil _ _

def ReportsWellFormed (f : UserFunction) : Prop :=
  ∀ o v d, (f o v).outcome = .rejected d → d.WellFormed

namespace Validator

/-- Unions have choices, and functions report what is well formed. The references are those of lazy
validators. -/
inductive Reliable (refs : Set String) : Validator → Prop
  | test (p : Value → Option Bool) (l : String) : Reliable refs (.test p l)
  | function {f : UserFunction} (hf : ReportsWellFormed f) : Reliable refs (.function f)
  | json : Reliable refs .json
  | constant (v : Value) : Reliable refs (.constant v)
  | list {c : Validator} (h : Reliable refs c) : Reliable refs (.list c)
  | dict {fs : List (Value × Validator)} (h : ∀ f ∈ fs, Reliable refs f.2) :
      Reliable refs (.dict fs)
  | snakeDict {fs : List (Value × Validator)} (h : ∀ f ∈ fs, Reliable refs f.2) :
      Reliable refs (.snakeDict fs)
  | record {c : Validator} (h : Reliable refs c) : Reliable refs (.record c)
  | union {cs : List Validator} (hne : cs ≠ []) (h : ∀ c ∈ cs, Reliable refs c) :
      Reliable refs (.union cs)
  | intersection {cs : List Validator} (h : ∀ c ∈ cs, Reliable refs c) :
      Reliable refs (.intersection cs)
  | label {c : Validator} (name : String) (h : Reliable refs c) : Reliable refs (.label name c)
  | lazy {name : String} (h : name ∈ refs) : Reliable refs (.lazy name)
  | map {c : Validator} {f : UserFunction} (h : Reliable refs c) (hf : ReportsWellFormed f) :
      Reliable refs (.map c f)
  | andThen {c d : Validator} (h : Reliable refs c) (h' : Reliable refs d) :
      Reliable refs (.andThen c d)
  | model {m : Model} (hm : m.FindsIssues) : Reliable refs (.model m)
  | bare : Reliable refs .bare

theorem Reliable.reports {refs : Set String} {c : Validator} (h : c.Reliable refs)
    {resolve : String → Checker}
    (hr : ∀ name ∈ refs, (resolve name).Reports fun _ d => d.WellFormed) (o : Display.Options) :
    (c.run resolve o).Reports fun _ d => d.WellFormed := by
  have hrule := Diagnostic.WellFormed.rule
  induction h with
  | test p l => exact .test hrule p l
  | function hf => exact hf o
  | json => exact .json hrule
  | constant v => exact .constant v
  | list _ ih => exact .list hrule ih
  | dict _ ih =>
    rw [run_dict]
    exact .dict hrule (List.forall_mem_map.mpr ih)
  | snakeDict _ ih =>
    rw [run_snakeDict]
    exact .snakeDict hrule (List.forall_mem_map.mpr ih) fun _ _ _ _ => trivial
  | record _ ih => exact .record hrule ih
  | union hne _ ih =>
    rw [run_union]
    exact .union hrule (by simpa using hne) (List.forall_mem_map.mpr ih)
  | intersection _ ih =>
    rw [run_intersection]
    exact .intersection (List.forall_mem_map.mpr ih)
  | label name _ ih => exact .label hrule ih name
  | lazy hn => exact hr _ hn
  | map _ hf ih => exact .bind ih fun _ u d hu => hf o u d hu
  | andThen _ _ ih ih' => exact .bind ih fun _ u d hu => ih' u d hu
  | model hm =>
    intro v d hd
    obtain ⟨is, his, rfl⟩ := model_eq_rejected_iff.mp hd
    exact (Diagnostic.ofIssues_wellFormed (hm o v is his) v).label _
  | bare => exact .raise _

end Validator

namespace Definitions

variable {defs : Definitions} {refs : Set String}

theorem rejected_wellFormed {c : Validator} (hc : c.Reliable refs)
    (hdefs : ∀ name ∈ refs, ∀ c, (defs.find? name >>= Schema.elaborate) = .ok c → c.Reliable refs)
    {o : Display.Options} {n : Nat} {v : Value} {d : Diagnostic}
    (h : (c.run (defs.resolve o n) o v).outcome = .rejected d) : d.WellFormed := by
  have hresolve : ∀ name ∈ refs, (defs.resolve o n name).Reports fun _ d => d.WellFormed :=
    resolve_induction Checker.Reports.raise
      (fun name hname c hc _ hr => (hdefs name hname c hc).reports hr o) n
  exact hc.reports hresolve o v d h

theorem rejected_wellFormed_tree :
    let raw : Validator := .union [.null, .function RawFunction.failCaused]
    let fields : List (Value × Validator) :=
      [(.str "subTrees", .list (.lazy "tree")), (.str "team", .model RecordShape.team.model),
        (.str "raw", raw)]
    let tree : Validator := .label "a tree" (.snakeDict fields)
    let defs : Definitions := [("tree", .validator tree)]
    let v : Value := .dict [(.str "sub_trees", .list [.int 7]), (.str "team", .dict [])]
    tree.Reliable {"tree"} ∧ ∃ d : Diagnostic,
      (tree.run (defs.resolve .default 2) .default v).outcome = .rejected d ∧ d.WellFormed := by
  intro raw fields tree defs v
  have hfail : ReportsWellFormed RawFunction.failCaused := by
    rintro o v _ ⟨⟩
    exact ((Diagnostic.WellFormed.simple v "inner").under "k").label "outer"
  have hraw : raw.Reliable {"tree"} := by
    refine .union (List.cons_ne_nil _ _) (List.forall_mem_cons.mpr ⟨.test _ _, ?_⟩)
    exact List.forall_mem_singleton.mpr (.function hfail)
  have htree : tree.Reliable {"tree"} := by
    refine .label _ (.snakeDict (List.forall_mem_cons.mpr ⟨.list (.lazy rfl), ?_⟩))
    exact List.forall_mem_cons.mpr ⟨.model RecordShape.team.findsIssues,
      List.forall_mem_singleton.mpr hraw⟩
  have hdefs : ∀ name ∈ ({"tree"} : Set String), ∀ c,
      (defs.find? name >>= Schema.elaborate) = .ok c → c.Reliable {"tree"} := by
    rintro name rfl c hc
    cases hc
    exact htree
  have hrejected : ∃ d, (tree.run (defs.resolve .default 2) .default v).outcome = .rejected d :=
    ⟨_, rfl⟩
  obtain ⟨d, hd⟩ := hrejected
  exact ⟨htree, d, hd, rejected_wellFormed htree hdefs hd⟩

end Definitions

end Conform
