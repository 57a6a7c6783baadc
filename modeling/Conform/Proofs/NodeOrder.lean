import Conform.Proofs.DiagnosticTree
import Mathlib.Data.List.Basic

namespace Conform.Diagnostic

theorem cause_induction {motive : Diagnostic → Prop}
    (step : ∀ d, (∀ e ∈ d.expectations, ∀ c, e.cause = some c → motive c) → motive d)
    (d : Diagnostic) : motive d :=
  @Diagnostic.rec (fun e => ∀ c, e.cause = some c → motive c) motive
    (fun cause => ∀ c, cause = some c → motive c)
    (fun es => ∀ e ∈ es, ∀ c, e.cause = some c → motive c) (fun _ _ h => h)
    (fun p v es h => step ⟨p, v, es⟩ h) (by simp) (fun _ h _ hc => Option.some.inj hc ▸ h)
    (by simp) (fun _ _ he hes => List.forall_mem_cons.mpr ⟨he, hes⟩) d

structure Cause where
  level : Nat
  label : String
  node : Diagnostic

mutual

def causes (level : Nat) : Diagnostic → List Cause
  | ⟨_, _, es⟩ => causesAmong level es
termination_by structural d => d

def causesAmong (level : Nat) : List Expectation → List Cause
  | [] => []
  | ⟨label, cause⟩ :: es => causesFor level label cause ++ causesAmong level es
termination_by structural es => es

def causesFor (level : Nat) (label : String) : Option Diagnostic → List Cause
  | none => []
  | some d => ⟨level + 1, label, d⟩ :: causes (level + 1) d
termination_by structural d => d

end

def nodes (d : Diagnostic) : List Diagnostic := d :: (causes 0 d).map Cause.node

variable {n d : Diagnostic} {level : Nat}

theorem causesAmong_eq_flatMap (level : Nat) (es : List Expectation) :
    causesAmong level es = es.flatMap fun e => causesFor level e.label e.cause := by
  induction es with
  | nil => rfl
  | cons e es ih =>
    obtain ⟨l, c⟩ := e
    rw [causesAmong, ih, List.flatMap_cons]

theorem causes_eq_flatMap (level : Nat) (d : Diagnostic) :
    causes level d = d.expectations.flatMap fun e => causesFor level e.label e.cause := by
  obtain ⟨p, v, es⟩ := d
  exact causesAmong_eq_flatMap level es

theorem mem_map_causes_iff : n ∈ (causes level d).map Cause.node ↔
    ∃ e ∈ d.expectations, ∃ c, e.cause = some c ∧ Node n c := by
  induction d using cause_induction generalizing level with
  | step d ih =>
    rw [causes_eq_flatMap, List.map_flatMap, List.mem_flatMap]
    refine exists_congr fun e => and_congr_right fun he => ?_
    cases hc : e.cause with
    | none => simp [causesFor]
    | some c =>
      have hbelow := @ih e he c hc (level + 1)
      simp only [causesFor, List.map_cons, List.mem_cons, hbelow, Option.some.injEq,
        exists_eq_left']
      constructor
      · rintro (rfl | ⟨f, hf, b, hb, hn⟩)
        · exact .root n
        · exact .cause hf hb hn
      · intro hn
        cases hn with
        | root => exact .inl rfl
        | cause hf hb hn => exact .inr ⟨_, hf, _, hb, hn⟩

theorem mem_nodes_iff : n ∈ d.nodes ↔ Node n d := by
  rw [nodes, List.mem_cons, mem_map_causes_iff]
  constructor
  · rintro (rfl | ⟨e, he, c, hc, hn⟩)
    · exact .root n
    · exact .cause he hc hn
  · intro hn
    cases hn with
    | root => exact .inl rfl
    | cause he hc hn => exact .inr ⟨_, he, _, hc, hn⟩

theorem causes_under (s : String) (level : Nat) (d : Diagnostic) :
    causes level (d.under s) = (causes level d).map fun c => { c with node := c.node.under s } := by
  induction d using cause_induction generalizing level with
  | step d ih =>
    rw [causes_eq_flatMap, under_expectations, List.flatMap_map, causes_eq_flatMap,
      List.map_flatMap]
    refine List.flatMap_congr fun e he => ?_
    cases hc : e.cause with
    | none => rfl
    | some c =>
      simp only [Option.map_some, causesFor, List.map_cons, ih e he c hc]

theorem nodes_under (s : String) (d : Diagnostic) : (d.under s).nodes = d.nodes.map (under s) := by
  rw [nodes, nodes, causes_under, List.map_cons, List.map_map, List.map_map]
  rfl

structure Content where
  path : List String
  received : Value
  labels : List String

def content (d : Diagnostic) : Content := ⟨d.path, d.received, d.expectations.map Expectation.label⟩

theorem content_under (s : String) (d : Diagnostic) :
    (d.under s).nodes.map content =
      d.nodes.map fun n => { n.content with path := s :: n.path } := by
  rw [nodes_under, List.map_map]
  refine List.map_congr_left fun n _ => ?_
  simp only [Function.comp_apply, content, under_path, under_received, under_expectations,
    List.map_map, Function.comp_def]

end Conform.Diagnostic
