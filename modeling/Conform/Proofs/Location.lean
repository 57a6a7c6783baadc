import Conform.Proofs.DiagnosticTree
import Conform.Proofs.Reports

namespace Conform

inductive Reaches (names : Set String) : Value → List String → Value → Prop
  | here (v : Value) : Reaches names v [] v
  | step {v w x : Value} {s : String} {p : List String} (h : Step names v s x)
      (hp : Reaches names x p w) : Reaches names v (s :: p) w

namespace Checker

def Locates (names : Set String) (c : Checker) : Prop :=
  ∀ v d, (c v).outcome = .rejected d → d.Leaves (Reaches names v)

namespace Locates

variable {names : Set String}

theorem rule (names : Set String) : ReportRule names fun v d => d.Leaves (Reaches names v) where
  simple v l := .simple (.here v) l
  label h name := h.label name
  below hs h := h.under fun _ _ hp => .step hs hp
  merge {v _} _ h := .foldl_combine (.empty (.here v)) h

theorem union {cs : List Checker} (h : ∀ c ∈ cs, Locates names c) : Locates names (union cs) := by
  by_cases hne : cs = []
  · subst hne
    rintro v _ ⟨⟩
    exact .empty (.here v)
  · exact Reports.union (rule names) hne h

end Locates

end Checker

namespace Validator

/-- Built without raw functions, validators in sequence and models. The names are those that dicts
in snake case look up, the references those of lazy validators. -/
inductive Structural (names refs : Set String) : Validator → Prop
  | test (p : Value → Option Bool) (l : String) : Structural names refs (.test p l)
  | json : Structural names refs .json
  | constant (v : Value) : Structural names refs (.constant v)
  | list {c : Validator} (h : Structural names refs c) : Structural names refs (.list c)
  | dict {fs : List (Value × Validator)} (h : ∀ f ∈ fs, Structural names refs f.2) :
      Structural names refs (.dict fs)
  | snakeDict {fs : List (Value × Validator)} (h : ∀ f ∈ fs, Structural names refs f.2)
      (hn : ∀ f ∈ fs, ∀ name, f.1 = .str name → Text.snakeCase name ∈ names) :
      Structural names refs (.snakeDict fs)
  | record {c : Validator} (h : Structural names refs c) : Structural names refs (.record c)
  | union {cs : List Validator} (h : ∀ c ∈ cs, Structural names refs c) :
      Structural names refs (.union cs)
  | intersection {cs : List Validator} (h : ∀ c ∈ cs, Structural names refs c) :
      Structural names refs (.intersection cs)
  | label {c : Validator} (name : String) (h : Structural names refs c) :
      Structural names refs (.label name c)
  | lazy {name : String} (h : name ∈ refs) : Structural names refs (.lazy name)
  | map {c : Validator} {f : UserFunction} (h : Structural names refs c)
      (hf : ∀ o v d, (f o v).outcome ≠ .rejected d) : Structural names refs (.map c f)

theorem Structural.locates {names refs : Set String} {c : Validator} (h : c.Structural names refs)
    {resolve : String → Checker} (hr : ∀ name ∈ refs, (resolve name).Locates names)
    (o : Display.Options) : (c.run resolve o).Locates names := by
  have hrule := Checker.Locates.rule names
  induction h with
  | test p l => exact Checker.Reports.test hrule p l
  | json => exact Checker.Reports.json hrule
  | constant v => exact Checker.Reports.constant v
  | list _ ih => exact Checker.Reports.list hrule ih
  | dict _ ih =>
    rw [run_dict]
    exact Checker.Reports.dict hrule (List.forall_mem_map.mpr ih)
  | snakeDict _ hn ih =>
    rw [run_snakeDict]
    exact Checker.Reports.snakeDict hrule (List.forall_mem_map.mpr ih) (List.forall_mem_map.mpr hn)
  | record _ ih => exact Checker.Reports.record hrule ih
  | union _ ih =>
    rw [run_union]
    exact .union (List.forall_mem_map.mpr ih)
  | intersection _ ih =>
    rw [run_intersection]
    exact Checker.Reports.intersection (List.forall_mem_map.mpr ih)
  | label name _ ih => exact Checker.Reports.label hrule ih name
  | lazy hn => exact hr _ hn
  | map _ hf ih => exact Checker.Reports.bind ih fun v u d hu => absurd hu (hf o u d)

end Validator

namespace Definitions

variable {defs : Definitions} {names refs : Set String}

theorem resolve_locates (hdefs : ∀ name ∈ refs, ∀ w,
      (defs.find? name >>= Schema.elaborate) = .ok w → w.Structural names refs)
    (o : Display.Options) (n : Nat) : ∀ name ∈ refs, (defs.resolve o n name).Locates names :=
  resolve_induction Checker.Reports.raise
    (fun name hname c hc _ hr => (hdefs name hname c hc).locates hr o) n

theorem leaf_reached {c : Validator} (hc : c.Structural names refs)
    (hdefs : ∀ name ∈ refs, ∀ w, (defs.find? name >>= Schema.elaborate) = .ok w →
      w.Structural names refs) {o : Display.Options} {n : Nat} {v : Value} {d m : Diagnostic}
    (h : (c.run (defs.resolve o n) o v).outcome = .rejected d) (hm : m.Node d)
    (hl : ∀ e ∈ m.expectations, e.cause = none) : Reaches names v m.path m.received :=
  hc.locates (resolve_locates hdefs o n) o v d h m hm hl

theorem leaf_reached_no_mapping :
    let tree : Validator := .snakeDict [(.str "subTrees", .list (.lazy "tree"))]
    let defs : Definitions := [("tree", .validator tree)]
    let v : Value := .dict [(.str "sub_trees", .list [.undefined, .int 7])]
    let m : Diagnostic := ⟨["sub_trees", "1", "sub_trees"], .undefined, [⟨"an array", none⟩]⟩
    ∃ d, (tree.run (defs.resolve .default 2) .default v).outcome = .rejected d ∧ m.Node d ∧
      (∀ e ∈ m.expectations, e.cause = none) ∧ Reaches {"sub_trees"} v m.path m.received := by
  intro tree defs v m
  have htree : tree.Structural {"sub_trees"} {"tree"} := by
    refine .snakeDict (by simpa using .list (.lazy rfl)) ?_
    intro f hf name hname
    rw [List.mem_singleton.mp hf] at hname
    cases hname
    rfl
  have hdefs : ∀ name ∈ ({"tree"} : Set String), ∀ w,
      (defs.find? name >>= Schema.elaborate) = .ok w → w.Structural {"sub_trees"} {"tree"} := by
    rintro name rfl w hw
    cases hw
    exact htree
  let d : Diagnostic := ⟨[], v, [⟨"a valid \x27sub_trees\x27 field",
    some ⟨["sub_trees", "1"], .int 7, [⟨"a valid \x27sub_trees\x27 field", some m⟩]⟩⟩]⟩
  have hd : (tree.run (defs.resolve .default 2) .default v).outcome = .rejected d := rfl
  have hm : m.Node d :=
    .cause (List.mem_singleton.mpr rfl) rfl (.cause (List.mem_singleton.mpr rfl) rfl (.root m))
  have hl : ∀ e ∈ m.expectations, e.cause = none := by simp [m]
  exact ⟨d, hd, hm, hl, leaf_reached htree hdefs hd hm hl⟩

end Definitions

end Conform
