import Conform.Proofs.Coercion
import Conform.Proofs.FirstOf
import Conform.Proofs.ValidatorTree

/-!
The nesting of unions is invisible: a tree of unions does what the flat union of its leaves does,
whatever the leaves report.
-/

namespace Conform

def Expr.IsValidator (defs : Definitions) (e : Expr) : Prop :=
  ∃ v, e.build defs = .ok (.validator v)

/-- The expression is a tree of unions, and the validators are its leaves from left to right. -/
inductive UnionTree (defs : Definitions) : Expr → List Validator → Prop
  | leaf {e : Expr} {s : Schema} {c : Validator} (hb : e.build defs = .ok s)
      (hc : s.elaborate = .ok c) : UnionTree defs e [c]
  | oneOf {ts : List (Expr × List Validator)} (hne : ts ≠ [])
      (h : ∀ t ∈ ts, UnionTree defs t.1 t.2) :
      UnionTree defs (.oneOf (ts.map Prod.fst)) (ts.flatMap Prod.snd)
  | or2 {a b : Expr} {as bs : List Validator} (ha : UnionTree defs a as)
      (hb : UnionTree defs b bs) : UnionTree defs (.or2 a b) (as ++ bs)
  | or3 {a b c : Expr} {as bs cs : List Validator} (ha : UnionTree defs a as)
      (hb : UnionTree defs b bs) (hc : UnionTree defs c cs) :
      UnionTree defs (.or3 a b c) (as ++ bs ++ cs)
  | or4 {a b c d : Expr} {as bs cs ds : List Validator} (ha : UnionTree defs a as)
      (hb : UnionTree defs b bs) (hc : UnionTree defs c cs) (hd : UnionTree defs d ds) :
      UnionTree defs (.or4 a b c d) (as ++ bs ++ cs ++ ds)
  | optional {e : Expr} {cs : List Validator} (h : UnionTree defs e cs) :
      UnionTree defs (.optional e) (.undefined :: cs)
  | nullable {e : Expr} {cs : List Validator} (h : UnionTree defs e cs) :
      UnionTree defs (.nullable e) (cs ++ [.null])
  | withDefault (v : Value) {e : Expr} {cs : List Validator} (h : UnionTree defs e cs) :
      UnionTree defs (.withDefault v e) (cs ++ [.map .undefined (Validator.copyOf v)])
  | either {a b : Expr} {as bs : List Validator} (ha : UnionTree defs a as)
      (hb : UnionTree defs b bs) (hv : a.IsValidator defs ∨ b.IsValidator defs) :
      UnionTree defs (.either a b) (as ++ bs)

def SameChoices (vs ws : List Validator) : Prop :=
  ∀ resolve o v d, Checker.firstOf v d (vs.map (Validator.run resolve o)) =
    Checker.firstOf v d (ws.map (Validator.run resolve o))

namespace SameChoices

variable {vs ws vs' ws' : List Validator}

theorem refl (vs : List Validator) : SameChoices vs vs := fun _ _ _ _ => rfl

theorem append (h : SameChoices vs ws) (h' : SameChoices vs' ws') :
    SameChoices (vs ++ vs') (ws ++ ws') := by
  intro resolve o v d
  simp only [List.map_append, Checker.firstOf_append, h resolve o v d, h' resolve o v]

theorem union (h : SameChoices vs ws) : SameChoices [.union vs] ws := by
  intro resolve o v d
  rw [← h resolve o v d, List.map_singleton, Validator.run_union, Checker.firstOf_union,
    List.append_nil]

theorem choices {w : Validator} (h : SameChoices [w] ws) : SameChoices w.choices ws := by
  cases w with
  | union cs =>
    intro resolve o v d
    rw [← h resolve o v d, List.map_singleton, Validator.run_union, Checker.firstOf_union,
      List.append_nil]
    rfl
  | _ => exact h

theorem run_union (h : SameChoices vs ws) (resolve : String → Checker) (o : Display.Options) :
    (Validator.union vs).run resolve o = (Validator.union ws).run resolve o := by
  funext v
  rw [Validator.run_union, Validator.run_union]
  exact h resolve o v (.empty v)

end SameChoices

namespace UnionTree

variable {defs : Definitions} {e : Expr} {cs : List Validator}

def Offers (defs : Definitions) (e : Expr) (cs : List Validator) : Prop :=
  ∃ s w, e.build defs = .ok s ∧ s.elaborate = .ok w ∧ SameChoices [w] cs

theorem offers_all {ts : List (Expr × List Validator)} (h : ∀ t ∈ ts, Offers defs t.1 t.2) :
    ∃ ss ws, Expr.buildAll defs (ts.map Prod.fst) = .ok ss ∧ Schema.elaborateAll ss = .ok ws ∧
      ss.length = ts.length ∧ SameChoices ws (ts.flatMap Prod.snd) := by
  induction ts with
  | nil => exact ⟨[], [], rfl, rfl, rfl, .refl []⟩
  | cons t ts ih =>
    obtain ⟨s, w, hs, hw, hc⟩ := h t (by simp)
    obtain ⟨ss, ws, hss, hws, hl, hcs⟩ := ih fun u hu => h u (List.mem_cons_of_mem _ hu)
    refine ⟨s :: ss, w :: ws, ?_, Schema.elaborateAll_cons hw hws, by simp [hl], hc.append hcs⟩
    rw [List.map_cons, Expr.buildAll, hs, hss]
    rfl

theorem offers_union {vs : List Validator} (h : e.build defs = .ok (.validator (.union vs)))
    (hc : SameChoices vs cs) : Offers defs e cs := ⟨_, _, h, rfl, hc.union⟩

theorem offers (h : UnionTree defs e cs) : Offers defs e cs := by
  induction h with
  | @leaf e s c hb hc => exact ⟨s, c, hb, hc, .refl [c]⟩
  | @oneOf ts hne h ih =>
    obtain ⟨ss, ws, hss, hws, hl, hcs⟩ := offers_all ih
    have hne' : ss ≠ [] := by
      rintro rfl
      exact hne (List.eq_nil_of_length_eq_zero hl.symm)
    refine offers_union ?_ hcs
    simp only [Expr.build, hss, bind, Except.bind, Schema.union_eq_ok hne' hws]
    rfl
  | or2 _ _ iha ihb =>
    obtain ⟨sa, va, hsa, hva, hca⟩ := iha
    obtain ⟨sb, vb, hsb, hvb, hcb⟩ := ihb
    refine offers_union ?_ (hca.append hcb)
    simp only [Expr.build, hsa, hsb, bind, Except.bind, Schema.union_pair hva hvb]
    rfl
  | or3 _ _ _ iha ihb ihc =>
    obtain ⟨sa, va, hsa, hva, hca⟩ := iha
    obtain ⟨sb, vb, hsb, hvb, hcb⟩ := ihb
    obtain ⟨sc, vc, hsc, hvc, hcc⟩ := ihc
    rw [List.append_assoc]
    refine offers_union ?_ (hca.append (hcb.append hcc).union)
    simp only [Expr.build, hsa, hsb, hsc, bind, Except.bind, Schema.union_pair hvb hvc]
    rw [Schema.union_pair hva (w := .union [vb, vc]) rfl]
    rfl
  | or4 _ _ _ _ iha ihb ihc ihd =>
    obtain ⟨sa, va, hsa, hva, hca⟩ := iha
    obtain ⟨sb, vb, hsb, hvb, hcb⟩ := ihb
    obtain ⟨sc, vc, hsc, hvc, hcc⟩ := ihc
    obtain ⟨sd, vd, hsd, hvd, hcd⟩ := ihd
    rw [List.append_assoc (_ ++ _)]
    refine offers_union ?_ ((hca.append hcb).union.append (hcc.append hcd).union)
    simp only [Expr.build, hsa, hsb, hsc, hsd, bind, Except.bind, Schema.union_pair hva hvb,
      Schema.union_pair hvc hvd]
    rfl
  | optional _ ih =>
    obtain ⟨s, w, hs, hw, hc⟩ := ih
    refine offers_union ?_ ((SameChoices.refl [.undefined]).append hc)
    simp only [Expr.build, hs, bind, Except.bind, hw]
    rfl
  | nullable _ ih =>
    obtain ⟨s, w, hs, hw, hc⟩ := ih
    refine offers_union ?_ (hc.append (SameChoices.refl [.null]))
    simp only [Expr.build, hs, bind, Except.bind, hw]
    rfl
  | withDefault v _ ih =>
    obtain ⟨s, w, hs, hw, hc⟩ := ih
    refine offers_union ?_ (hc.append (SameChoices.refl [.map .undefined (Validator.copyOf v)]))
    simp only [Expr.build, hs, bind, Except.bind, hw]
    rfl
  | either _ _ hv iha ihb =>
    obtain ⟨sa, va, hsa, hva, hca⟩ := iha
    obtain ⟨sb, vb, hsb, hvb, hcb⟩ := ihb
    have hab : sa = .validator va ∨ sb = .validator vb := by
      rcases hv with ⟨u, hu⟩ | ⟨u, hu⟩
      · rw [hsa] at hu; cases hu; cases hva; exact .inl rfl
      · rw [hsb] at hu; cases hu; cases hvb; exact .inr rfl
    refine offers_union ?_ (hca.choices.append hcb.choices)
    simp only [Expr.build, hsa, hsb, bind, Except.bind, Schema.either_eq_ok hva hvb hab]
    rfl

theorem run_eq_flat (h : UnionTree defs e cs) (hu : e.isUnion = true) :
    ∃ u, e.build defs = .ok (.validator u) ∧
      ∀ resolve o v, u.run resolve o v = (Validator.union cs).run resolve o v := by
  obtain ⟨s, w, hs, hw, hc⟩ := h.offers
  obtain ⟨ws, rfl⟩ := Expr.exists_of_isUnion hu hs
  cases hw
  refine ⟨.union ws, hs, fun resolve o v => ?_⟩
  have hws : SameChoices ws cs := hc.choices
  rw [hws.run_union]

theorem run_eq_flat_or3 :
    ∃ u, (Expr.or3 (.nullable (.schema (.ofClass .str)))
        (.schema (.function fun _ _ => .reject (.simple (.int 7) "nothing")))
        (.either (.schema (.dict [(.str "a", .ofClass .int)]))
          (.optional (.schema (.validator .json))))).build [] = .ok (.validator u) ∧
      ∀ resolve o v, u.run resolve o v =
        (Validator.union [.string, .null, .function fun _ _ => .reject (.simple (.int 7) "nothing"),
          .dict [(.str "a", .integer)], .undefined, .json]).run resolve o v :=
  run_eq_flat (.or3 (.nullable (.leaf rfl rfl)) (.leaf rfl rfl)
    (.either (.leaf rfl rfl) (.optional (.leaf rfl rfl)) (.inr ⟨_, rfl⟩))) rfl

end UnionTree

end Conform
