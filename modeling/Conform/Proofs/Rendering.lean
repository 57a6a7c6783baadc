import Conform.Proofs.NodeOrder
import Conform.Proofs.ReceivedText

/-!
The lines of a rendered diagnostic: one for its root and two for every cause. An indentation of the
whole text indents each of its lines.
-/

namespace Conform

def OneLine (s : String) : Prop := '\n' ∉ s.toList

instance (s : String) : Decidable (OneLine s) := inferInstanceAs (Decidable (¬ _))

namespace OneLine

variable {s t sep : String} {ss : List String}

theorem append (hs : OneLine s) (ht : OneLine t) : OneLine (s ++ t) := by
  rw [OneLine, String.toList_append, List.mem_append]
  rintro (h | h)
  · exact hs h
  · exact ht h

theorem intercalate (hsep : OneLine sep) (hss : ∀ s ∈ ss, OneLine s) :
    OneLine (sep.intercalate ss) := by
  rw [OneLine, String.toList_intercalate]
  induction ss with
  | nil => simp [List.intercalate_nil]
  | cons s ss ih =>
    obtain ⟨hs, hrest⟩ := List.forall_mem_cons.mp hss
    cases ss with
    | nil =>
      rw [List.map_singleton, List.intercalate_singleton]
      exact hs
    | cons t ss =>
      rw [List.map_cons, List.map_cons, List.intercalate_cons_cons, List.mem_append,
        List.mem_append]
      rintro ((h | h) | h)
      · exact hs h
      · exact hsep h
      · exact ih hrest h

end OneLine

namespace Diagnostic

def OneLineNames (d : Diagnostic) : Prop :=
  ∀ n, Node n d → (∀ s ∈ n.path, OneLine s) ∧ (∀ e ∈ n.expectations, OneLine e.label) ∧
    OneLine n.received.kind.name

theorem OneLineNames.cause {d c : Diagnostic} {e : Expectation} (h : d.OneLineNames)
    (he : e ∈ d.expectations) (hc : e.cause = some c) : c.OneLineNames :=
  fun n hn => h n (.cause he hc hn)

end Diagnostic

namespace Display

open Diagnostic

variable {o : Options} {d : Diagnostic} {k : Int} {room : Nat}

theorem alternatives_oneLine {names : List String} (h : ∀ s ∈ names, OneLine s) :
    OneLine (alternatives names) := by
  unfold alternatives
  split
  · decide
  · exact h _ (List.mem_singleton_self _)
  next hne =>
    have hinit : ∀ s ∈ names.dropLast, OneLine s := fun s hs => h s (names.dropLast_subset hs)
    have hlast : OneLine (names.getLastD "") := by
      cases names with
      | nil => decide
      | cons s ss =>
        rw [List.getLastD_eq_getLast?, List.getLast?_eq_getLast_of_ne_nil (List.cons_ne_nil s ss)]
        exact h _ (List.getLast_mem _)
    exact ((OneLine.intercalate (by decide) hinit).append (by decide)).append hlast

theorem received_oneLine {v : Value} (h : OneLine v.kind.name) : OneLine (received o v) := by
  intro hn
  rcases mem_received hn with hv | ⟨-, hname⟩
  · exact absurd hv (by decide)
  · exact h hname

theorem indentation_oneLine (k : Int) : OneLine (indentation k) := by
  rw [OneLine, indentation, String.toList_ofList, List.mem_replicate]
  rintro ⟨-, h⟩
  contradiction

theorem sentence_oneLine {labels : List String} {v : Value} (hv : OneLine v.kind.name)
    (h : ∀ s ∈ labels, OneLine s) : OneLine (sentence o v labels) := by
  have hreceived := received_oneLine (o := o) hv
  have hlabels := alternatives_oneLine h
  unfold sentence
  split
  · exact (OneLine.append (by decide) hreceived).append (by decide)
  · exact (((OneLine.append (by decide) hlabels).append (by decide)).append hreceived).append
      (by decide)

theorem header_oneLine (hroot : OneLine o.root) (hd : d.OneLineNames) :
    OneLine (header o k d) := by
  obtain ⟨hpath, hlabels, hname⟩ := hd d (.root d)
  have hplace : OneLine (".".intercalate (o.root :: d.path)) :=
    OneLine.intercalate (by decide) (List.forall_mem_cons.mpr ⟨hroot, hpath⟩)
  have hsentence : OneLine (sentence o d.received (d.expectations.map Expectation.label)) :=
    sentence_oneLine hname (List.forall_mem_map.mpr hlabels)
  exact (((indentation_oneLine k).append hplace).append (by decide)).append hsentence

theorem because_oneLine {label : String} (h : OneLine label) : OneLine (because k label) :=
  (((indentation_oneLine k).append (by decide)).append h).append (by decide)

theorem causeLines_eq_flatMap (o : Options) (k : Int) (es : List Expectation) :
    causeLines o k es = es.flatMap fun e => linesBecause o k e.label e.cause := by
  induction es with
  | nil => rfl
  | cons e es ih =>
    obtain ⟨l, c⟩ := e
    rw [causeLines, ih, List.flatMap_cons]

theorem lines_eq_cons (o : Options) (k : Int) (d : Diagnostic) : lines o k d =
    header o k d :: d.expectations.flatMap fun e => linesBecause o k e.label e.cause := by
  obtain ⟨p, v, es⟩ := d
  rw [lines, causeLines_eq_flatMap]

theorem lines_oneLine (hroot : OneLine o.root) (hd : d.OneLineNames) :
    ∀ l ∈ lines o k d, OneLine l := by
  induction d using cause_induction generalizing k with
  | step d ih =>
    rw [lines_eq_cons]
    refine List.forall_mem_cons.mpr ⟨header_oneLine hroot hd, List.forall_mem_flatMap.mpr ?_⟩
    intro e he
    cases hc : e.cause with
    | none => nofun
    | some c =>
      have hlabel := (hd d (.root d)).2.1 e he
      exact List.forall_mem_cons.mpr ⟨because_oneLine hlabel, ih e he c hc (hd.cause he hc)⟩

def linesOf (o : Options) (k : Int) (c : Cause) : List String :=
  [because (k + c.level - 1) c.label, header o (k + c.level) c.node]

theorem lines_eq_causes (level : Nat) : lines o (k + level) d =
    header o (k + level) d :: (causes level d).flatMap (linesOf o k) := by
  induction d using cause_induction generalizing level with
  | step d ih =>
    rw [lines_eq_cons, causes_eq_flatMap, List.flatMap_assoc]
    congr 1
    refine List.flatMap_congr fun e he => ?_
    cases hc : e.cause with
    | none => rfl
    | some c =>
      have hlevel : k + level + 1 = k + ((level + 1 : Nat) : Int) := by omega
      have habove : k + ((level + 1 : Nat) : Int) - 1 = k + level := by omega
      rw [linesBecause, causesFor, List.flatMap_cons, linesOf, hlevel, habove, ih e he c hc]
      rfl

theorem render_toList (o : Options) (k : Int) (d : Diagnostic) :
    (render o k d).toList = ['\n'].intercalate ((lines o k d).map String.toList) := by
  rw [render, String.toList_intercalate]
  rfl

theorem splitOn_render (hroot : OneLine o.root) (hd : d.OneLineNames) :
    (render o k d).toList.splitOn '\n' = (lines o k d).map String.toList := by
  rw [render_toList]
  apply List.splitOn_intercalate
  · exact List.forall_mem_map.mpr (lines_oneLine hroot hd)
  · rw [lines_eq_cons]
    nofun

theorem indentation_add {j : Int} (k : Nat) (hj : 0 ≤ j) :
    (indentation (k + j)).toList = List.replicate (2 * k) ' ' ++ (indentation j).toList := by
  have hsum : 2 * ((k : Int) + j).toNat = 2 * k + 2 * j.toNat := by omega
  rw [indentation, indentation, String.toList_ofList, String.toList_ofList, hsum,
    List.replicate_add]

theorem lines_add {j : Int} (k : Nat) (hj : 0 ≤ j) : (lines o (k + j) d).map String.toList =
    (lines o j d).map fun l => List.replicate (2 * k) ' ' ++ l.toList := by
  induction d using cause_induction generalizing j with
  | step d ih =>
    rw [lines_eq_cons, lines_eq_cons, List.map_cons, List.map_cons, List.map_flatMap,
      List.map_flatMap]
    congr 1
    · simp only [header, String.toList_append, indentation_add k hj, List.append_assoc]
    refine List.flatMap_congr fun e he => ?_
    cases hc : e.cause with
    | none => rfl
    | some c =>
      have hbelow := ih e he c hc (j := j + 1) (by omega)
      simp only [linesBecause, List.map_cons, because, String.toList_append, indentation_add k hj,
        List.append_assoc, Int.add_assoc, hbelow]

theorem length_linesOf (o : Options) (k : Int) (cs : List Cause) :
    (cs.flatMap (linesOf o k)).length = 2 * cs.length := by
  induction cs with
  | nil => rfl
  | cons c cs ih =>
    rw [List.flatMap_cons, List.length_append, ih, linesOf, List.length_cons]
    simp only [List.length_cons, List.length_nil]
    omega

inductive Sentence (found : String) : List String → String → Prop
  | none : Sentence found [] ("We found " ++ found ++ ".")
  | one (label : String) :
    Sentence found [label] ("We expected " ++ label ++ " but found " ++ found ++ " instead.")
  | several {labels : List String} (last : String) (h : labels ≠ []) :
    Sentence found (labels ++ [last]) ("We expected " ++ ", ".intercalate labels ++ " or " ++ last ++
      " but found " ++ found ++ " instead.")

def spaces (k : Nat) : String := String.ofList (List.replicate (2 * k) ' ')

/-- The line of a node in a display with so many steps of indentation before it. -/
def IsHeader (o : Options) (k : Nat) (d : Diagnostic) (line : String) : Prop :=
  ∃ s, Sentence (received o d.received) (d.expectations.map Expectation.label) s ∧
    line = spaces k ++ ".".intercalate (o.root :: d.path) ++ " is invalid. " ++ s

/-- The line that stands before the line of a cause. -/
def announcement (k : Nat) (label : String) : String :=
  spaces k ++ "it is not " ++ label ++ " because:"

theorem sentence_spelled (o : Options) (v : Value) (labels : List String) :
    Sentence (received o v) labels (sentence o v labels) := by
  rcases List.eq_nil_or_concat labels with rfl | ⟨init, last, rfl⟩
  · exact .none
  cases init with
  | nil => exact .one last
  | cons l ls =>
    have hlabels : alternatives (l :: ls ++ [last]) =
        ", ".intercalate (l :: ls) ++ " or " ++ last := by
      unfold alternatives
      split
      next h => simp at h
      next h => simp at h
      next =>
        have hlast : (l :: ls ++ [last]).getLastD "" = last := by
          rw [List.getLastD_eq_getLast?, List.getLast?_append]
          rfl
        rw [hlast, List.dropLast_concat]
    rw [List.concat_eq_append, sentence, hlabels, if_neg (by simp), ← String.append_assoc,
      ← String.append_assoc]
    exact .several last (List.cons_ne_nil l ls)

theorem isHeader_header (o : Options) (k : Nat) (d : Diagnostic) :
    IsHeader o k d (header o k d) := ⟨_, sentence_spelled o _ _, rfl⟩

theorem linesOf_eq (o : Options) (k : Nat) (c : Cause) : linesOf o k c =
    [announcement (k + c.level - 1) c.label, header o ((k + c.level : Nat) : Int) c.node] := by
  have hlevel : ((k : Int) + c.level - 1).toNat = k + c.level - 1 := by omega
  rw [linesOf, because, indentation, hlevel, announcement, spaces, Int.natCast_add]

theorem getLast?_toList_append (s : String) {t : String} {c : Char}
    (h : t.toList.getLast? = some c) : (s ++ t).toList.getLast? = some c := by
  rw [String.toList_append, List.getLast?_append, h]
  rfl

theorem Sentence.getLast? {found s : String} {labels : List String} (h : Sentence found labels s) :
    s.toList.getLast? = some '.' := by
  cases h <;> exact getLast?_toList_append _ (by decide)

theorem IsHeader.ne_announcement {line label : String} {k j : Nat} (h : IsHeader o k d line) :
    line ≠ announcement j label := by
  obtain ⟨s, hs, rfl⟩ := h
  intro heq
  have hstop := getLast?_toList_append (spaces k ++ ".".intercalate (o.root :: d.path) ++
    " is invalid. ") hs.getLast?
  have hcolon : (announcement j label).toList.getLast? = some ':' :=
    getLast?_toList_append _ (by decide)
  rw [heq, hcolon] at hstop
  contradiction

theorem isShown_of_levels {v : Value} (h : v.levels ≤ room) : isShown room v = true := by
  have hroom : (Json.write v).depth ≤ room := Nat.le_trans (Json.depth_write_le v) h
  simp [isShown, hroom]

theorem causesShown_iff {es : List Expectation} : causesShown room es = true ↔
    ∀ e ∈ es, ∀ c, e.cause = some c → allShown room c = true := by
  induction es with
  | nil => simp [causesShown]
  | cons e es ih =>
    obtain ⟨l, c⟩ := e
    rw [causesShown, Bool.and_eq_true, ih, List.forall_mem_cons]
    cases c <;> simp [causeShown]

theorem allShown_of_levels (h : ∀ n, Node n d → n.received.levels ≤ room) :
    allShown room d = true := by
  induction d using cause_induction with
  | step d ih =>
    have hcauses : causesShown room d.expectations = true :=
      causesShown_iff.mpr fun e he c hc => ih e he c hc fun n hn => h n (.cause he hc hn)
    have hroot := isShown_of_levels (h d (.root d))
    obtain ⟨p, v, es⟩ := d
    rw [allShown, Bool.and_eq_true]
    exact ⟨hroot, hcauses⟩

theorem render_lines (hroot : OneLine o.root) (hd : d.OneLineNames) (room k : Nat) :
    ((∀ n, Node n d → n.received.levels ≤ room) → ∃ s, render? room o k d = some s) ∧
    ∀ s, render? room o k d = some s →
      (∃ (first : String) (pairs : List (String × String)),
        s.toList.splitOn '\n' =
          (first :: pairs.flatMap fun p => [p.1, p.2]).map String.toList ∧
        IsHeader o k d first ∧
        List.Forall₂ (fun c p => p.1 = announcement (k + c.level - 1) c.label ∧
          IsHeader o (k + c.level) c.node p.2 ∧ ∀ j n, ¬ IsHeader o j n p.1) (causes 0 d) pairs) ∧
      (s.toList.splitOn '\n').length = 1 + 2 * (causes 0 d).length ∧
      (∀ n, n ∈ d :: (causes 0 d).map Cause.node ↔ Node n d) ∧
      ∃ t, render? room o 0 d = some t ∧ s.toList = ['\n'].intercalate
        ((t.toList.splitOn '\n').map (List.replicate (2 * k) ' ' ++ ·)) := by
  refine ⟨fun h => ⟨_, if_pos (allShown_of_levels h)⟩, fun s hs => ?_⟩
  obtain ⟨hshown, rfl⟩ := Option.ite_some_none_eq_some.mp hs
  have hlines : (render o k d).toList.splitOn '\n' =
      (header o k d :: (causes 0 d).flatMap (linesOf o k)).map String.toList := by
    have hall := lines_eq_causes (o := o) (d := d) (k := k) 0
    rw [Int.natCast_zero, Int.add_zero] at hall
    rw [splitOn_render hroot hd, hall]
  refine ⟨⟨header o k d, (causes 0 d).map fun c =>
    (announcement (k + c.level - 1) c.label, header o (k + c.level) c.node), ?_,
    isHeader_header o k d, ?_⟩, ?_, fun n => mem_nodes_iff, render o 0 d, if_pos hshown, ?_⟩
  · rw [hlines, List.flatMap_map, funext (linesOf_eq o k)]
    rfl
  · rw [List.forall₂_map_right_iff]
    refine List.forall₂_same.mpr fun c _ => ⟨rfl, isHeader_header o _ c.node, fun j n h => ?_⟩
    exact h.ne_announcement rfl
  · rw [hlines, List.length_map, List.length_cons, length_linesOf]
    omega
  · have hadd := lines_add (o := o) (d := d) k (Int.le_refl 0)
    rw [Int.add_zero] at hadd
    rw [splitOn_render hroot hd, render_toList, hadd, List.map_map]
    rfl

def nestedChoice : Diagnostic :=
  ⟨["shape"], .str "a\nb", [
    ⟨"a circle", some ⟨["shape", "radius"], .set [], [⟨"a number", none⟩]⟩⟩,
    ⟨"a polygon", some ⟨["shape"], .str "a\nb", [⟨"an array", none⟩,
      ⟨"a square", some ⟨["shape", "side"], .undefined, []⟩⟩]⟩⟩]⟩

theorem render_lines_nestedChoice :
    let s := "  data.shape is invalid. We expected a circle or a polygon but found \"a\\nb\" instead.
  it is not a circle because:
    data.shape.radius is invalid. We expected a number but found set instead.
  it is not a polygon because:
    data.shape is invalid. We expected an array or a square but found \"a\\nb\" instead.
    it is not a square because:
      data.shape.side is invalid. We found undefined."
    OneLine Options.default.root ∧ nestedChoice.OneLineNames ∧
      render? Json.room .default 1 nestedChoice = some s ∧ (s.toList.splitOn '\n').length = 7 := by
  intro s
  have hroot : OneLine Options.default.root := by decide
  have hnames : nestedChoice.OneLineNames := by
    have hnodes : ∀ n ∈ nestedChoice.nodes, (∀ s ∈ n.path, OneLine s) ∧
        (∀ e ∈ n.expectations, OneLine e.label) ∧ OneLine n.received.kind.name := by decide
    exact fun n hn => hnodes n (mem_nodes_iff.mpr hn)
  have hs : render? Json.room .default 1 nestedChoice = some s := by decide +kernel
  exact ⟨hroot, hnames, hs, ((render_lines hroot hnames Json.room 1).2 s hs).2.1⟩

theorem render_lines_fails :
    let d : Diagnostic := ⟨[], .object "A\nB" (.given 0), []⟩
    let e : Diagnostic := .label "l" (.simple .null "x")
    (∃ s, render? Json.room .default 0 d = some s ∧
      (s.toList.splitOn '\n').length ≠ 1 + 2 * (causes 0 d).length) ∧
    ∃ s t, render? Json.room .default (-1) e = some s ∧ render? Json.room .default 0 e = some t ∧
      s.toList ≠ ['\n'].intercalate
        ((t.toList.splitOn '\n').map (List.replicate (2 * (-1 : Int).toNat) ' ' ++ ·)) := by
  refine ⟨⟨"data is invalid. We found A\nB.", by decide +kernel, by decide +kernel⟩,
    "data is invalid. We expected l but found null instead.
it is not l because:
data is invalid. We expected x but found null instead.",
    "data is invalid. We expected l but found null instead.
it is not l because:
  data is invalid. We expected x but found null instead.",
    by decide +kernel, by decide +kernel, by decide +kernel⟩

end Display

end Conform
