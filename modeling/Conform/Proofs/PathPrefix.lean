import Conform.Proofs.MergeLaws
import Conform.Proofs.NodeOrder
import Conform.Value.Text

namespace Conform.Diagnostic

mutual

def mapPaths (f : List String → List String) : Diagnostic → Diagnostic
  | ⟨path, received, expectations⟩ => ⟨f path, received, mapPathsAmong f expectations⟩
termination_by structural d => d

def mapPathsAmong (f : List String → List String) : List Expectation → List Expectation
  | [] => []
  | ⟨label, cause⟩ :: es => ⟨label, mapPathsOf f cause⟩ :: mapPathsAmong f es
termination_by structural es => es

def mapPathsOf (f : List String → List String) : Option Diagnostic → Option Diagnostic
  | none => none
  | some d => some (mapPaths f d)
termination_by structural d => d

end

variable (f : List String → List String)

theorem mapPathsAmong_eq_map (es : List Expectation) :
    mapPathsAmong f es = es.map fun e => ⟨e.label, e.cause.map (mapPaths f)⟩ := by
  induction es with
  | nil => rfl
  | cons e es ih =>
    obtain ⟨l, c⟩ := e
    rw [mapPathsAmong, ih, List.map_cons]
    cases c <;> rfl

theorem mapPaths_id (d : Diagnostic) : d.mapPaths id = d := by
  induction d using cause_induction with
  | step d ih =>
    obtain ⟨p, v, es⟩ := d
    have hes : ∀ e ∈ es, (⟨e.label, e.cause.map (mapPaths id)⟩ : Expectation) = e := by
      rintro ⟨l, c⟩ he
      cases c with
      | none => rfl
      | some c => rw [Option.map_some, ih _ he c rfl]
    rw [mapPaths, mapPathsAmong_eq_map, List.map_congr_left hes, List.map_id', id]

theorem under_mapPaths (s : String) (d : Diagnostic) :
    (d.mapPaths f).under s = d.mapPaths fun p => s :: f p := by
  induction d using cause_induction with
  | step d ih =>
    obtain ⟨p, v, es⟩ := d
    rw [mapPaths, mapPaths, under, mapPathsAmong_eq_map, mapPathsAmong_eq_map,
      expectationsUnder_eq_map, List.map_map]
    congr 1
    refine List.map_congr_left fun e he => ?_
    cases hc : e.cause with
    | none => simp [hc]
    | some c => simp [hc, ih e he c hc]

theorem foldr_under (segments : List String) (d : Diagnostic) :
    segments.foldr under d = d.mapPaths (segments ++ ·) := by
  induction segments with
  | nil => exact (mapPaths_id d).symm
  | cons s segments ih => rw [List.foldr_cons, ih, under_mapPaths]; rfl

theorem under_homomorphism :
    (∀ (a b : Diagnostic) (segment : Value),
      (a.under segment.text).combine (b.under segment.text) =
          (a.combine b).under segment.text ∧
        comparePaths (a.under segment.text).path (b.under segment.text).path =
          comparePaths a.path b.path) ∧
    ∀ (d : Diagnostic) (segments : List Value),
      segments.foldr (fun s d => d.under s.text) d =
        d.mapPaths (segments.map Value.text ++ ·) := by
  refine ⟨fun a b s => ⟨combine_under a b s.text, ?_⟩, fun d segments => ?_⟩
  · rw [under_path, under_path, comparePaths_cons]
  · rw [← foldr_under, List.foldr_map]

end Conform.Diagnostic
