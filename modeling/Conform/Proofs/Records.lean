import Conform.Proofs.CheckerOutcome
import Conform.Proofs.ValidatorTree
import Conform.Validate

namespace Conform

def Fault.records : Fault → List LogRecord
  | .rejection d _ => [⟨d.path⟩]
  | .unrendered d => [⟨d.path⟩]
  | _ => []

def Outcome.records {α : Type} : Outcome α → List LogRecord
  | .raised e => e.records
  | _ => []

/-- The log holds the record of the fault that ends the trace, and nothing more. -/
def Trace.Accounted {α : Type} (t : Trace α) : Prop := t.log = t.outcome.records

namespace Trace.Accounted

variable {α β ι : Type} {t : Trace α}

theorem pure (a : α) : (pure a : Trace α).Accounted := rfl

theorem reject (d : Diagnostic) : (reject d : Trace α).Accounted := rfl

theorem raise {e : Fault} (he : e.records = []) : (raise e : Trace α).Accounted := he.symm

theorem bind {f : α → Trace β} (h : t.Accounted)
    (hf : ∀ a, t.outcome = .done a → (f a).Accounted) : (t >>= f).Accounted := by
  obtain ⟨log, a | d | e⟩ := t
  · -- a trace that comes to a value has no record to pass on
    obtain rfl : log = [] := h
    exact hf a rfl
  · exact h
  · exact h

theorem map (h : t.Accounted) (f : α → β) : (f <$> t).Accounted := by
  rw [map_eq_pure_bind]
  exact h.bind fun a _ => .pure (f a)

theorem orElse {f : Diagnostic → Trace α} (h : t.Accounted) (hf : ∀ d, (f d).Accounted) :
    (t.orElse f).Accounted := by
  obtain ⟨log, a | d | e⟩ := t
  · exact h
  · obtain rfl : log = [] := h
    exact hf d
  · exact h

theorem mapRejection (h : t.Accounted) (f : Diagnostic → Diagnostic) :
    (t.mapRejection f).Accounted := by
  rw [mapRejection_eq_orElse]
  exact h.orElse fun d => .reject (f d)

theorem below (h : t.Accounted) (k : Value) : (t.below k).Accounted := by
  rw [Checker.below_eq_orElse]
  refine h.orElse fun d => ?_
  split
  · exact .reject _
  · exact .raise rfl

theorem attempt (h : t.Accounted) : t.attempt.Accounted := by
  obtain ⟨log, a | d | e⟩ := t <;> exact h

theorem inOrder {f : ι → Trace α} {is : List ι} (h : ∀ i ∈ is, (f i).Accounted) :
    (inOrder (is.map f)).Accounted := by
  induction is with
  | nil => exact .pure []
  | cons i is ih =>
    obtain ⟨hi, his⟩ := List.forall_mem_cons.mp h
    exact hi.bind fun a _ => (ih his).bind fun as _ => .pure (a :: as)

theorem insist (h : t.Accounted) (o : Display.Options) : (t.insist o).Accounted := by
  obtain ⟨log, a | d | e⟩ := t
  · exact h
  · obtain rfl : log = [] := h
    cases h : Display.render? Json.room o 0 d <;>
      simp [Trace.insist, Trace.Accounted, h, Outcome.records, Fault.records]
  · exact h

end Trace.Accounted

namespace Checker

def Accounted (c : Checker) : Prop := ∀ v, (c v).Accounted

namespace Accounted

variable {c d : Checker} {cs : List Checker} {fs : Table Checker}

theorem test (p : Value → Option Bool) (l : String) : (test p l).Accounted := by
  intro v
  unfold Checker.test
  split
  · exact .pure v
  · exact .reject _

theorem json : json.Accounted := by
  intro v
  unfold Checker.json
  split
  · split
    · exact .pure _
    · exact .reject _
    · exact .raise rfl
  · exact .reject _

theorem list (h : c.Accounted) : (list c).Accounted := by
  intro v
  unfold Checker.list
  cases v.items? with
  | none => exact .reject _
  | some xs =>
    simp only [items_eq_inOrder]
    refine Trace.Accounted.map (Trace.Accounted.inOrder fun p _ => ?_) _
    apply Trace.Accounted.mapRejection
    unfold sparing
    split
    · exact .pure p.1
    · exact h p.1

theorem onField (h : c.Accounted) (key v : Value) : (c.onField key v).Accounted := by
  unfold Checker.onField lookup
  split
  · exact .raise rfl
  · exact h _

theorem finish (v : Value) : (finish v).Accounted := by
  unfold Checker.finish
  split
  · exact .raise rfl
  · exact .pure ()

theorem dict (h : ∀ f ∈ fs, f.2.Accounted) : (dict fs).Accounted := by
  intro v
  unfold Checker.dict
  split
  · rw [fields_eq_inOrder]
    have hfields := Trace.Accounted.inOrder fun f hf => ((h f hf).onField f.1 v).below f.1
    exact (hfields.map _).map _
  · exact .reject _

theorem snakeField {f : Value × Checker} (h : f.2.Accounted) (v : Value) :
    (snakeField v f).Accounted := by
  obtain ⟨k, c⟩ := f
  cases k with
  | str name => exact (((h.onField _ v).mapRejection _).attempt).map _
  | _ => exact .raise rfl

theorem snakeDict (h : ∀ f ∈ fs, f.2.Accounted) : (snakeDict fs).Accounted := by
  intro v
  unfold Checker.snakeDict
  rw [snakeFields_eq_inOrder]
  refine (Trace.Accounted.inOrder fun f hf => snakeField (h f hf) v).bind fun rs _ => ?_
  split
  · exact .pure _
  · exact .reject _

theorem record (h : c.Accounted) : (record c).Accounted := by
  intro v
  unfold Checker.record
  cases v.entries? with
  | none => exact .reject _
  | some es =>
    simp only [entries_eq_inOrder]
    have hentries :=
      Trace.Accounted.inOrder fun (e : Value × Value) (_ : e ∈ es) => (h e.2).below e.1
    exact (hentries.map _).bind fun ys _ => (finish v).bind fun _ _ => .pure _

theorem firstOf (h : ∀ c ∈ cs, c.Accounted) (v : Value) (d : Diagnostic) :
    (firstOf v d cs).Accounted := by
  induction cs generalizing d with
  | nil => exact .reject d
  | cons c cs ih =>
    obtain ⟨hc, hcs⟩ := List.forall_mem_cons.mp h
    exact (hc v).orElse fun e => ih hcs _

theorem union (h : ∀ c ∈ cs, c.Accounted) : (union cs).Accounted := fun v => firstOf h v _

theorem intersection (h : ∀ c ∈ cs, c.Accounted) : (intersection cs).Accounted := by
  intro v
  unfold Checker.intersection
  rw [allOf_eq_inOrder]
  have hparts := Trace.Accounted.inOrder fun c hc => h c hc v
  exact (hparts.map _).bind fun _ _ => .pure v

end Accounted

end Checker

namespace Validator

mutual

def functions : Validator → List UserFunction
  | .function f => [f]
  | .model m => [Checker.model m]
  | .map c f => f :: functions c
  | .list c => functions c
  | .record c => functions c
  | .label _ c => functions c
  | .andThen c d => functions c ++ functions d
  | .dict fs => functionsOfFields fs
  | .snakeDict fs => functionsOfFields fs
  | .union cs => functionsOfAll cs
  | .intersection cs => functionsOfAll cs
  | _ => []
termination_by structural c => c

def functionsOfAll : List Validator → List UserFunction
  | [] => []
  | c :: cs => functions c ++ functionsOfAll cs
termination_by structural cs => cs

def functionsOfFields : List (Value × Validator) → List UserFunction
  | [] => []
  | (_, c) :: fs => functions c ++ functionsOfFields fs
termination_by structural fs => fs

end

variable {resolve : String → Checker} {o : Display.Options}

end Validator

end Conform
