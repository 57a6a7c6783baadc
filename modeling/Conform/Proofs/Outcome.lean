import Conform.Trace

namespace Conform

theorem exists_mem_of_map_eq {α β γ : Type} {as : List α} {bs : List β} {f : α → γ} {g : β → γ}
    (h : as.map f = bs.map g) {b : β} (hb : b ∈ bs) : ∃ a ∈ as, f a = g b := by
  apply List.mem_map.mp
  rw [h]
  exact List.mem_map_of_mem hb

namespace Trace

variable {α β : Type}

@[simp] theorem outcome_pure (a : α) : (pure a : Trace α).outcome = .done a := rfl

@[simp] theorem outcome_reject (d : Diagnostic) : (reject d : Trace α).outcome = .rejected d := rfl

@[simp] theorem outcome_raise (f : Fault) : (raise f : Trace α).outcome = .raised f := rfl

@[simp] theorem outcome_after (log : List LogRecord) (t : Trace α) :
    (t.after log).outcome = t.outcome := rfl

@[simp] theorem log_after (log : List LogRecord) (t : Trace α) :
    (t.after log).log = log ++ t.log := rfl

theorem after_after (log log' : List LogRecord) (t : Trace α) :
    (t.after log').after log = t.after (log ++ log') := by
  simp only [after, List.append_assoc]

theorem bind_eq_done_iff {t : Trace α} {f : α → Trace β} {b : β} :
    (t >>= f).outcome = .done b ↔ ∃ a, t.outcome = .done a ∧ (f a).outcome = .done b := by
  change (t.bind f).outcome = _ ↔ _
  cases h : t.outcome <;> simp [bind, h]

theorem bind_eq_rejected_iff {t : Trace α} {f : α → Trace β} {d : Diagnostic} :
    (t >>= f).outcome = .rejected d ↔
      t.outcome = .rejected d ∨ ∃ a, t.outcome = .done a ∧ (f a).outcome = .rejected d := by
  change (t.bind f).outcome = _ ↔ _
  cases h : t.outcome <;> simp [bind, h]

theorem bind_eq_raised_iff {t : Trace α} {f : α → Trace β} {e : Fault} :
    (t >>= f).outcome = .raised e ↔
      t.outcome = .raised e ∨ ∃ a, t.outcome = .done a ∧ (f a).outcome = .raised e := by
  change (t.bind f).outcome = _ ↔ _
  cases h : t.outcome <;> simp [bind, h]

instance : LawfulMonad Trace := LawfulMonad.mk' Trace
  (fun t => by
    change t.bind pure = t
    obtain ⟨log, outcome⟩ := t
    cases outcome <;> simp [bind, after, pure])
  (fun a f => by
    change (pure a : Trace _).bind f = f a
    simp [bind, after, pure])
  (fun t f g => by
    change (t.bind f).bind g = t.bind fun a => (f a).bind g
    cases h : t.outcome with
    | done a => cases hf : (f a).outcome <;> simp [bind, h, hf, after]
    | _ => simp [bind, h])

theorem map_eq_done_iff {t : Trace α} {f : α → β} {b : β} :
    (f <$> t).outcome = .done b ↔ ∃ a, t.outcome = .done a ∧ f a = b := by
  rw [map_eq_pure_bind, bind_eq_done_iff]
  simp only [outcome_pure, Outcome.done.injEq]

theorem map_eq_rejected_iff {t : Trace α} {f : α → β} {d : Diagnostic} :
    (f <$> t).outcome = .rejected d ↔ t.outcome = .rejected d := by
  rw [map_eq_pure_bind, bind_eq_rejected_iff]
  simp

theorem map_eq_raised_iff {t : Trace α} {f : α → β} {e : Fault} :
    (f <$> t).outcome = .raised e ↔ t.outcome = .raised e := by
  rw [map_eq_pure_bind, bind_eq_raised_iff]
  simp

theorem mapRejection_eq_done_iff {t : Trace α} {f : Diagnostic → Diagnostic} {a : α} :
    (t.mapRejection f).outcome = .done a ↔ t.outcome = .done a := by
  cases h : t.outcome <;> simp [mapRejection, h]

theorem mapRejection_eq_rejected_iff {t : Trace α} {f : Diagnostic → Diagnostic} {d : Diagnostic} :
    (t.mapRejection f).outcome = .rejected d ↔ ∃ e, t.outcome = .rejected e ∧ f e = d := by
  cases h : t.outcome <;> simp [mapRejection, h]

theorem mapRejection_eq_raised_iff {t : Trace α} {f : Diagnostic → Diagnostic} {e : Fault} :
    (t.mapRejection f).outcome = .raised e ↔ t.outcome = .raised e := by
  cases h : t.outcome <;> simp [mapRejection, h]

theorem attempt_eq_ok_iff {t : Trace α} {a : α} :
    t.attempt.outcome = .done (.ok a) ↔ t.outcome = .done a := by
  cases h : t.outcome <;> simp [attempt, h]

theorem attempt_eq_error_iff {t : Trace α} {d : Diagnostic} :
    t.attempt.outcome = .done (.error d) ↔ t.outcome = .rejected d := by
  cases h : t.outcome <;> simp [attempt, h]

theorem attempt_ne_rejected (t : Trace α) (d : Diagnostic) : t.attempt.outcome ≠ .rejected d := by
  cases h : t.outcome <;> simp [attempt, h]

theorem attempt_eq_raised_iff {t : Trace α} {e : Fault} :
    t.attempt.outcome = .raised e ↔ t.outcome = .raised e := by
  cases h : t.outcome <;> simp [attempt, h]

theorem orElse_of_rejected {t : Trace α} {d : Diagnostic} (h : t.outcome = .rejected d)
    (f : Diagnostic → Trace α) : t.orElse f = (f d).after t.log := by
  simp only [orElse, h]

theorem orElse_of_not_rejected {t : Trace α} (h : ∀ d, t.outcome ≠ .rejected d)
    (f : Diagnostic → Trace α) : t.orElse f = t := by
  unfold orElse
  split
  next d hd => exact absurd hd (h d)
  next => rfl

theorem orElse_eq_done_iff {t : Trace α} {f : Diagnostic → Trace α} {a : α} :
    (t.orElse f).outcome = .done a ↔
      t.outcome = .done a ∨ ∃ d, t.outcome = .rejected d ∧ (f d).outcome = .done a := by
  cases h : t.outcome <;> simp [orElse, h]

theorem orElse_eq_rejected_iff {t : Trace α} {f : Diagnostic → Trace α} {e : Diagnostic} :
    (t.orElse f).outcome = .rejected e ↔
      ∃ d, t.outcome = .rejected d ∧ (f d).outcome = .rejected e := by
  cases h : t.outcome <;> simp [orElse, h]

theorem orElse_eq_raised_iff {t : Trace α} {f : Diagnostic → Trace α} {e : Fault} :
    (t.orElse f).outcome = .raised e ↔
      t.outcome = .raised e ∨ ∃ d, t.outcome = .rejected d ∧ (f d).outcome = .raised e := by
  cases h : t.outcome <;> simp [orElse, h]

theorem after_orElse (log : List LogRecord) (t : Trace α) (f : Diagnostic → Trace α) :
    (t.after log).orElse f = (t.orElse f).after log := by
  cases h : t.outcome <;> simp [orElse, h, after_after]

theorem orElse_assoc (t : Trace α) (f g : Diagnostic → Trace α) :
    (t.orElse f).orElse g = t.orElse fun d => (f d).orElse g := by
  by_cases h : ∃ d, t.outcome = .rejected d
  · obtain ⟨d, hd⟩ := h
    rw [orElse_of_rejected hd, orElse_of_rejected hd, after_orElse]
  · have hn : ∀ d, t.outcome ≠ .rejected d := fun d hd => h ⟨d, hd⟩
    rw [orElse_of_not_rejected hn, orElse_of_not_rejected hn, orElse_of_not_rejected hn]

def inOrder : List (Trace α) → Trace (List α)
  | [] => pure []
  | t :: ts => do
    let a ← t
    let as ← inOrder ts
    return a :: as

theorem inOrder_eq_done_iff {ts : List (Trace α)} {as : List α} :
    (inOrder ts).outcome = .done as ↔ ts.map Trace.outcome = as.map .done := by
  induction ts generalizing as with
  | nil => cases as <;> simp [inOrder]
  | cons t ts ih =>
    simp only [inOrder, bind_eq_done_iff, outcome_pure, Outcome.done.injEq, ih]
    constructor
    · rintro ⟨a, ha, bs, hbs, rfl⟩
      rw [List.map_cons, List.map_cons, ha, hbs]
    · intro h
      cases as with
      | nil => simp at h
      | cons a as => exact ⟨a, (List.cons.inj h).1, as, (List.cons.inj h).2, rfl⟩

theorem inOrder_eq_rejected_iff {ts : List (Trace α)} {d : Diagnostic} :
    (inOrder ts).outcome = .rejected d ↔
      ∃ (i : Nat) (t : Trace α), ts[i]? = some t ∧ t.outcome = .rejected d ∧
        ∀ j < i, ∀ u : Trace α, ts[j]? = some u → ∃ a, u.outcome = .done a := by
  induction ts with
  | nil => simp [inOrder]
  | cons t ts ih =>
    simp only [inOrder, bind_eq_rejected_iff, outcome_pure, reduceCtorEq, and_false, exists_false,
      or_false, ih]
    constructor
    · rintro (ht | ⟨a, ha, i, u, hu, hd, hj⟩)
      · exact ⟨0, t, rfl, ht, by simp⟩
      · refine ⟨i + 1, u, hu, hd, fun j hji w hw => ?_⟩
        cases j with
        | zero => cases hw; exact ⟨a, ha⟩
        | succ j => exact hj j (Nat.lt_of_succ_lt_succ hji) w hw
    · rintro ⟨i, u, hu, hd, hj⟩
      cases i with
      | zero => cases hu; exact .inl hd
      | succ i =>
        obtain ⟨a, ha⟩ := hj 0 (Nat.succ_pos i) t rfl
        exact .inr ⟨a, ha, i, u, hu, hd, fun j hji w hw =>
          hj (j + 1) (Nat.succ_lt_succ hji) w hw⟩

theorem inOrder_map_eq_raised_iff {ι : Type} {f : ι → Trace α} {is : List ι} {e : Fault} :
    (inOrder (is.map f)).outcome = .raised e ↔
      ∃ before i after, is = before ++ i :: after ∧ (f i).outcome = .raised e ∧
        ∀ j ∈ before, ∃ a, (f j).outcome = .done a := by
  induction is with
  | nil => simp [inOrder]
  | cons i is ih =>
    simp only [List.map_cons, inOrder, bind_eq_raised_iff, outcome_pure, reduceCtorEq, and_false,
      exists_false, or_false, ih]
    constructor
    · rintro (hi | ⟨a, ha, before, j, after, rfl, hj, hb⟩)
      · exact ⟨[], i, is, rfl, hi, by simp⟩
      · exact ⟨i :: before, j, after, rfl, hj, List.forall_mem_cons.mpr ⟨⟨a, ha⟩, hb⟩⟩
    · rintro ⟨before, j, after, he, hj, hb⟩
      cases before with
      | nil =>
        obtain ⟨rfl, rfl⟩ := List.cons.inj he
        exact .inl hj
      | cons k before =>
        obtain ⟨rfl, rfl⟩ := List.cons.inj he
        obtain ⟨⟨a, ha⟩, hb⟩ := List.forall_mem_cons.mp hb
        exact .inr ⟨a, ha, before, j, after, rfl, hj, hb⟩

theorem mapRejection_eq_orElse (f : Diagnostic → Diagnostic) (t : Trace α) :
    t.mapRejection f = t.orElse fun d => reject (f d) := by
  cases h : t.outcome <;> simp [mapRejection, orElse, h, reject, after]

end Trace

end Conform
