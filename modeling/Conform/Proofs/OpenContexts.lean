import Conform.Session

namespace Conform.Session

def next (s : Session) (step : Step) : Session :=
  match s.step step with
  | .ok (s', _) => s'
  | .error _ => s

def after (s : Session) (steps : List Step) : Session := steps.foldl next s

theorem run_cons (s : Session) (step : Step) (steps : List Step) :
    s.run (step :: steps) = (s.step step).map Prod.snd :: (s.next step).run steps := by
  rw [run, next]
  cases s.step step <;> rfl

theorem run_append (s : Session) (steps rest : List Step) :
    s.run (steps ++ rest) = s.run steps ++ (s.after steps).run rest := by
  induction steps generalizing s with
  | nil => rfl
  | cons step steps ih =>
    rw [List.cons_append, run_cons, run_cons, ih, List.cons_append]
    rfl

def opened (stack : List Display.Options) : Step → List Display.Options
  | .enter root limit =>
    if limit.getD 50 < 0 then stack else ⟨root.getD "data", (limit.getD 50).toNat⟩ :: stack
  | .leave _ => stack.tail
  | _ => stack

def openAfter (steps : List Step) : List Display.Options := steps.foldl opened []

def innermost (stack : List Display.Options) : Display.Options := stack.headD ⟨"data", 50⟩

/-- The options in force and those to go back to are the ones of the open contexts, and below them
the defaults. -/
def Nests (c : Display.Contexts) (stack : List Display.Options) : Prop :=
  c.current :: c.saved = stack ++ [⟨"data", 50⟩]

namespace Nests

variable {c : Display.Contexts} {stack : List Display.Options}

theorem current (h : Nests c stack) : c.current = innermost stack := by
  cases stack with
  | nil => exact (List.cons.inj h).1
  | cons o outer => exact (List.cons.inj h).1

theorem depth (h : Nests c stack) : c.depth = stack.length := by
  have hl := congrArg List.length h
  simpa [Display.Contexts.depth] using hl

theorem saved_nil (h : Nests c []) : c.saved = [] := (List.cons.inj h).2

theorem enter (h : Nests c stack) (root : Option String) {limit : Option Int}
    (hl : ¬ limit.getD 50 < 0) : ∃ c', c.enter root limit = .ok c' ∧
      Nests c' (⟨root.getD "data", (limit.getD 50).toNat⟩ :: stack) := by
  refine ⟨_, if_neg hl, ?_⟩
  rw [Nests, h]
  rfl

theorem leave {ε : Type} {o : Display.Options} (h : Nests c (o :: stack)) :
    ∃ c', Nests c' stack ∧ ∀ error : Option ε, c.leave? error = some (c', error) := by
  have hs : c.saved = stack ++ [⟨"data", 50⟩] := (List.cons.inj h).2
  obtain ⟨p, outer, hp⟩ := List.exists_cons_of_ne_nil (List.append_ne_nil_of_right_ne_nil stack
    (List.cons_ne_nil ⟨"data", 50⟩ []))
  refine ⟨⟨p, outer⟩, hp.symm, fun error => ?_⟩
  rw [Display.Contexts.leave?, hs, hp]

end Nests

variable {s : Session} {stack : List Display.Options}

def Keeps (s : Session) (r : Except Error (Session × Answer)) : Prop :=
  ∀ s' a, r = .ok (s', a) → s'.contexts = s.contexts

namespace Keeps

theorem pure {s' : Session} (h : s'.contexts = s.contexts) (a : Answer) :
    Keeps s (Pure.pure (s', a)) := by
  rintro _ _ ⟨⟩
  exact h

theorem bind {α : Type} {x : Except Error α} {f : α → Except Error (Session × Answer)}
    (h : ∀ a, Keeps s (f a)) : Keeps s (x >>= f) := by
  cases x with
  | error e => rintro _ _ ⟨⟩
  | ok a => exact h a

theorem error (e : Error) : Keeps s (.error e) := by rintro _ _ ⟨⟩

theorem next {step : Step} (h : Keeps s (s.step step)) : (s.next step).contexts = s.contexts := by
  unfold Session.next
  cases hs : s.step step with
  | error e => rfl
  | ok r => exact h r.1 r.2 hs

theorem of_other {step : Step} (he : ∀ root limit, step ≠ .enter root limit)
    (hl : ∀ error, step ≠ .leave error) : Keeps s (s.step step) := by
  cases step with
  | enter root limit => exact absurd rfl (he root limit)
  | leave error => exact absurd rfl (hl error)
  | empty _ | simple _ _ | options => exact pure rfl _
  | new _ _ _ | label _ _ | tree _ | received _ | define _ _ | validate _ _ =>
    exact bind fun _ => pure rfl _
  | combine _ _ | compare _ _ | under _ _ | display _ _ | rejection _ =>
    exact bind fun _ => bind fun _ => pure rfl _
  | equal a b =>
    refine bind fun d => bind fun e => ?_
    split
    · exact error _
    · exact pure rfl _
  | check e v =>
    refine bind fun schema => pure ?_ _
    split <;> rfl

end Keeps

theorem step_enter_negative (s : Session) (root : Option String) (limit : Option Int)
    (hl : limit.getD 50 < 0) :
    s.step (.enter root limit) = .error (.negativeLimit ⟨limit.getD 50⟩) := by
  have hc : s.contexts.enter root limit = .error ⟨limit.getD 50⟩ := if_pos hl
  rw [step, hc]

theorem Nests.step_leave {o : Display.Options} {outer : List Display.Options}
    (h : Nests s.contexts (o :: outer)) :
    ∃ c, Nests c outer ∧ ∀ error, s.step (.leave error) =
      .ok ({ s with contexts := c }, .left error c.current c.depth) := by
  obtain ⟨c, hc, hleave⟩ := h.leave (ε := Fault)
  refine ⟨c, hc, fun error => ?_⟩
  rw [step, Session.leave, hleave]
  rfl

theorem Nests.next (h : Nests s.contexts stack) (step : Step) :
    Nests (s.next step).contexts (opened stack step) := by
  cases step with
  | enter root limit =>
    by_cases hl : limit.getD 50 < 0
    · rw [Session.next, step_enter_negative s root limit hl, opened, if_pos hl]
      exact h
    · obtain ⟨c, hc, hn⟩ := h.enter root hl
      rw [Session.next, step, hc, opened, if_neg hl]
      exact hn
  | leave error =>
    cases stack with
    | nil =>
      have hc : s.contexts.leave? error = none := by rw [Display.Contexts.leave?, h.saved_nil]
      rw [Session.next, step, Session.leave, hc]
      exact h
    | cons o outer =>
      obtain ⟨c, hc, hleave⟩ := h.step_leave
      rw [Session.next, hleave]
      exact hc
  | _ =>
    rw [Keeps.next (Keeps.of_other ?_ ?_)]
    · exact h
    · nofun
    · nofun

theorem Nests.after (h : Nests s.contexts stack) (steps : List Step) :
    Nests (s.after steps).contexts (steps.foldl opened stack) := by
  induction steps generalizing s stack with
  | nil => exact h
  | cons step steps ih => exact ih (h.next step)

theorem nests_start : Nests start.contexts [] := rfl

theorem contexts_nest (steps : List Step) :
    start.run (steps ++ [.options]) = start.run steps ++
        [.ok (.options (innermost (openAfter steps)) (openAfter steps).length)] ∧
      (∀ root limit rest, limit < 0 → ∃ answers,
        start.run (steps ++ rest) = start.run steps ++ answers ∧
          start.run (steps ++ .enter root (some limit) :: rest) =
            start.run steps ++ .error (.negativeLimit ⟨limit⟩) :: answers) ∧
      ∀ o outer rest, openAfter steps = o :: outer → ∃ answers, ∀ error,
        start.run (steps ++ .leave error :: rest) =
          start.run steps ++ .ok (.left error (innermost outer) outer.length) :: answers := by
  have h : Nests (start.after steps).contexts (openAfter steps) := nests_start.after steps
  simp only [run_append, run_cons]
  refine ⟨?_, fun root limit rest hl => ⟨_, rfl, ?_⟩, fun o outer rest ho => ?_⟩
  · rw [← h.current, ← h.depth]
    rfl
  · have hs := step_enter_negative (start.after steps) root (some limit) hl
    rw [next, hs]
    rfl
  · rw [ho] at h
    obtain ⟨c, hc, hleave⟩ := h.step_leave
    refine ⟨{ start.after steps with contexts := c }.run rest, fun error => ?_⟩
    rw [next, hleave, hc.current, hc.depth]
    rfl

theorem contexts_nest_inner_error :
    let steps : List Step :=
      [.enter (some "payload") none, .enter none (some 7), .enter none (some (-1)), .leave none]
    let outer : List Display.Options := []
    openAfter steps = ⟨"payload", 50⟩ :: outer ∧
      start.run (steps ++ [.options]) =
        start.run steps ++ [.ok (.options ⟨"payload", 50⟩ 1)] ∧
      (-1 : Int) < 0 ∧
      (∃ answers, start.run (steps ++ [.leave none, .options]) = start.run steps ++ answers ∧
        start.run (steps ++ [.enter (some "other") (some (-1)), .leave none, .options]) =
          start.run steps ++ .error (.negativeLimit ⟨-1⟩) :: answers) ∧
      ∃ answers, ∀ error, start.run (steps ++ [.leave error, .options]) =
        start.run steps ++ .ok (.left error ⟨"data", 50⟩ 0) :: answers := by
  intro steps outer
  have ho : openAfter steps = ⟨"payload", 50⟩ :: outer := rfl
  obtain ⟨hoptions, hrefused, hleft⟩ := contexts_nest steps
  exact ⟨ho, hoptions, by decide, hrefused _ _ _ (by decide), hleft _ _ _ ho⟩

end Conform.Session
