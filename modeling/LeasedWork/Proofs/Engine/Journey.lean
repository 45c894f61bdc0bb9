import LeasedWork.Proofs.Engine.Tokens

/-!
# Journeys of an execution

Between two moves of an execution everybody else may do anything to the site. A journey is what
comes of an execution that finds one site after the other, whatever they are, and moves on each of
them until it ends. That it does end is a matter of what is left for it to do, which every move
lessens; what it asked of the store is what its moves added to the trace.
-/
namespace LeasedWork.Engine

/-- One move of an execution, with the site that it found. -/
structure Stride where
  site : Site
  execution : Execution

/-- The moves of an execution in their order, and the result if it has come to one. -/
structure Journey where
  strides : List Stride
  result : Option ExecutionResult

/-- The journey of an execution that finds some sites, one for each move. -/
def Execution.journey (x : Execution) : List Site → Journey
  | [] => ⟨[], none⟩
  | s :: rest =>
    match (x.step s).1.state? with
    | some x' => ⟨⟨s, x⟩ :: (x'.journey rest).strides, (x'.journey rest).result⟩
    | none => ⟨[⟨s, x⟩], (x.step s).1.result?⟩

namespace Stride

/-- The site that a move leaves. -/
def after (m : Stride) : Site := (m.execution.step m.site).2

/-- What a move adds to the trace, the last entry first. -/
def entries (m : Stride) : List Trace :=
  (m.after.trace.take (m.after.trace.length - m.site.trace.length)).map (·.2)

end Stride

/-- How a handler returned: with what outcome, and whether its execution was abandoned and shutdown
was asked for by then. -/
structure Return where
  outcome : Outcome
  abandoned : Bool
  shutdown : Bool

/-- The return of the handler, if it returns in a move. -/
def Stride.return? (m : Stride) : Option Return :=
  match m.execution.phase with
  | .handling i k _ =>
    (i.step (m.execution.inSpan m.site)).1.result?.map fun outcome =>
      ⟨outcome, m.site.tokens.isAbandoned k, m.site.isCancelled m.execution.shutdown⟩
  | .fresh | .finalizing _ _ _ _ _ => none

/-- A result that was handed to the store, as the trace has it. -/
structure Handover where
  record : Job
  force : Bool
  /-- Whether the token of the call was cancelled. -/
  cancelled : Bool
  /-- Whether the store took the result. -/
  taken : Bool
  deriving DecidableEq, Inhabited, Repr

def Trace.handover? : Trace → Option Handover
  | .complete record force cancelled answer => some ⟨record, force, cancelled, answer.toBool⟩
  | _ => none

namespace Journey

/-- The returns of the handler on a journey. -/
def returns (j : Journey) : List Return := j.strides.filterMap Stride.return?

/-- The results that were handed over on a journey. -/
def handovers (j : Journey) : List Handover :=
  j.strides.flatMap fun m => m.entries.filterMap Trace.handover?

end Journey

/-- Whether the store answers when a result is handed over. -/
structure Site.Answers (s : Site) : Prop where
  unbroken : s.faults.complete.crashes = []
  dated : s.isDated = true

variable {s t u : Site} {x x' : Execution} {rest : List Site} {k : Token}

/-! ## What moves add to the trace -/

/-- Whether the trace of a site goes on from that of another one, and nothing was handed over. -/
def Site.Quiet (s t : Site) : Prop :=
  ∃ added : List (Nat × Trace), t.trace = added ++ s.trace ∧ ∀ e ∈ added, e.2.handover? = none

namespace Site

theorem Quiet.of_eq (h : t.trace = s.trace) : s.Quiet t := ⟨[], h, by simp⟩

theorem Quiet.trans (h : s.Quiet t) (h' : t.Quiet u) : s.Quiet u := by
  obtain ⟨first, hfirst, hnone⟩ := h
  obtain ⟨second, hsecond, hnone'⟩ := h'
  refine ⟨second ++ first, by rw [hsecond, hfirst, List.append_assoc], fun e he => ?_⟩
  rcases List.mem_append.mp he with he | he
  · exact hnone' e he
  · exact hnone e he

theorem quiet_note {entry : Trace} (h : entry.handover? = none) (s : Site) :
    s.Quiet (s.note entry) := by
  refine ⟨[(s.clock, entry)], rfl, fun e he => ?_⟩
  rw [List.mem_singleton.mp he]
  exact h

theorem trace_answered {α : Type} (s : Site) (needsDate : Bool) (counted : Store)
    (done : α × Store) : (s.answered needsDate counted done).2.trace = s.trace := by
  unfold answered
  split <;> rfl

theorem trace_askDequeue (s : Site) (request : LeaseRequest) (cancelled : Bool) :
    (s.askDequeue request cancelled).2.trace = s.trace := by
  unfold askDequeue
  dsimp only
  split <;> exact trace_answered _ _ _ _

theorem trace_askComplete (s : Site) (record : Job) (force : Bool) :
    (s.askComplete record force).2.trace = s.trace := by
  unfold askComplete
  dsimp only
  split <;> exact trace_answered _ _ _ _

theorem trace_remember (s : Site) (name : Option String) (job : Option Job) :
    (s.remember name job).trace = s.trace := by
  unfold remember
  split <;> rfl

theorem trace_enqueueMany (queue : Queue) (definition : String) (group : Option Int) (n : Nat)
    (s : Site) : (enqueueMany queue definition group n s).2.trace = s.trace := by
  induction n generalizing s with
  | zero => rfl
  | succ n ih =>
    unfold enqueueMany
    split
    · exact ih _
    · rfl

/-- Actions of handlers are not in the trace. -/
theorem trace_act (s : Site) (action : Action) : (s.act action).2.trace = s.trace := by
  cases action with
  | enqueue queue definition group count => exact trace_enqueueMany _ _ _ _ _
  | age id seconds =>
    simp only [act]
    split <;> rfl
  | notifyReady =>
    simp only [act, notifyReady]
    split <;> rfl
  | dequeue request cancelled saveAs => exact (trace_remember _ _ _).trans (trace_askDequeue _ _ _)
  | dequeueNow queue worker saveAs => exact (trace_remember _ _ _).trans (trace_askDequeue _ _ _)
  | lookup id saveAs => exact trace_remember _ _ _
  | heartbeat lease overrides =>
    simp only [act]
    split
    · rfl
    · exact trace_answered _ _ _ _
  | complete lease overrides force =>
    simp only [act]
    split
    · rfl
    · exact trace_askComplete _ _ _
  | _ => rfl

end Site

theorem Invocation.quiet_mark (s : Site) (i : Invocation) {entry : String → Int → Trace}
    (h : ∀ name id, (entry name id).handover? = none) : s.Quiet (i.mark s entry) := by
  unfold mark
  split
  · exact Site.quiet_note (h _ _) s
  · exact .of_eq rfl

theorem Invocation.quiet_start (s : Site) (handler : Handler) (job : Job) (token : Token) :
    s.Quiet (start s handler job token).2 := by
  unfold start
  split
  · exact .of_eq rfl
  · exact quiet_mark (s.countInvocation _) _ (fun _ _ => rfl)

theorem Invocation.quiet_step (s : Site) (i : Invocation) : s.Quiet (i.step s).2 := by
  unfold step
  split
  · split
    · exact i.quiet_mark s (fun _ _ => rfl)
    · exact .of_eq rfl
  · split
    · exact i.quiet_mark s (fun _ _ => rfl)
    · exact .of_eq rfl
    · exact .of_eq rfl
    · exact .of_eq rfl
    · rename_i action rest _
      have htrace := s.trace_act action
      split
      · rename_i hact
        rw [hact] at htrace
        exact .of_eq htrace
      · rename_i hact
        rw [hact] at htrace
        exact .of_eq htrace

theorem Execution.quiet_begin (s : Site) (x : Execution) : s.Quiet (begin s x).2 := by
  unfold begin
  cases s.registry.handler? x.job with
  | none => exact .of_eq rfl
  | some handler =>
    refine Site.Quiet.trans (.of_eq ?_) (Invocation.quiet_start _ _ _ _)
    cases x.job.cancelRequested <;> rfl

theorem Execution.quiet_decide (s : Site) (x : Execution) (token : Token) (outcome : Outcome) :
    s.Quiet (decide s x token outcome).2 := by
  unfold decide
  split
  · exact .of_eq rfl
  · refine .of_eq ?_
    dsimp only
    split <;> rfl

theorem Execution.quiet_of_fresh (s : Site) (hphase : x.phase = .fresh) : s.Quiet (x.step s).2 := by
  unfold step Site.within
  simp only [hphase]
  exact quiet_begin (x.inSpan s) x

theorem Execution.quiet_of_handling {i : Invocation} {beats : TaskId} (s : Site)
    (hphase : x.phase = .handling i k beats) : s.Quiet (x.step s).2 := by
  have hstep : s.Quiet (i.step (x.inSpan s)).2 := i.quiet_step (x.inSpan s)
  unfold inSpan at hstep
  unfold step Site.within
  simp only [hphase]
  cases (i.step { s with span := some (span x.job) }).1 with
  | done outcome => exact hstep.trans (quiet_decide (Site.stop _ beats) x k outcome)
  | _ => exact hstep

/-- A call of the store goes on from its start, at once or at a time. -/
theorem Site.call_start_cases {ρ : Type} (s : Site) (call : Call)
    (perform : Site → Option ρ × Site) : ∃ t, s.Quiet t ∧
      let stage := CallStage.underway
        ((s.faults.of call).crashes.contains ((s.faults.of call).made + 1))
      (s.call call .start perform = (.more stage, t) ∨
        ∃ deadline, s.call call .start perform = (.wait (.time deadline) stage, t)) := by
  refine ⟨(s.beginCall call).2.2, .of_eq rfl, ?_⟩
  by_cases h : (s.beginCall call).1 = 0
  · left
    simp only [Site.call, h, if_true]
    rfl
  · right
    refine ⟨(s.beginCall call).2.2.afterSleep (.ofMillis (s.beginCall call).1), ?_⟩
    simp only [Site.call, h, if_false]
    rfl

/-- An execution whose result is to be handed over calls the store, and waits for a time at most. -/
theorem Execution.step_of_start {d : Disposition} {o : Outcome} {record : Job} (s : Site)
    (hphase : x.phase = .finalizing k d o record .start) : s.Quiet (x.step s).2 ∧
      (s.Answers → (x.step s).1.state? =
        some { x with phase := .finalizing k d o record (.underway false) }) ∧
      ∀ w x', (x.step s).1 = .wait w x' → ∃ deadline, w = .time deadline := by
  obtain ⟨t, hquiet, hcall⟩ := (x.inSpan s).call_start_cases .complete fun t =>
    Site.noted (.complete record d.force (Option.any t.isCancelled none))
      (t.askComplete record d.force)
  have hspan : s.Quiet { t with span := s.span } := hquiet
  have hunbroken : s.Answers → ((x.inSpan s).faults.of .complete).crashes.contains
      (((x.inSpan s).faults.of .complete).made + 1) = false := by
    intro hs
    have hcrashes : ((x.inSpan s).faults.of .complete).crashes = [] := hs.unbroken
    rw [hcrashes]
    rfl
  unfold inSpan at hcall hunbroken
  unfold step Site.within
  simp only [hphase, Site.callComplete]
  rcases hcall with hcall | ⟨deadline, hcall⟩
  · rw [hcall]
    refine ⟨hspan, fun hs => ?_, fun w x' hwait => by simp at hwait⟩
    rw [hunbroken hs]
    rfl
  · rw [hcall]
    refine ⟨hspan, fun hs => ?_, fun w x' hwait => ⟨deadline, ?_⟩⟩
    · rw [hunbroken hs]
      rfl
    · simp only [Progress.wait.injEq] at hwait
      exact hwait.1.symm

theorem Execution.trace_conclude (s : Site) (x : Execution) (d : Disposition) (o : Outcome)
    (record : Job) (answer : Except Refusal Settlement) :
    (x.conclude s d o record answer).2.trace = s.trace := by
  cases answer with
  | error refusal => rfl
  | ok settlement =>
    simp only [conclude]
    split <;> rfl

/-- A result that is handed over gets its answer, and that is in the trace. -/
theorem Site.Answers.noted (hs : s.Answers) (record : Job) (force : Bool) (token : Option Token) :
    let answer := (s.store.complete record force s.now).1
    ((s.callComplete (.underway false) record force token).1 = .done answer) ∧
      ∃ time, (s.callComplete (.underway false) record force token).2.trace =
        (time, .complete record force (token.any s.isCancelled) answer) :: s.trace := by
  have hasked : (s.askComplete record force).1 = some (s.store.complete record force s.now).1 := by
    rcases s.askComplete_cases record force with ⟨hundated, -⟩ | ⟨hasked, -⟩
    · exact absurd (hs.dated.symm.trans hundated) (by simp)
    · exact hasked
  have htrace := s.trace_askComplete record force
  simp only [Site.callComplete, Site.call, Site.noted, hasked]
  exact ⟨rfl, (s.askComplete record force).2.clock, congrArg _ htrace⟩

/-- An execution whose result is handed over ends with the answer of the store. -/
theorem Execution.step_of_underway {d : Disposition} {o : Outcome} {record : Job} (hs : s.Answers)
    (hphase : x.phase = .finalizing k d o record (.underway false)) :
    let answer := (s.store.complete record d.force s.now).1
    (x.step s).1 = .done (.finalized d answer.toBool) ∧
      ∃ time, (x.step s).2.trace = (time, .complete record d.force false answer) :: s.trace := by
  have hspan : (x.inSpan s).Answers := ⟨hs.unbroken, hs.dated⟩
  obtain ⟨hdone, time, htrace⟩ := hspan.noted record d.force none
  refine ⟨by rw [step_of_finalizing s hphase, hdone]; rfl, time, ?_⟩
  unfold inSpan at hdone htrace
  unfold step Site.within
  simp only [hphase, hdone]
  exact (trace_conclude _ x d o record _).trans htrace

/-! ## Journeys, move by move -/

theorem Stride.entries_of_trace {m : Stride} {added : List (Nat × Trace)}
    (h : m.after.trace = added ++ m.site.trace) : m.entries = added.map (·.2) := by
  rw [entries, h, List.length_append, Nat.add_sub_cancel, List.take_left]

theorem Stride.handovers_of_quiet {m : Stride} (h : m.site.Quiet m.after) :
    m.entries.filterMap Trace.handover? = [] := by
  obtain ⟨added, htrace, hnone⟩ := h
  rw [entries_of_trace htrace, List.filterMap_map, List.filterMap_eq_nil_iff]
  exact hnone

theorem Execution.journey_of_state? (rest : List Site) (h : (x.step s).1.state? = some x') :
    x.journey (s :: rest) = ⟨⟨s, x⟩ :: (x'.journey rest).strides, (x'.journey rest).result⟩ := by
  simp only [journey, h]

theorem Execution.journey_of_done {result : ExecutionResult} (rest : List Site)
    (h : (x.step s).1 = .done result) : x.journey (s :: rest) = ⟨[⟨s, x⟩], some result⟩ := by
  simp only [journey, h, Progress.state?, Progress.result?]

theorem Journey.handovers_cons (m : Stride) (j : Journey) (result : Option ExecutionResult) :
    (Journey.mk (m :: j.strides) result).handovers =
      m.entries.filterMap Trace.handover? ++ j.handovers :=
  List.flatMap_cons

theorem Journey.returns_cons (m : Stride) (j : Journey) (result : Option ExecutionResult) :
    (Journey.mk (m :: j.strides) result).returns = m.return?.toList ++ j.returns := by
  simp only [returns, List.filterMap_cons]
  cases m.return? <;> rfl

/-- A move in which nothing is handed over and no handler returns leaves that to the rest. -/
theorem Execution.journey_quiet (rest : List Site) (h : (x.step s).1.state? = some x')
    (hquiet : s.Quiet (x.step s).2) (hreturn : Stride.return? ⟨s, x⟩ = none) :
    (x.journey (s :: rest)).result = (x'.journey rest).result ∧
      (x.journey (s :: rest)).handovers = (x'.journey rest).handovers ∧
      (x.journey (s :: rest)).returns = (x'.journey rest).returns := by
  have hhanded : (Stride.mk s x).entries.filterMap Trace.handover? = [] :=
    Stride.handovers_of_quiet hquiet
  rw [journey_of_state? rest h, Journey.handovers_cons, Journey.returns_cons, hhanded, hreturn]
  exact ⟨rfl, rfl, rfl⟩

/-! ## What is left to do -/

/-- How many moves an invocation can still make before its outcome, at most. -/
def Invocation.ahead (i : Invocation) : Nat :=
  2 * i.steps.length +
    match i.phase with
    | .ready => 0
    | .cancellableSleep => 1

/-- How many moves an execution that has begun can still make, at most. -/
def Execution.ahead (x : Execution) : Nat :=
  match x.phase with
  | .fresh => 0
  | .handling i _ _ => i.ahead + 3
  | .finalizing _ _ _ _ .start => 2
  | .finalizing _ _ _ _ (.underway _) => 1

/-- An invocation that goes on has less to do than before. -/
theorem Invocation.ahead_lt {i i' : Invocation} (h : (i.step s).1.state? = some i') :
    i'.ahead < i.ahead := by
  unfold step at h
  unfold ahead
  split at h
  · rename_i hphase
    split at h
    · simp [Progress.state?] at h
    · obtain rfl := Option.some.inj h
      simp only [hphase]
      omega
  · rename_i hphase
    split at h
    · simp [Progress.state?] at h
    · rename_i hsteps
      obtain rfl := Option.some.inj h
      simp only [hphase, hsteps, List.length_cons]
      omega
    · rename_i hsteps
      obtain rfl := Option.some.inj h
      simp only [hphase, hsteps, List.length_cons]
      omega
    · rename_i hsteps
      obtain rfl := Option.some.inj h
      simp only [hphase, hsteps, List.length_cons]
      omega
    · rename_i hsteps
      split at h
      · simp [Progress.state?] at h
      · obtain rfl := Option.some.inj h
        simp only [hphase, hsteps, List.length_cons]
        omega

/-- An invocation goes on or comes to an outcome; a panic is one. -/
theorem Invocation.step_cases (s : Site) (i : Invocation) :
    (∃ i', (i.step s).1.state? = some i') ∨ ∃ o, (i.step s).1 = .done o := by
  unfold step
  split
  · split
    · exact .inr ⟨_, rfl⟩
    · exact .inl ⟨_, rfl⟩
  · split
    · exact .inr ⟨_, rfl⟩
    · exact .inl ⟨_, rfl⟩
    · exact .inl ⟨_, rfl⟩
    · exact .inl ⟨_, rfl⟩
    · split
      · exact .inr ⟨_, rfl⟩
      · exact .inl ⟨_, rfl⟩

end LeasedWork.Engine
