import LeasedWork.Proofs.Engine.Tokens

/-!
# Where a loop breaks down

A handler cannot break its loop down, since its errors and its panics are outcomes like any other.
What can are the calls of the store that the loop makes itself, and the call that hands a result
over is one of them: nothing is put between it and the loop. Apart from that a loop ends only once
its pool is cancelled.
-/
namespace LeasedWork.Engine

variable {s : Site} {x : Execution} {l : PollLoop}

/-- Whether a call breaks down in its next move: because it is among those that do, or because
there is no answer to it. -/
def CallStage.BreaksDown {α : Type} (stage : CallStage) (answer : Option α) : Prop :=
  stage = .underway true ∨ stage = .underway false ∧ answer = none

theorem Site.call_eq_crash_iff {ρ : Type} (s : Site) (call : Call) (stage : CallStage)
    (perform : Site → Option ρ × Site) :
    (s.call call stage perform).1 = .crash ↔ stage.BreaksDown (perform s).1 := by
  cases stage with
  | start =>
    unfold Site.call
    dsimp only
    split <;> simp [CallStage.BreaksDown]
  | underway crashes =>
    cases crashes with
    | true => simp [Site.call, CallStage.BreaksDown]
    | false => cases h : (perform s).1 <;> simp [Site.call, CallStage.BreaksDown, h]

theorem Site.callDequeue_eq_crash_iff (s : Site) (stage : CallStage) (request : LeaseRequest)
    (k : Token) : (s.callDequeue stage request k).1 = .crash ↔
      stage.BreaksDown (s.askDequeue request (s.isCancelled k)).1 :=
  s.call_eq_crash_iff .dequeue stage _

theorem Site.callComplete_eq_crash_iff (s : Site) (stage : CallStage) (record : Job)
    (force : Bool) : (s.callComplete stage record force none).1 = .crash ↔
      stage.BreaksDown (s.askComplete record force).1 :=
  s.call_eq_crash_iff .complete stage _

theorem Invocation.step_ne_crash (s : Site) (i : Invocation) : (i.step s).1 ≠ .crash := by
  unfold step
  split
  · split <;> simp
  · split
    · simp
    · simp
    · simp
    · simp
    · split <;> simp

/-- Whether an execution breaks down in its next move. -/
def Execution.BreaksDown (s : Site) (x : Execution) : Prop :=
  match x.phase with
  | .finalizing _ d _ record stage => stage.BreaksDown (s.askComplete record d.force).1
  | .fresh | .handling _ _ _ => False

theorem Execution.begin_ne_crash (s : Site) (x : Execution) : (begin s x).1 ≠ .crash := by
  unfold begin
  split <;> simp

theorem Execution.decide_ne_crash (s : Site) (x : Execution) (k : Token) (o : Outcome) :
    (decide s x k o).1 ≠ .crash := by
  unfold decide
  split <;> simp

theorem Site.answered_fst {α : Type} (s : Site) (needsDate : Bool) (counted : Store)
    (done : α × Store) : (s.answered needsDate counted done).1 =
      if needsDate && !s.isDated then none else some done.1 := by
  unfold answered
  split <;> rfl

/-- A result is answered for unless the store would take it and there is no date to take it at. -/
theorem Site.askComplete_fst (s : Site) (record : Job) (force : Bool) :
    (s.askComplete record force).1 =
      if ((s.store.complete record force s.now).1 matches .ok _) && !s.isDated then none
      else some (s.store.complete record force s.now).1 := by
  have hanswered : (s.askComplete record force).1 = (s.answered
      ((s.store.complete record force s.now).1 matches .ok _) (s.store.noteComplete record force)
      (s.store.complete record force s.now)).1 := by
    unfold askComplete
    dsimp only
    split <;> rfl
  rw [hanswered, answered_fst]

/-- An execution breaks down just if the call breaks down that hands its result over. -/
theorem Execution.step_eq_crash_iff (s : Site) (x : Execution) :
    (x.step s).1 = .crash ↔ x.BreaksDown s := by
  unfold BreaksDown
  cases hphase : x.phase with
  | fresh =>
    rw [step_of_fresh s hphase]
    exact iff_of_false (begin_ne_crash _ x) id
  | handling i k beats =>
    rw [step_of_handling s hphase]
    have hi := i.step_ne_crash (x.inSpan s)
    cases hp : (i.step (x.inSpan s)).1 with
    | crash => exact absurd hp hi
    | done o => exact iff_of_false (decide_ne_crash _ x k o) id
    | _ => simp
  | finalizing k d o record stage =>
    rw [step_of_finalizing s hphase]
    dsimp only
    have hask : ((x.inSpan s).askComplete record d.force).1 = (s.askComplete record d.force).1 := by
      rw [Site.askComplete_fst, Site.askComplete_fst]
      rfl
    rw [← hask, ← Site.callComplete_eq_crash_iff (x.inSpan s) stage record d.force]
    cases ((x.inSpan s).callComplete stage record d.force none).1 <;> simp

/-- Whether a loop breaks down in its next move. -/
def PollLoop.BreaksDown (s : Site) (l : PollLoop) : Prop :=
  match l.phase with
  | .scanning stage => stage.BreaksDown (s.askDequeue (l.request s true) (s.isCancelled l.pool)).1
  | .fetching stage => stage.BreaksDown (s.askDequeue (l.request s false) (s.isCancelled l.pool)).1
  | .executing x => x.BreaksDown s
  | .gate | .gateSleep | .delay | .top | .idle => False

/-- A loop that executes a job follows the execution, and is at the top again when it is done. -/
theorem PollLoop.step_of_executing (s : Site) (hphase : l.phase = .executing x) :
    (l.step s).1 = (x.step s).1.within (fun x => { l with phase := .executing x })
      fun _ => .more { l with phase := .top } := by
  simp only [step, hphase]

theorem PollLoop.state?_of_executing {x' : Execution} (hphase : l.phase = .executing x)
    (h : (x.step s).1.state? = some x') :
    (l.step s).1.state? = some { l with phase := .executing x' } := by
  rw [step_of_executing s hphase]
  cases hp : (x.step s).1 with
  | more | wait =>
    rw [hp] at h
    obtain rfl := Option.some.inj h
    rfl
  | _ =>
    rw [hp] at h
    exact absurd h (by simp [Progress.state?])

theorem PollLoop.state?_of_concluded {result : ExecutionResult} (hphase : l.phase = .executing x)
    (h : (x.step s).1 = .done result) : (l.step s).1.state? = some { l with phase := .top } := by
  rw [step_of_executing s hphase, h]
  rfl

theorem PollLoop.state?_afterScan (s : Site) (l : PollLoop)
    (answer : Except Refusal (Option Job)) :
    ∃ l', (afterScan s l answer).1.state? = some l' ∧ l'.pool = l.pool := by
  rcases answer with refusal | (_ | job) <;> exact ⟨_, rfl, rfl⟩

theorem PollLoop.state?_afterFetch (s : Site) (l : PollLoop)
    (answer : Except Refusal (Option Job)) :
    ∃ l', (afterFetch s l answer).1.state? = some l' ∧ l'.pool = l.pool := by
  rcases answer with refusal | (_ | job) <;> exact ⟨_, rfl, rfl⟩

/-- A loop that begins an iteration looks for a job, unless the store is not initialized. -/
theorem PollLoop.iterate_cases (s : Site) (l : PollLoop) :
    ∃ l', (iterate s l).1.state? = some l' ∧ l'.pool = l.pool ∧ (l'.phase = .scanning .start ∨
      l'.phase = .fetching .start ∨ s.store.initialized = false ∧ l'.phase = .idle) := by
  unfold iterate
  by_cases halive : s.timing.alivePeriod.nanos < s.nanos - l.lastAlive
  · simp only [if_pos halive]
    split
    · rename_i hinit
      exact ⟨_, rfl, rfl, .inr (.inr ⟨by simpa [Site.writeLog] using hinit, rfl⟩)⟩
    · split
      · exact ⟨_, rfl, rfl, .inl rfl⟩
      · exact ⟨_, rfl, rfl, .inr (.inl rfl)⟩
  · simp only [if_neg halive]
    split
    · rename_i hinit
      exact ⟨_, rfl, rfl, .inr (.inr ⟨by simpa using hinit, rfl⟩)⟩
    · split
      · exact ⟨_, rfl, rfl, .inl rfl⟩
      · exact ⟨_, rfl, rfl, .inr (.inl rfl)⟩

/-- A loop breaks down just if a call of the store does that it makes, or its execution. -/
theorem PollLoop.step_eq_crash_iff (s : Site) (l : PollLoop) :
    (l.step s).1 = .crash ↔ l.BreaksDown s := by
  have hgoes : ∀ {p : Progress PollLoop Unit} {l' : PollLoop}, p.state? = some l' → p ≠ .crash := by
    rintro p l' h rfl
    exact absurd h (by simp [Progress.state?])
  unfold BreaksDown
  cases hphase : l.phase with
  | scanning stage =>
    simp only [step, hphase, ← s.callDequeue_eq_crash_iff]
    cases (s.callDequeue stage (l.request s true) l.pool).1 with
    | done answer =>
      obtain ⟨l', hl', -⟩ :=
        state?_afterScan (s.callDequeue stage (l.request s true) l.pool).2 l answer
      exact iff_of_false (hgoes hl') (by simp)
    | _ => simp
  | fetching stage =>
    simp only [step, hphase, ← s.callDequeue_eq_crash_iff]
    cases (s.callDequeue stage (l.request s false) l.pool).1 with
    | done answer =>
      obtain ⟨l', hl', -⟩ :=
        state?_afterFetch (s.callDequeue stage (l.request s false) l.pool).2 l answer
      exact iff_of_false (hgoes hl') (by simp)
    | _ => simp
  | executing x =>
    simp only [← x.step_eq_crash_iff, step_of_executing s hphase]
    cases (x.step s).1 <;> simp [Progress.within]
  | top =>
    refine iff_of_false ?_ id
    simp only [step, hphase]
    split
    · simp
    · obtain ⟨l', hl', -⟩ := iterate_cases s l
      exact hgoes hl'
  | gate =>
    refine iff_of_false ?_ id
    simp only [step, hphase, passGate, leaveGate]
    split
    · simp
    · split <;> simp
  | _ =>
    refine iff_of_false ?_ id
    simp only [step, hphase, leaveGate]
    split <;> simp

/-- What one move makes of a loop: it breaks down, or it was cancelled, or it goes on. -/
inductive PollLoop.Steps (s : Site) (l : PollLoop) : Progress PollLoop Unit → Prop
  | breaksDown (h : l.BreaksDown s) : Steps s l .crash
  | cancelled (h : s.isCancelled l.pool = true) (hx : ∀ x, l.phase ≠ .executing x) :
    Steps s l (.done ())
  | goes {p : Progress PollLoop Unit} {l' : PollLoop} (h : ¬ l.BreaksDown s)
      (hp : p.state? = some l') (hpool : l'.pool = l.pool) : Steps s l p

theorem PollLoop.steps (s : Site) (l : PollLoop) : l.Steps s (l.step s).1 := by
  by_cases hbreaks : l.BreaksDown s
  · rw [(l.step_eq_crash_iff s).mpr hbreaks]
    exact .breaksDown hbreaks
  have hcalm : (l.step s).1 ≠ .crash := fun h => hbreaks ((l.step_eq_crash_iff s).mp h)
  unfold step at hcalm ⊢
  cases hphase : l.phase with
  | gate =>
    dsimp only
    unfold passGate
    split
    · exact .cancelled ‹_› (by simp [hphase])
    · split <;> exact .goes hbreaks rfl rfl
  | scanning stage =>
    simp only [hphase] at hcalm ⊢
    cases hp : (s.callDequeue stage (l.request s true) l.pool).1 with
    | crash => exact absurd (by rw [hp]) hcalm
    | done answer =>
      obtain ⟨l', hl', hpool⟩ :=
        state?_afterScan (s.callDequeue stage (l.request s true) l.pool).2 l answer
      exact .goes hbreaks hl' hpool
    | _ => exact .goes hbreaks rfl rfl
  | fetching stage =>
    simp only [hphase] at hcalm ⊢
    cases hp : (s.callDequeue stage (l.request s false) l.pool).1 with
    | crash => exact absurd (by rw [hp]) hcalm
    | done answer =>
      obtain ⟨l', hl', hpool⟩ :=
        state?_afterFetch (s.callDequeue stage (l.request s false) l.pool).2 l answer
      exact .goes hbreaks hl' hpool
    | _ => exact .goes hbreaks rfl rfl
  | top =>
    dsimp only
    split
    · exact .cancelled ‹_› (by simp [hphase])
    · obtain ⟨l', hl', hpool, -⟩ := iterate_cases s l
      exact .goes hbreaks hl' hpool
  | executing x =>
    simp only [hphase] at hcalm ⊢
    cases hp : (x.step s).1 with
    | crash => exact absurd (by rw [hp]; rfl) hcalm
    | _ => exact .goes hbreaks rfl rfl
  | _ =>
    dsimp only
    split
    · exact .cancelled ‹_› (by simp [hphase])
    · exact .goes hbreaks rfl rfl

/-- A loop stays in its pool. -/
theorem PollLoop.pool_of_state? {l' : PollLoop} (h : (l.step s).1.state? = some l') :
    l'.pool = l.pool := by
  have hsteps := l.steps s
  generalize (l.step s).1 = p at h hsteps
  cases hsteps with
  | breaksDown => simp [Progress.state?] at h
  | cancelled => simp [Progress.state?] at h
  | goes _ hp hpool => exact Option.some.inj (h.symm.trans hp) ▸ hpool

/-- Whether a loop calls for a job next, unless the store is not initialized. -/
def PollLoop.LooksFurther (s : Site) (l : PollLoop) : Prop :=
  ∃ l', (l.step s).1.state? = some l' ∧ (l'.phase = .scanning .start ∨
    l'.phase = .fetching .start ∨ s.store.initialized = false ∧ l'.phase = .idle)

theorem PollLoop.looksFurther_of_top (hphase : l.phase = .top)
    (h : s.isCancelled l.pool = false) : l.LooksFurther s := by
  obtain ⟨l', hl', -, hnext⟩ := iterate_cases s l
  refine ⟨l', ?_, hnext⟩
  simp only [step, hphase, h, Bool.false_eq_true, if_false]
  exact hl'

end LeasedWork.Engine
