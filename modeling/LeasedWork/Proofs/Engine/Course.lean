import LeasedWork.Proofs.Engine.Conduct

/-!
# The course of an execution

An execution begins with its handler, follows it to an outcome, decides what becomes of the job, and
hands that to the store in one call. The two relations below say what one move can make of it; the
job, the token and, once it is made, the decision never change on the way.
-/
namespace LeasedWork.Engine

variable {s : Site}

/-! ## Invocations -/

theorem Invocation.steps_start (s : Site) (handler : Handler) (job : Job) (token : Token) :
    ∃ n, (start s handler job token).1.steps = (handler.turn n).steps := by
  cases handler with
  | noop => exact ⟨0, rfl⟩
  | scripted key name turns => exact ⟨s.invocationsOf key, rfl⟩

/-- An invocation that goes on has no more to do than before. -/
theorem Invocation.steps_of_state? {i i' : Invocation} (h : (i.step s).1.state? = some i') :
    ∀ step ∈ i'.steps, step ∈ i.steps := by
  unfold step at h
  split at h
  · split at h
    · simp [Progress.state?] at h
    · obtain rfl := Option.some.inj h
      exact fun _ hstep => hstep
  · split at h
    · simp [Progress.state?] at h
    · rename_i hsteps
      obtain rfl := Option.some.inj h
      exact fun _ hstep => hsteps ▸ List.mem_cons_of_mem _ hstep
    · rename_i hsteps
      obtain rfl := Option.some.inj h
      exact fun _ hstep => hsteps ▸ List.mem_cons_of_mem _ hstep
    · rename_i hsteps
      obtain rfl := Option.some.inj h
      exact fun _ hstep => hsteps ▸ List.mem_cons_of_mem _ hstep
    · rename_i hsteps
      split at h
      · simp [Progress.state?] at h
      · obtain rfl := Option.some.inj h
        exact fun _ hstep => hsteps ▸ List.mem_cons_of_mem _ hstep

/-- Operations of the store leave tokens alone. -/
theorem Deed.tokens_onAll {deeds : List Deed}
    (h : ∀ d ∈ deeds, d = .skip ∨ ∃ op, d = .operate op) (s : Site) :
    (onAll s deeds).tokens = s.tokens := by
  refine onAll_induction (P := fun t => t.tokens = s.tokens) (fun d hd t ht => ?_) rfl
  obtain rfl | ⟨op, rfl⟩ := h d hd
  · exact ht
  · exact ht

/-- The move in which an invocation comes to its outcome leaves tokens alone. -/
theorem Invocation.tokens_of_done {i : Invocation} {o : Outcome} (h : (i.step s).1 = .done o) :
    (i.step s).2.tokens = s.tokens := by
  rw [(i.aside_step s).tokens]
  refine Deed.tokens_onAll (fun d hd => ?_) s
  unfold deeds at hd
  split at hd
  · rename_i action rest hphase hsteps
    rcases mem_actDeeds hd with hd | ⟨rfl, -⟩ | ⟨op, hop, -⟩
    · exact .inl hd
    · simp [step, hphase, hsteps, Site.act] at h
    · exact .inr ⟨op, hop⟩
  · exact absurd hd List.not_mem_nil

/-! ## What handlers keep to -/

/-- Whether a step acts within a condition. -/
def Step.Within (p : Action → Prop) : Step → Prop
  | .act action => p action
  | .sleep _ | .sleepOrCancel _ | .waitCancel => True

/-- Whether all that a handler does is within a condition. -/
def Handler.Within (p : Action → Prop) : Handler → Prop
  | .noop => True
  | .scripted _ _ turns => ∀ turn ∈ turns, ∀ step ∈ turn.steps, step.Within p

/-- Whether all that an execution has still to do for its handler is within a condition. -/
def Execution.Within (p : Action → Prop) (x : Execution) : Prop :=
  match x.phase with
  | .handling i _ _ => ∀ step ∈ i.steps, step.Within p
  | .fresh | .finalizing _ _ _ _ _ => True

/-- An invocation of a script follows one of its turns, or does nothing. -/
theorem Handler.turn_cases (key : Nat) (name : String) (turns : List Turn) (n : Nat) :
    (scripted key name turns).turn n ∈ turns ∨ ((scripted key name turns).turn n).steps = [] := by
  simp only [turn]
  cases hn : turns[n]? with
  | some turn => exact .inl (List.mem_of_getElem? hn)
  | none =>
    rw [Option.getD_none, List.getLastD_eq_getLast?]
    cases hl : turns.getLast? with
    | none => exact .inr rfl
    | some turn => exact .inl (List.mem_of_getLast? hl)

theorem Handler.within_turn {p : Action → Prop} {handler : Handler} (h : handler.Within p)
    (n : Nat) : ∀ step ∈ (handler.turn n).steps, step.Within p := by
  cases handler with
  | noop => intro step hstep; exact absurd hstep List.not_mem_nil
  | scripted key name turns =>
    rcases turn_cases key name turns n with hturn | hnil
    · exact h _ hturn
    · intro step hstep
      exact absurd (hnil ▸ hstep) List.not_mem_nil

/-! ## One move of an execution -/

/-- What one move makes of an execution that goes on. -/
inductive Execution.Goes (s : Site) (x : Execution) : Execution → Prop
  /-- The handler is started. -/
  | begun {handler : Handler} {i : Invocation} {n since : Nat} (hphase : x.phase = .fresh)
      (hh : s.registry.handler? x.job = some handler) (hi : i.steps = (handler.turn n).steps) :
    Goes s x { x with since := since, phase := .handling i (s.newToken x.shutdown) s.nextTask }
  /-- The handler goes on. -/
  | handles {i i' : Invocation} {k : Token} {beats : TaskId} (hphase : x.phase = .handling i k beats)
      (hi : (i.step (x.inSpan s)).1.state? = some i') :
    Goes s x { x with phase := .handling i' k beats }
  /-- The handler has come to an outcome, and it is decided what becomes of the job. -/
  | decided {i : Invocation} {k : Token} {beats : TaskId} {o : Outcome} {d : Disposition}
      (hphase : x.phase = .handling i k beats) (hi : (i.step (x.inSpan s)).1 = .done o)
      (hd : Disposition.classify o (s.tokens.isAbandoned k) (s.isCancelled x.shutdown) = some d) :
    Goes s x { x with phase := .finalizing k d o (finalRecord x.job o d) .start }
  /-- The call of the store is under way. -/
  | calls {k : Token} {d : Disposition} {o : Outcome} {record : Job} {crashes : Bool}
      (hphase : x.phase = .finalizing k d o record .start) :
    Goes s x { x with phase := .finalizing k d o record (.underway crashes) }

/-- What one move makes of an execution that ends. -/
inductive Execution.Ends (s : Site) (x : Execution) : ExecutionResult → Prop
  | unsupported (hphase : x.phase = .fresh) (hh : s.registry.handler? x.job = none) :
    Ends s x .unsupported
  | interrupted {i : Invocation} {k : Token} {beats : TaskId} {o : Outcome}
      (hphase : x.phase = .handling i k beats) (hi : (i.step (x.inSpan s)).1 = .done o)
      (hd : Disposition.classify o (s.tokens.isAbandoned k) (s.isCancelled x.shutdown) = none) :
    Ends s x .interrupted
  | finalized {k : Token} {d : Disposition} {o : Outcome} {record : Job}
      {answer : Except Refusal Settlement}
      (hphase : x.phase = .finalizing k d o record (.underway false))
      (hanswer : (s.store.complete record d.force s.now).1 = answer) :
    Ends s x (.finalized d answer.toBool)

variable {x x' : Execution} {result : ExecutionResult}

theorem Execution.begin_of_no_handler (hh : s.registry.handler? x.job = none) :
    (begin (x.inSpan s) x).1 = .done .unsupported := by
  have hregistry : (x.inSpan s).registry = s.registry := rfl
  rw [begin, hregistry, hh]

/-- The handler of a job is started under a new token, and its heartbeats under a new number. -/
theorem Execution.begin_of_handler {handler : Handler}
    (hh : s.registry.handler? x.job = some handler) : ∃ since t,
      (begin (x.inSpan s) x).1 = .more { x with
        since := since
        phase := .handling (Invocation.start t handler x.job (s.newToken x.shutdown)).1
          (s.newToken x.shutdown) s.nextTask } := by
  have hregistry : (x.inSpan s).registry = s.registry := rfl
  -- an abandonment beforehand has no say in the number of the heartbeats
  have hnext (u : Site) (k : Token) :
      (if x.job.cancelRequested then (u.abandon k).2 else u).nextTask = u.nextTask := by
    split <;> rfl
  rw [begin, hregistry, hh]
  dsimp only [Site.spawn, Site.hold, Site.jitter]
  rw [hnext]
  exact ⟨_, _, rfl⟩

theorem Execution.begin_cases (s : Site) (x : Execution) (hphase : x.phase = .fresh) :
    (∀ x', (begin (x.inSpan s) x).1.state? = some x' → x.Goes s x') ∧
      ∀ result, (begin (x.inSpan s) x).1 = .done result → x.Ends s result := by
  cases hh : s.registry.handler? x.job with
  | none =>
    rw [begin_of_no_handler hh]
    refine ⟨fun x' h => by simp [Progress.state?] at h, fun result h => ?_⟩
    obtain rfl := Progress.done.inj h
    exact .unsupported hphase hh
  | some handler =>
    obtain ⟨since, t, hbegin⟩ := begin_of_handler hh
    rw [hbegin]
    refine ⟨fun x' h => ?_, fun result h => by simp at h⟩
    obtain rfl := Option.some.inj h
    exact .begun hphase hh (Invocation.steps_start _ _ _ _).choose_spec

theorem Execution.decide_cases {t : Site} {i : Invocation} {k : Token} {beats : TaskId} {o : Outcome}
    (hphase : x.phase = .handling i k beats) (hi : (i.step (x.inSpan s)).1 = .done o)
    (ht : t.tokens = s.tokens) :
    (∀ x', (decide t x k o).1.state? = some x' → x.Goes s x') ∧
      ∀ result, (decide t x k o).1 = .done result → x.Ends s result := by
  have hshut : t.isCancelled x.shutdown = s.isCancelled x.shutdown := by
    simp only [Site.isCancelled, ht]
  unfold decide
  rw [ht, hshut]
  cases hd : Disposition.classify o (s.tokens.isAbandoned k) (s.isCancelled x.shutdown) with
  | none =>
    refine ⟨fun x' h => by simp [Progress.state?] at h, fun result h => ?_⟩
    simp only [Progress.done.injEq] at h
    subst h
    exact .interrupted hphase hi hd
  | some d =>
    refine ⟨fun x' h => ?_, fun result h => by simp at h⟩
    simp only [Progress.state?, Option.some.injEq] at h
    subst h
    exact .decided hphase hi hd

theorem Execution.step_of_fresh (s : Site) (hphase : x.phase = .fresh) :
    (x.step s).1 = (begin (x.inSpan s) x).1 := by
  unfold step Site.within inSpan
  simp only [hphase]

theorem Execution.step_of_handling {i : Invocation} {k : Token} {beats : TaskId} (s : Site)
    (hphase : x.phase = .handling i k beats) :
    (x.step s).1 = match (i.step (x.inSpan s)).1 with
      | .more i => .more { x with phase := .handling i k beats }
      | .wait w i => .wait w { x with phase := .handling i k beats }
      | .crash => .crash
      | .done o => (decide ((i.step (x.inSpan s)).2.stop beats) x k o).1 := by
  unfold step Site.within inSpan
  simp only [hphase]
  cases (i.step { s with span := some (span x.job) }).1 <;> rfl

theorem Execution.step_of_finalizing {k : Token} {d : Disposition} {o : Outcome} {record : Job}
    {stage : CallStage} (s : Site) (hphase : x.phase = .finalizing k d o record stage) :
    (x.step s).1 = match ((x.inSpan s).callComplete stage record d.force none).1 with
      | .more stage => .more { x with phase := .finalizing k d o record stage }
      | .wait w stage => .wait w { x with phase := .finalizing k d o record stage }
      | .crash => .crash
      | .done answer => .done (.finalized d answer.toBool) := by
  unfold step Site.within inSpan
  simp only [hphase]
  cases (Site.callComplete { s with span := some (span x.job) } stage record d.force none).1 with
  | done answer => cases answer <;> rfl
  | _ => rfl

/-- Once it is begun, a call of the store is under way. -/
theorem Site.stage_of_state? {ρ : Type} {call : Call} {stage stage' : CallStage}
    {perform : Site → Option ρ × Site} (h : (s.call call stage perform).1.state? = some stage') :
    stage = .start ∧ ∃ crashes, stage' = .underway crashes := by
  cases stage with
  | start =>
    refine ⟨rfl, (s.beginCall call).2.1, ?_⟩
    unfold Site.call at h
    dsimp only at h
    split at h <;> exact (Option.some.inj h).symm
  | underway crashes =>
    cases crashes with
    | true => simp [Site.call, Progress.state?] at h
    | false =>
      simp only [Site.call] at h
      cases hp : (perform s).1 <;> simp [hp, Progress.state?] at h

theorem Execution.goes_of_state? (h : (x.step s).1.state? = some x') : x.Goes s x' := by
  cases hphase : x.phase with
  | fresh =>
    rw [step_of_fresh s hphase] at h
    exact (begin_cases s x hphase).1 x' h
  | handling i k beats =>
    rw [step_of_handling s hphase] at h
    split at h
    · rename_i i' hi
      obtain rfl := Option.some.inj h
      exact .handles hphase (by rw [hi]; rfl)
    · rename_i w i' hi
      obtain rfl := Option.some.inj h
      exact .handles hphase (by rw [hi]; rfl)
    · simp [Progress.state?] at h
    · rename_i o ho
      have htokens : ((i.step (x.inSpan s)).2.stop beats).tokens = s.tokens :=
        Invocation.tokens_of_done (s := x.inSpan s) ho
      exact (decide_cases hphase ho htokens).1 x' h
  | finalizing k d o record stage =>
    rw [step_of_finalizing s hphase] at h
    have hgoes : ∀ stage', (((x.inSpan s).callComplete stage record d.force none).1.state? =
        some stage') →
        x' = { x with phase := .finalizing k d o record stage' } → x.Goes s x' := by
      intro stage' hstage hx
      obtain ⟨rfl, crashes, rfl⟩ := Site.stage_of_state? hstage
      exact hx ▸ .calls hphase
    split at h
    · rename_i stage' hstage
      exact hgoes stage' (by rw [hstage]; rfl) (Option.some.inj h).symm
    · rename_i w stage' hstage
      exact hgoes stage' (by rw [hstage]; rfl) (Option.some.inj h).symm
    · simp [Progress.state?] at h
    · simp [Progress.state?] at h

theorem Execution.ends_of_done (h : (x.step s).1 = .done result) : x.Ends s result := by
  cases hphase : x.phase with
  | fresh =>
    rw [step_of_fresh s hphase] at h
    exact (begin_cases s x hphase).2 result h
  | handling i k beats =>
    rw [step_of_handling s hphase] at h
    split at h
    · simp at h
    · simp at h
    · simp at h
    · rename_i o ho
      have htokens : ((i.step (x.inSpan s)).2.stop beats).tokens = s.tokens :=
        Invocation.tokens_of_done (s := x.inSpan s) ho
      exact (decide_cases hphase ho htokens).2 result h
  | finalizing k d o record stage =>
    rw [step_of_finalizing s hphase] at h
    split at h
    · simp at h
    · simp at h
    · simp at h
    · rename_i answer hdone
      simp only [Progress.done.injEq] at h
      subst h
      obtain ⟨rfl, hanswer⟩ := Site.callComplete_done hdone
      exact .finalized hphase hanswer

/-- The handler of a job is one of those that are registered. -/
theorem exists_of_handler? {registry : Registry Handler} {job : Job} {handler : Handler}
    (h : registry.handler? job = some handler) : ∃ key, (key, handler) ∈ registry.entries := by
  have hget : ∀ queue kind, registry.get? queue kind = some handler →
      ∃ key, (key, handler) ∈ registry.entries := by
    intro queue kind hq
    obtain ⟨before, after, hsplit, -⟩ := List.lookup_eq_some_iff.mp hq
    exact ⟨(queue, kind), by rw [hsplit]; simp⟩
  unfold Registry.handler? at h
  rcases Option.or_eq_some_iff.mp h with h | ⟨-, h⟩
  · obtain ⟨kind, -, hk⟩ := Option.bind_eq_some_iff.mp h
    exact hget _ _ hk
  · exact hget _ _ h

theorem Execution.Goes.within {p : Action → Prop} (hgo : x.Goes s x') (hw : x.Within p)
    (hr : ∀ entry ∈ s.registry.entries, entry.2.Within p) : x'.Within p := by
  cases hgo with
  | begun _ hh hi =>
    simp only [Execution.Within]
    obtain ⟨key, hmem⟩ := exists_of_handler? hh
    rw [hi]
    exact Handler.within_turn (hr _ hmem) _
  | handles hphase hi =>
    simp only [Execution.Within, hphase] at hw ⊢
    exact fun step hstep => hw step (Invocation.steps_of_state? hi step hstep)
  | decided => exact trivial
  | calls => exact trivial

end LeasedWork.Engine
