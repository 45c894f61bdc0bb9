import LeasedWork.Engine.Service
import LeasedWork.Proofs.Engine.Calls

/-!
# What the tasks of the engine do

For each machine of the engine, the deeds of its next move. They follow the machine's own case
distinctions, so that of a move it can be read off at once which operations it asks of the store,
what it publishes, and which tokens and tasks it touches.
-/
namespace LeasedWork.Engine

open Site (actDeeds deedsOfStage)

variable {s : Site}

/-! ## Heartbeats -/

/-- The deeds of the next move of a heartbeat task. -/
def Heartbeat.deeds (s : Site) (h : Heartbeat) : List Deed :=
  match h.phase with
  | .fresh _ | .waiting _ => []
  | .calling _ stage =>
    deedsOfStage stage (s.askHeartbeat h.record).1 (.heartbeat h.record) ++
      match (s.callHeartbeat stage h.record).1 with
      | .done (.ok true) => [.abandon h.execution]
      | .crash => [.release h.execution]
      | _ => []
  | .stopped => [.release h.execution]

theorem Heartbeat.aside_react (s : Site) (h : Heartbeat) (answer : Except Refusal Bool) :
    (Deed.onAll s (match answer with
      | .ok true => [.abandon h.execution]
      | _ => [])).Aside (react s h answer) := by
  rcases answer with refusal | (_ | _)
  · exact Site.aside_writeLog _ _
  · exact Site.aside_writeLog _ _
  · simp only [react]
    split
    · exact Site.aside_writeLog _ _
    · exact .refl _

theorem Heartbeat.aside_step (s : Site) (h : Heartbeat) :
    (Deed.onAll s (h.deeds s)).Aside (h.step s).2 := by
  unfold deeds step
  cases h.phase with
  | calling deadline stage =>
    apply (s.aside_callHeartbeat stage h.record).then
    dsimp only
    cases (s.callHeartbeat stage h.record).1 with
    | done answer =>
      have hr := aside_react (s.callHeartbeat stage h.record).2 h answer
      rcases answer with refusal | (_ | _) <;> exact hr
    | _ => exact .refl _
  | _ => exact .refl _

/-! ## Invocations -/

/-- The deeds of the next move of an invocation. -/
def Invocation.deeds (s : Site) (i : Invocation) : List Deed :=
  match i.phase, i.steps with
  | .ready, .act action :: _ => s.actDeeds action
  | _, _ => []

theorem Invocation.aside_mark (s : Site) (i : Invocation) (entry : String → Int → Trace) :
    s.Aside (i.mark s entry) := by
  unfold mark
  split
  · exact Site.aside_note _ _
  · exact .refl s

theorem Invocation.aside_markStart (s : Site) (i : Invocation) : s.Aside (i.markStart s) := by
  unfold markStart
  exact aside_mark _ _ _

theorem Invocation.aside_markEnd (s : Site) (i : Invocation) : s.Aside (i.markEnd s) := by
  unfold markEnd
  exact aside_mark _ _ _

theorem Invocation.aside_start (s : Site) (handler : Handler) (job : Job) (token : Token) :
    s.Aside (start s handler job token).2 := by
  unfold start
  split
  · exact .refl s
  · dsimp only
    exact (s.aside_countInvocation _).trans (aside_markStart _ _)

theorem Invocation.aside_step (s : Site) (i : Invocation) :
    (Deed.onAll s (i.deeds s)).Aside (i.step s).2 := by
  unfold deeds step
  cases i.phase with
  | cancellableSleep =>
    dsimp only
    split
    · exact aside_mark _ _ _
    · exact .refl s
  | ready =>
    cases i.steps with
    | nil => exact aside_markEnd s i
    | cons first rest =>
      cases first with
      | act action =>
        have ha := s.aside_act action
        dsimp only
        split
        · rename_i hact
          rw [hact] at ha
          exact ha
        · rename_i hact
          rw [hact] at ha
          exact ha
      | _ => exact .refl s

/-! ## Executions -/

/-- The token that would be made next below another one. -/
def Site.newToken (s : Site) (parent : Token) : Token := (s.childToken parent).1

/-- The word that an execution leaves for its heartbeats when it starts its handler. -/
def Execution.beats (s : Site) (x : Execution) : Start :=
  let period := Heartbeat.effectivePeriod s.timing.beatPeriod
  .heartbeat x.job.snapshot period (s.jitter period).1 (s.newToken x.shutdown)

/-- The deeds of an execution that has just been given its job. -/
def Execution.beginDeeds (s : Site) (x : Execution) : List Deed :=
  if (s.registry.handler? x.job).isSome then
    [.publish (.jobStarted x.job.id x.job.queue), .child x.shutdown] ++
      (if x.job.cancelRequested then [.abandon (s.newToken x.shutdown)] else []) ++
      [.hold (s.newToken x.shutdown), .spawn (x.beats s)]
  else [.publish (.jobSkipped x.job.id x.job.queue)]

/-- The deeds of an execution whose handler has come to an outcome. -/
def Execution.decideDeeds (s : Site) (x : Execution) (token : Token) (outcome : Outcome) :
    List Deed :=
  match Disposition.classify outcome (s.tokens.isAbandoned token) (s.isCancelled x.shutdown) with
  | none => [.publish (.jobInterrupted x.job.id x.job.queue), .release token]
  | some _ => []

/-- The site as an execution sees it, in its span. -/
def Execution.inSpan (s : Site) (x : Execution) : Site := { s with span := some (span x.job) }

/-- The deeds of the next move of an execution. -/
def Execution.deeds (s : Site) (x : Execution) : List Deed :=
  let s := x.inSpan s
  match x.phase with
  | .fresh => x.beginDeeds s
  | .handling invocation token heartbeat =>
    invocation.deeds s ++
      match (invocation.step s).1 with
      | .done outcome =>
        .stop heartbeat :: x.decideDeeds ((invocation.step s).2.stop heartbeat) token outcome
      | _ => []
  | .finalizing token disposition outcome record stage =>
    deedsOfStage stage (s.askComplete record disposition.force).1
        (.complete record disposition.force) ++
      match (s.callComplete stage record disposition.force none).1 with
      | .done (.ok _) => [.publish (event record outcome disposition), .release token]
      | .done (.error _) | .crash => [.release token]
      | _ => []

theorem Execution.aside_begin (s : Site) (x : Execution) :
    (Deed.onAll s (x.beginDeeds s)).Aside (begin s x).2 := by
  unfold beginDeeds begin
  cases s.registry.handler? x.job with
  | none =>
    have hlog := s.aside_writeLog
      (line .warn "Not supported job type" x.job [("queue_type", .text x.job.queue.name)])
    exact hlog.on (.publish (.jobSkipped x.job.id x.job.queue))
  | some handler =>
    simp only [Option.isSome_some, if_true]
    have hlog := s.aside_writeLog (line .info "Job starting" x.job [])
    have hchild := (hlog.on (.publish (.jobStarted x.job.id x.job.queue))).on (.child x.shutdown)
    cases x.job.cancelRequested with
    | false =>
      have hdrawn := hchild.trans (Site.aside_jitter _ (Heartbeat.effectivePeriod s.timing.beatPeriod))
      have hspawned := (hdrawn.on (.hold (s.newToken x.shutdown))).on (.spawn (x.beats s))
      exact hspawned.trans (Invocation.aside_start _ handler x.job _)
    | true =>
      have habandoned := hchild.on (.abandon (s.newToken x.shutdown))
      have hdrawn := habandoned.trans
        (Site.aside_jitter _ (Heartbeat.effectivePeriod s.timing.beatPeriod))
      have hspawned := (hdrawn.on (.hold (s.newToken x.shutdown))).on (.spawn (x.beats s))
      exact hspawned.trans (Invocation.aside_start _ handler x.job _)

theorem Execution.aside_decide (s : Site) (x : Execution) (token : Token) (outcome : Outcome) :
    (Deed.onAll s (x.decideDeeds s token outcome)).Aside (decide s x token outcome).2 := by
  unfold decideDeeds decide
  cases Disposition.classify outcome (s.tokens.isAbandoned token) (s.isCancelled x.shutdown) with
  | none =>
    exact (s.aside_writeLog _).onAll
      [.publish (.jobInterrupted x.job.id x.job.queue), .release token]
  | some disposition =>
    dsimp only
    split
    · exact s.aside_writeLog _
    · exact .refl s

theorem Execution.aside_conclude (s : Site) (x : Execution) (disposition : Disposition)
    (outcome : Outcome) (record : Job) (answer : Except Refusal Settlement) :
    (Deed.onAll s (match answer with
      | .ok _ => [.publish (event record outcome disposition)]
      | .error _ => [])).Aside (x.conclude s disposition outcome record answer).2 := by
  unfold conclude
  cases answer with
  | ok settlement =>
    dsimp only
    split
    · exact (s.aside_writeLog _).on (.publish (event record outcome disposition))
    · exact .refl _
  | error refusal => exact s.aside_writeLog _

theorem Execution.aside_step (s : Site) (x : Execution) :
    (Deed.onAll s (x.deeds s)).Aside (x.step s).2 := by
  have hspan := (s.aside_span (some (span x.job))).onAll (x.deeds s)
  refine hspan.trans (Site.Aside.trans ?_ (Site.aside_span _ s.span))
  unfold deeds inSpan
  generalize ({ s with span := some (span x.job) } : Site) = t
  cases x.phase with
  | fresh => exact aside_begin t x
  | handling invocation token heartbeat =>
    apply (invocation.aside_step t).then
    dsimp only
    cases (invocation.step t).1 with
    | done outcome => exact aside_decide _ x token outcome
    | _ => exact .refl _
  | finalizing token disposition outcome record stage =>
    apply (t.aside_callComplete stage record disposition.force none).then
    dsimp only
    cases (t.callComplete stage record disposition.force none).1 with
    | done answer =>
      have hc := (aside_conclude (t.callComplete stage record disposition.force none).2 x disposition
        outcome record answer).on (.release token)
      cases answer <;> exact hc
    | _ => exact .refl _

/-- The deeds by which an execution is dropped. -/
def Execution.dropDeeds (x : Execution) : List Deed :=
  match x.phase with
  | .fresh => []
  | .handling _ token heartbeat => [.stop heartbeat, .release token]
  | .finalizing token _ _ _ _ => [.release token]

theorem Execution.drop_eq (s : Site) (x : Execution) : x.drop s = Deed.onAll s x.dropDeeds := by
  unfold drop dropDeeds
  cases x.phase <;> rfl

/-! ## Polling loops -/

/-- The deeds of the next move of a loop. -/
def PollLoop.deeds (s : Site) (l : PollLoop) : List Deed :=
  match l.phase with
  | .scanning stage =>
    deedsOfStage stage (s.askDequeue (l.request s true) (s.isCancelled l.pool)).1
      (.dequeue (l.request s true) (s.isCancelled l.pool))
  | .fetching stage =>
    deedsOfStage stage (s.askDequeue (l.request s false) (s.isCancelled l.pool)).1
      (.dequeue (l.request s false) (s.isCancelled l.pool))
  | .executing execution => execution.deeds s
  | .gate | .gateSleep | .delay | .top | .idle => []

theorem PollLoop.aside_afterScan (s : Site) (l : PollLoop) (answer : Except Refusal (Option Job)) :
    s.Aside (afterScan s l answer).2 := by
  rcases answer with refusal | (_ | job)
  · exact (s.aside_writeLog _).trans (Site.aside_writeLog _ _)
  · exact s.aside_writeLog _
  · exact s.aside_writeLog _

theorem PollLoop.aside_afterFetch (s : Site) (l : PollLoop) (answer : Except Refusal (Option Job)) :
    s.Aside (afterFetch s l answer).2 := by
  rcases answer with refusal | (_ | job)
  · exact (s.aside_writeLog _).trans (Site.aside_writeLog _ _)
  · exact s.aside_writeLog _
  · exact s.aside_writeLog _

theorem PollLoop.aside_iterate (s : Site) (l : PollLoop) : s.Aside (iterate s l).2 := by
  rw [iterate]
  by_cases halive : s.timing.alivePeriod.nanos < s.nanos - l.lastAlive
  · simp only [if_pos halive]
    apply (s.aside_writeLog (l.line .info "Worker is running")).trans
    split
    · exact Site.aside_writeLog _ _
    · split
      · exact Site.aside_writeLog _ _
      · exact Site.aside_writeLog _ _
  · simp only [if_neg halive]
    split
    · exact Site.aside_writeLog _ _
    · split
      · exact Site.aside_writeLog _ _
      · exact Site.aside_writeLog _ _

theorem PollLoop.aside_step (s : Site) (l : PollLoop) :
    (Deed.onAll s (l.deeds s)).Aside (l.step s).2 := by
  unfold deeds step
  cases l.phase with
  | gate =>
    simp only [passGate]
    split
    · exact s.aside_writeLog _
    · split
      · exact s.aside_jitter s.timing.idleSleep
      · exact .refl s
  | gateSleep =>
    dsimp only
    split
    · exact s.aside_writeLog _
    · exact .refl s
  | delay =>
    dsimp only
    split <;> exact .refl s
  | top =>
    dsimp only
    split
    · exact .refl s
    · exact aside_iterate s l
  | scanning stage =>
    apply (s.aside_callDequeue stage (l.request s true) l.pool).trans
    dsimp only
    cases (s.callDequeue stage (l.request s true) l.pool).1 with
    | done answer => exact aside_afterScan _ l answer
    | _ => exact .refl _
  | fetching stage =>
    apply (s.aside_callDequeue stage (l.request s false) l.pool).trans
    dsimp only
    cases (s.callDequeue stage (l.request s false) l.pool).1 with
    | done answer => exact aside_afterFetch _ l answer
    | _ => exact .refl _
  | executing execution => exact execution.aside_step s
  | idle =>
    dsimp only
    split
    · exact s.aside_writeLog _
    · exact .refl s

/-! ## Fleets -/

/-- The deeds of the next move of a task that watches a fleet. -/
def Fleet.deeds (s : Site) (f : Fleet) : List Deed :=
  if f.running = [] ∨ f.broken ∨ s.firstEnded? f.running = none then [] else [.cancel f.scope]

theorem Fleet.aside_logEnd (s : Site) (f : Fleet) (panicked : Bool) :
    s.Aside (f.logEnd s panicked) := by
  unfold logEnd
  split
  · exact s.aside_writeLog _
  · exact .refl s

theorem Fleet.aside_step (s : Site) (f : Fleet) :
    (Deed.onAll s (f.deeds s)).Aside (f.step s).2 := by
  unfold deeds step
  by_cases hr : f.running = []
  · simp only [hr, true_or, if_true]
    exact .refl s
  cases hf : s.firstEnded? f.running with
  | none =>
    simp only [hr, or_true, if_true, if_false]
    exact .refl s
  | some ended =>
    simp only [hr, noteEnd]
    cases f.broken with
    | true => exact f.aside_logEnd s _
    | false =>
      have hlog : s.Aside (if s.isCancelled f.shutdown then s else s.writeLog ⟨.warn, PollLoop.target,
          "A " ++ f.kind ++ " exited before shutdown was requested, stopping the rest", []⟩) := by
        split
        · exact .refl s
        · exact s.aside_writeLog _
      exact (hlog.trans (f.aside_logEnd _ _)).on (.cancel f.scope)

/-! ## Pools and the service -/

/-- The deeds of the next move of the task of a pool. -/
def Pool.deeds (s : Site) (p : Pool) : List Deed :=
  match p.phase with
  | .fresh =>
    [.child p.shutdown, .publish (.workerStarted p.queue)] ++
      (List.range p.size).map fun slot =>
        .spawn (.loop p.queue p.worker slot (s.newToken p.shutdown))
  | .watching loops =>
    let s := { s with span := some p.span }
    loops.deeds s ++
      match (loops.step s).1 with
      | .done () => [.publish (.workerStopped p.queue)]
      | _ => []

theorem Pool.spawnLoops_snd (queue : Queue) (worker : String) (pool : Token) (slots : List Nat)
    (s : Site) : (spawnLoops queue worker pool slots s).2 =
      Deed.onAll s (slots.map fun slot => .spawn (.loop queue worker slot pool)) := by
  induction slots generalizing s with
  | nil => rfl
  | cons slot slots ih => exact ih _

theorem Pool.aside_step (s : Site) (p : Pool) :
    (Deed.onAll s (p.deeds s)).Aside (p.step s).2 := by
  have hspan := (s.aside_span (some p.span)).onAll (p.deeds s)
  refine hspan.trans (Site.Aside.trans ?_ (Site.aside_span _ s.span))
  unfold deeds
  cases p.phase with
  | fresh =>
    dsimp only
    rw [Deed.onAll_append, spawnLoops_snd]
    have hlog := Site.aside_writeLog (Deed.on { s with span := some p.span } (.child p.shutdown))
      ⟨.info, PollLoop.target, "Queue is starting",
        [("workers", .integer p.size), ("worker", .text p.worker)]⟩
    exact (hlog.on (.publish (.workerStarted p.queue))).onAll _
  | watching loops =>
    apply (loops.aside_step { s with span := some p.span }).then
    dsimp only
    cases (loops.step { s with span := some p.span }).1 with
    | done => exact Site.aside_writeLog _ _
    | _ => exact .refl _

/-- The deeds of the next move of the task of the service. -/
def Service.deeds (s : Site) (service : Service) : List Deed :=
  match service.phase with
  | .fresh => []
  | .waiting =>
    if s.isCancelled service.shutdown then []
    else
      .child service.shutdown :: service.hosted.map fun h =>
        .spawn (.pool h.queue h.workers service.worker (s.newToken service.shutdown))
  | .watching pools => pools.deeds s

theorem Service.aside_spawnPools (worker : String) (scope : Token) (hosted : List HostedQueue)
    (s : Site) : (Deed.onAll s (hosted.map fun h =>
      .spawn (.pool h.queue h.workers worker scope))).Aside (spawnPools worker scope hosted s).2 := by
  induction hosted generalizing s with
  | nil => exact .refl s
  | cons h rest ih =>
    have hlog := s.aside_writeLog ⟨.info, target, "Hosting queue",
      [("queue_type", .text h.queue.name), ("workers", .integer h.workers)]⟩
    exact ((hlog.on (.spawn (.pool h.queue h.workers worker scope))).onAll _).trans (ih _)

theorem Service.aside_step (s : Site) (service : Service) :
    (Deed.onAll s (service.deeds s)).Aside (service.step s).2 := by
  unfold deeds step
  cases service.phase with
  | fresh =>
    dsimp only
    split
    · exact s.aside_writeLog _
    · exact .refl s
  | waiting =>
    dsimp only
    split
    · exact s.aside_writeLog _
    · exact aside_spawnPools _ _ _ _
  | watching pools =>
    have hf := pools.aside_step s
    dsimp only
    cases (pools.step s).1 with
    | done => exact hf.trans (Site.aside_writeLog _ _)
    | _ => exact hf

end LeasedWork.Engine
