import LeasedWork.Proofs.Engine.Course
import LeasedWork.Proofs.Host.Interleaving

/-!
# Where deeds come from

Statements about all runs ask of a deed which task can have done it, and in which state. Here this
is answered once for all tasks. Actions from outside are bounded by a condition that the
surroundings and the handlers are known to keep to.
-/
namespace LeasedWork

/-- Whether an event tells that a result was stored. -/
def Event.isFinal : Event → Bool
  | jobCompleted _ _ | jobFailed _ _ _ _ | jobCancelled _ _ => true
  | workerStarted _ | jobStarted _ _ | jobSkipped _ _ | jobInterrupted _ _ | workerStopped _ => false

/-- Which event goes with a result that was handed over for a job: by the status, and by whether the
hand-over was forced. -/
inductive Event.Tells (job : Job) : Status → Bool → Event → Prop
  | completed : Tells job .completed true (.jobCompleted job.id job.queue)
  | cancelled : Tells job .cancelled true (.jobCancelled job.id job.queue)
  | failed (error : String) : Tells job .failed true (.jobFailed job.id job.queue false error)
  | softFailed (error : String) : Tells job .failed false (.jobFailed job.id job.queue true error)

theorem Event.Tells.about {job : Job} {status : Status} {force : Bool} {e : Event}
    (h : Event.Tells job status force e) : e.job? = some job.id ∧ e.queue = job.queue := by
  cases h <;> exact ⟨rfl, rfl⟩

theorem Engine.Execution.tells_event (job : Job) (o : Outcome) (d : Disposition) :
    Event.Tells job d.status d.force (event job o d) := by
  cases d with
  | completed => exact .completed
  | failed => exact .failed _
  | softFailed => exact .softFailed _
  | cancelled => exact .cancelled

namespace Host

open Engine
open Site (actDeeds deedsOfCall deedsOfStage)

/-! ## What handlers and surroundings keep to -/

/-- Whether all that a task does from outside the engine is within a condition. -/
def Task.Within (p : Action → Prop) : Task → Prop
  | .timeline t => ∀ entry ∈ t.pending, p entry.2
  | .watch w => ∀ entry ∈ w.pending, ∀ action, entry.2 = .act action → p action
  | .loop l => ∀ x, l.phase = .executing x → x.Within p
  | .runs r => ∀ x wait deadline, r.phase = .executing x wait deadline → x.Within p
  | .heartbeat _ | .pool _ | .service _ | .listener _ | .eventLog _ | .conductor _ => True

/-- Whether all that is done in an ensemble from outside its engine is within a condition. -/
structure Ensemble.Within (p : Action → Prop) (sys : Ensemble) : Prop where
  handlers : ∀ entry ∈ sys.site.registry.entries, entry.2.Within p
  tasks : ∀ a ∈ sys.activities, a.task.Within p

/-! ## The execution of a task -/

/-- The execution that a task is in the middle of. -/
def Task.execution? : Task → Option Execution
  | .loop l =>
    match l.phase with
    | .executing x => some x
    | _ => none
  | .runs r =>
    match r.phase with
    | .executing x _ _ => some x
    | _ => none
  | _ => none

/-- The execution that makes the next move of a task. -/
def Task.acting? (s : Site) : Task → Option Execution
  | .loop l =>
    match l.phase with
    | .executing x => some x
    | _ => none
  | .runs r =>
    match r.pending, r.phase with
    | _ :: _, .executing x wait _ => if wait.all (·.isOver s) then some x else none
    | _, _ => none
  | _ => none

theorem Task.execution?_of_acting? {s : Site} {t : Task} {x : Execution}
    (h : t.acting? s = some x) : t.execution? = some x := by
  cases t with
  | loop l => exact h
  | runs r =>
    simp only [acting?] at h
    split at h
    · rename_i hphase
      split at h
      · simpa [execution?, hphase] using h
      · exact absurd h (by simp)
    · exact absurd h (by simp)
  | _ => exact absurd h (by simp [acting?])

/-- While an execution makes the move of a task, the deeds are its own. -/
theorem Task.deeds_of_acting? {s : Site} {t : Task} {x : Execution} (h : t.acting? s = some x) :
    t.deeds s = x.deeds s := by
  cases t with
  | loop l =>
    simp only [acting?] at h
    split at h
    · rename_i hphase
      obtain rfl := Option.some.inj h
      simp only [deeds, PollLoop.deeds, hphase]
    · exact absurd h (by simp)
  | runs r =>
    simp only [acting?] at h
    split at h
    · rename_i hpending hphase
      split at h
      · rename_i hover
        obtain rfl := Option.some.inj h
        simp only [deeds, Runs.deeds, hpending, hphase, if_pos hover]
      · exact absurd h (by simp)
    · exact absurd h (by simp)
  | _ => exact absurd h (by simp [acting?])

/-- What a task asks for when it looks for a job of its own accord. -/
def Task.Requests (s : Site) (t : Task) (request : LeaseRequest) : Prop :=
  (∃ l expired, t = .loop l ∧ request = l.request s expired) ∨
    ∃ r plan, t = .runs r ∧ request = RunPlan.request plan

/-- The states of tasks in which they do their deeds, actions being bounded by a condition. -/
inductive Task.Origin (p : Action → Prop) (s : Site) (t : Task) : Deed → Prop
  | asked {action : Action} {op : Operation} (hp : p action) (h : action.Asks op)
      (hop : s.Allows op) :
    Origin p s t (.operate op)
  | skip : Origin p s t .skip
  | cancel {k : Token} : Origin p s t (.cancel k)
  | child {parent : Token} : Origin p s t (.child parent)
  | hold {k : Token} : Origin p s t (.hold k)
  | release {k : Token} : Origin p s t (.release k)
  /-- Word that nothing was stored; that a queue was started is told by its pool. -/
  | publish {e : Event} (h : e.isFinal = false)
      (hstarted : ∀ queue, e = .workerStarted queue → ∃ q, t = .pool q) :
    Origin p s t (.publish e)
  | spawnLoop {q : Pool} {slot : Nat} (ht : t = .pool q) (hphase : q.phase = .fresh) :
    Origin p s t (.spawn (.loop q.queue q.worker slot (s.newToken q.shutdown)))
  | spawnPool {v : Service} {hosted : HostedQueue} (ht : t = .service v) (hphase : v.phase = .waiting)
      (hshutdown : s.isCancelled v.shutdown = false) :
    Origin p s t
      (.spawn (.pool hosted.queue hosted.workers v.worker (s.newToken v.shutdown)))
  | spawnHosting {c : Conductor} (ht : t = .conductor c) (hphase : c.phase = .fresh) :
    Origin p s t (.spawn c.task)
  | dequeue {request : LeaseRequest} {cancelled : Bool} (h : t.Requests s request)
      (hop : s.Allows (.dequeue request cancelled)) :
    Origin p s t (.operate (.dequeue request cancelled))
  /-- A heartbeat. -/
  | beat {h : Heartbeat} {deadline : Nat} (ht : t = .heartbeat h)
      (hphase : h.phase = .calling deadline (.underway false)) :
    Origin p s t (.operate (.heartbeat h.record))
  /-- A heartbeat was told to abandon the execution. -/
  | beatAbandon {h : Heartbeat} {deadline : Nat} (ht : t = .heartbeat h)
      (hphase : h.phase = .calling deadline (.underway false))
      (hanswer : (s.askHeartbeat h.record).1 = some (.ok true)) :
    Origin p s t (.abandon h.execution)
  /-- The job was to be cancelled before it was begun. -/
  | beginAbandon {x : Execution} (hx : t.acting? s = some x) (hphase : x.phase = .fresh)
      (hh : (s.registry.handler? x.job).isSome = true) (hcancel : x.job.cancelRequested = true) :
    Origin p s t (.abandon (s.newToken x.shutdown))
  /-- The heartbeats of a handler that is started. -/
  | beats {x : Execution} (hx : t.acting? s = some x) (hphase : x.phase = .fresh)
      (hh : (s.registry.handler? x.job).isSome = true) :
    Origin p s t (.spawn (x.beats s))
  /-- The heartbeats of a handler that has returned or was dropped. -/
  | endBeats {x : Execution} {i : Invocation} {k : Token} {beats : TaskId}
      (hx : t.execution? = some x) (hphase : x.phase = .handling i k beats) :
    Origin p s t (.stop beats)
  /-- The result of a handler. -/
  | complete {x : Execution} {k : Token} {d : Disposition} {o : Outcome} {record : Job}
      (hx : t.acting? s = some x) (hphase : x.phase = .finalizing k d o record (.underway false)) :
    Origin p s t (.operate (.complete record d.force))
  /-- The word that a result was stored. -/
  | final {x : Execution} {k : Token} {d : Disposition} {o : Outcome} {record : Job}
      {settlement : Settlement} (hx : t.acting? s = some x)
      (hphase : x.phase = .finalizing k d o record (.underway false))
      (hanswer : (s.store.complete record d.force s.now).1 = .ok settlement) :
    Origin p s t (.publish (Execution.event record o d))
  | watchAbandon {w : Watch} (ht : t = .watch w) : Origin p s t (.abandon w.execution)
  | watchDrop {w : Watch} (ht : t = .watch w) : Origin p s t (.stop w.heartbeat)

section

variable {p : Action → Prop} {s : Site} {t : Task} {d : Deed}

theorem allows_congr {s' : Site} {op : Operation} (h : s'.Allows op) (hclock : s'.clock = s.clock)
    (hstore : s'.store = s.store) : s.Allows op := by
  intro request hop hfail
  have hdated := h request hop (hstore ▸ hfail)
  rwa [Site.isDated, Site.now, hclock] at hdated

theorem Task.origin_of_act {action : Action} (s' : Site) (hclock : s'.clock = s.clock)
    (hstore : s'.store = s.store) (hp : p action) (h : d ∈ s'.actDeeds action) :
    t.Origin p s d := by
  obtain rfl | ⟨-, rfl⟩ | ⟨op, rfl, hasks, hop⟩ := mem_actDeeds h
  · exact .skip
  · exact .cancel
  · exact .asked hp hasks (allows_congr hop hclock hstore)

theorem Task.origin_of_invocation {i : Invocation} (s' : Site) (hclock : s'.clock = s.clock)
    (hstore : s'.store = s.store) (hw : ∀ step ∈ i.steps, step.Within p) (h : d ∈ i.deeds s') :
    t.Origin p s d := by
  unfold Invocation.deeds at h
  split at h
  · rename_i action rest _ hsteps
    have hp : p action := hw (.act action) (by rw [hsteps]; exact List.mem_cons_self)
    exact origin_of_act s' hclock hstore hp h
  · exact absurd h List.not_mem_nil

theorem Task.origin_of_execution {x : Execution} (hx : t.acting? s = some x) (hw : x.Within p)
    (h : d ∈ x.deeds s) : t.Origin p s d := by
  unfold Execution.deeds at h
  unfold Execution.Within at hw
  cases hphase : x.phase with
  | fresh =>
    simp only [hphase, Execution.beginDeeds] at h
    split at h
    · rename_i hh
      simp only [List.cons_append, List.nil_append, List.mem_cons, List.mem_append,
        List.not_mem_nil, or_false] at h
      obtain rfl | rfl | h | rfl | rfl := h
      · exact .publish rfl (by simp)
      · exact .child
      · split at h
        · obtain rfl := List.mem_singleton.mp h
          exact .beginAbandon hx hphase hh ‹_›
        · exact absurd h List.not_mem_nil
      · exact .hold
      · exact .beats hx hphase hh
    · obtain rfl := List.mem_singleton.mp h
      exact .publish rfl (by simp)
  | handling i k beats =>
    simp only [hphase, List.mem_append] at h hw
    rcases h with h | h
    · exact origin_of_invocation (x.inSpan s) rfl rfl hw h
    · split at h
      · rcases List.mem_cons.mp h with rfl | h
        · exact .endBeats (execution?_of_acting? hx) hphase
        · unfold Execution.decideDeeds at h
          split at h
          · simp only [List.mem_cons, List.not_mem_nil, or_false] at h
            obtain rfl | rfl := h
            · exact .publish rfl (by simp)
            · exact .release
          · exact absurd h List.not_mem_nil
      · exact absurd h List.not_mem_nil
  | finalizing k disposition o record stage =>
    simp only [hphase, List.mem_append] at h
    rcases h with h | h
    · obtain ⟨rfl, -, rfl⟩ := mem_deedsOfStage h
      exact .complete hx hphase
    · split at h
      · rename_i settlement hdone
        simp only [List.mem_cons, List.not_mem_nil, or_false] at h
        obtain rfl | rfl := h
        · obtain ⟨rfl, hanswer⟩ := Site.callComplete_done hdone
          exact .final hx hphase hanswer
        · exact .release
      · obtain rfl := List.mem_singleton.mp h
        exact .release
      · obtain rfl := List.mem_singleton.mp h
        exact .release
      · exact absurd h List.not_mem_nil

theorem Task.origin_of_drop {x : Execution} (hx : t.execution? = some x) (h : d ∈ x.dropDeeds) :
    t.Origin p s d := by
  unfold Execution.dropDeeds at h
  split at h
  · exact absurd h List.not_mem_nil
  · rename_i i k beats hphase
    simp only [List.mem_cons, List.not_mem_nil, or_false] at h
    obtain rfl | rfl := h
    · exact .endBeats hx hphase
    · exact .release
  · obtain rfl := List.mem_singleton.mp h
    exact .release

theorem Task.origin_of_fleet {f : Fleet} (h : d ∈ f.deeds s) : t.Origin p s d := by
  unfold Fleet.deeds at h
  split at h
  · exact absurd h List.not_mem_nil
  · obtain rfl := List.mem_singleton.mp h
    exact .cancel

theorem Task.origin_of_heartbeat {b : Heartbeat} (h : d ∈ b.deeds s) :
    (Task.heartbeat b).Origin p s d := by
  unfold Heartbeat.deeds at h
  split at h
  · exact absurd h List.not_mem_nil
  · exact absurd h List.not_mem_nil
  · rename_i deadline stage hphase
    rw [List.mem_append] at h
    rcases h with h | h
    · obtain ⟨rfl, -, rfl⟩ := mem_deedsOfStage h
      exact .beat rfl hphase
    · split at h
      · rename_i hdone
        obtain ⟨rfl, hanswer⟩ := Site.callHeartbeat_done hdone
        obtain rfl := List.mem_singleton.mp h
        exact .beatAbandon rfl hphase hanswer
      · obtain rfl := List.mem_singleton.mp h
        exact .release
      · exact absurd h List.not_mem_nil
  · obtain rfl := List.mem_singleton.mp h
    exact .release

theorem Task.origin_of_loop {l : PollLoop} (hw : (Task.loop l).Within p)
    (h : d ∈ (Task.loop l).deeds s) : (Task.loop l).Origin p s d := by
  cases hphase : l.phase with
  | executing x =>
    have hx : (Task.loop l).acting? s = some x := by simp only [acting?, hphase]
    rw [deeds_of_acting? hx] at h
    exact origin_of_execution hx (hw x hphase) h
  | scanning stage =>
    simp only [deeds, PollLoop.deeds, hphase] at h
    obtain ⟨-, hasked, rfl⟩ := mem_deedsOfStage h
    exact .dequeue (.inl ⟨l, true, rfl, rfl⟩) (Site.allows_dequeue hasked)
  | fetching stage =>
    simp only [deeds, PollLoop.deeds, hphase] at h
    obtain ⟨-, hasked, rfl⟩ := mem_deedsOfStage h
    exact .dequeue (.inl ⟨l, false, rfl, rfl⟩) (Site.allows_dequeue hasked)
  | _ =>
    simp only [deeds, PollLoop.deeds, hphase] at h
    exact absurd h List.not_mem_nil

theorem Task.origin_of_pool {q : Pool} (h : d ∈ q.deeds s) : (Task.pool q).Origin p s d := by
  unfold Pool.deeds at h
  split at h
  · rename_i hphase
    simp only [List.cons_append, List.nil_append, List.mem_cons, List.mem_map] at h
    obtain rfl | rfl | ⟨slot, -, rfl⟩ := h
    · exact .child
    · exact .publish rfl fun _ _ => ⟨q, rfl⟩
    · exact .spawnLoop rfl hphase
  · rcases List.mem_append.mp h with h | h
    · exact origin_of_fleet h
    · split at h
      · obtain rfl := List.mem_singleton.mp h
        exact .publish rfl fun _ _ => ⟨q, rfl⟩
      · exact absurd h List.not_mem_nil

theorem Task.origin_of_service {v : Service} (h : d ∈ v.deeds s) :
    (Task.service v).Origin p s d := by
  unfold Service.deeds at h
  split at h
  · exact absurd h List.not_mem_nil
  · rename_i hphase
    split at h
    · exact absurd h List.not_mem_nil
    · rename_i hshutdown
      simp only [List.mem_cons, List.mem_map] at h
      obtain rfl | ⟨hosted, -, rfl⟩ := h
      · exact .child
      · exact .spawnPool rfl hphase (by simpa using hshutdown)
  · exact origin_of_fleet h

theorem Task.origin_of_runs {r : Runs} (hw : (Task.runs r).Within p) (h : d ∈ r.deeds s) :
    (Task.runs r).Origin p s d := by
  unfold Runs.deeds at h
  split at h
  · exact absurd h List.not_mem_nil
  · rename_i plan rest hpending
    split at h
    · exact absurd h List.not_mem_nil
    · rcases List.mem_append.mp h with h | h
      · split at h
        · obtain rfl := List.mem_singleton.mp h
          exact .cancel
        · exact absurd h List.not_mem_nil
      · obtain ⟨hasked, rfl⟩ := mem_deedsOfCall h
        apply Origin.dequeue (.inr ⟨r, plan, rfl, rfl⟩)
        apply allows_congr (Site.allows_dequeue hasked)
        · unfold RunPlan.opened
          split <;> rfl
        · unfold RunPlan.opened
          split <;> rfl
    · rename_i x wait deadline hphase
      split at h
      · rename_i hover
        have hx : (Task.runs r).acting? s = some x := by
          simp only [acting?, hpending, hphase, if_pos hover]
        exact origin_of_execution hx (hw x wait deadline hphase) h
      · have hx : (Task.runs r).execution? = some x := by simp only [execution?, hphase]
        exact origin_of_drop hx h

theorem Task.origin_of_conductor {c : Conductor} (h : d ∈ c.deeds s) :
    (Task.conductor c).Origin p s d := by
  unfold Conductor.deeds at h
  split at h
  · obtain rfl := List.mem_singleton.mp h
    exact .spawnHosting rfl ‹_›
  · split at h
    · exact absurd h List.not_mem_nil
    · split at h
      · obtain rfl := List.mem_singleton.mp h
        exact .cancel
      · exact absurd h List.not_mem_nil
  · split at h
    · obtain rfl := List.mem_singleton.mp h
      exact .cancel
    · exact absurd h List.not_mem_nil
  · exact absurd h List.not_mem_nil
  · exact absurd h List.not_mem_nil

theorem Task.origin_of_watch {w : Watch} (hw : (Task.watch w).Within p) (h : d ∈ w.deeds s) :
    (Task.watch w).Origin p s d := by
  unfold Watch.deeds at h
  split at h
  · exact absurd h List.not_mem_nil
  · rename_i time action rest hpending
    split at h
    · cases action with
      | act action =>
        have hmem : (time, WatchAction.act action) ∈ w.pending := by
          rw [hpending]
          exact List.mem_cons_self
        exact origin_of_act s rfl rfl (hw _ hmem action rfl) h
      | probe => exact absurd h List.not_mem_nil
      | drop =>
        obtain rfl := List.mem_singleton.mp h
        exact .watchDrop rfl
      | abandon =>
        obtain rfl := List.mem_singleton.mp h
        exact .watchAbandon rfl
    · exact absurd h List.not_mem_nil

/-- Every deed of a task comes from one of the known states. -/
theorem Task.origin_of_mem_deeds (hw : t.Within p) (h : d ∈ t.deeds s) : t.Origin p s d := by
  cases t with
  | heartbeat b => exact origin_of_heartbeat h
  | loop l => exact origin_of_loop hw h
  | pool q => exact origin_of_pool h
  | service v => exact origin_of_service h
  | timeline l =>
    simp only [deeds, Timeline.deeds] at h
    split at h
    · exact absurd h List.not_mem_nil
    · rename_i time action rest hpending
      split at h
      · have hmem : (time, action) ∈ l.pending := by
          rw [hpending]
          exact List.mem_cons_self
        exact origin_of_act (s.note (.action action.name)) rfl rfl (hw _ hmem) h
      · exact absurd h List.not_mem_nil
  | listener l => exact absurd h List.not_mem_nil
  | eventLog l => exact absurd h List.not_mem_nil
  | runs r => exact origin_of_runs hw h
  | conductor c => exact origin_of_conductor h
  | watch w => exact origin_of_watch hw h

/-! ## How a task comes to an execution -/

/-- Whether a loop that goes on is not in the middle of an execution. -/
def PollLoop.Unoccupied (p : Progress PollLoop Unit) : Prop :=
  ∀ l x, p.state? = some l → l.phase ≠ .executing x

theorem unoccupied_rest (s : Site) (l : PollLoop) : PollLoop.Unoccupied (l.rest s).1 := by
  intro l' x h hx
  obtain rfl := Option.some.inj h
  simp at hx

theorem unoccupied_fetch (s : Site) (l : PollLoop) : PollLoop.Unoccupied (l.fetch s).1 := by
  intro l' x h hx
  obtain rfl := Option.some.inj h
  simp at hx

theorem unoccupied_iterate (s : Site) (l : PollLoop) : PollLoop.Unoccupied (l.iterate s).1 := by
  have hscan : ∀ l' : PollLoop, l'.phase = .scanning .start → PollLoop.Unoccupied (.more l') := by
    intro l' hphase l'' x h hx
    obtain rfl := Option.some.inj h
    simp [hphase] at hx
  rw [PollLoop.iterate]
  by_cases halive : s.timing.alivePeriod.nanos < s.nanos - l.lastAlive
  · simp only [if_pos halive]
    split
    · exact unoccupied_rest _ _
    · split
      · exact hscan _ rfl
      · exact unoccupied_fetch _ _
  · simp only [if_neg halive]
    split
    · exact unoccupied_rest _ _
    · split
      · exact hscan _ rfl
      · exact unoccupied_fetch _ _

theorem unoccupied_passGate (s : Site) (l : PollLoop) : PollLoop.Unoccupied (l.passGate s).1 := by
  intro l' x h hx
  rw [PollLoop.passGate] at h
  split at h
  · simp [PollLoop.leaveGate, Progress.state?] at h
  · split at h
    · obtain rfl := Option.some.inj h
      simp at hx
    · obtain rfl := Option.some.inj h
      simp at hx

/-- A loop that executes goes on with its execution, or has just been given a job. -/
theorem executing_of_loop {l l' : PollLoop} {x' : Execution} (h : (l.step s).1.state? = some l')
    (hx : l'.phase = .executing x') :
    (∃ x, l.phase = .executing x ∧ x.Goes s x') ∨
      ∃ expired job, x' = .fresh job l.pool ∧
        l.phase = (if expired then .scanning (.underway false) else .fetching (.underway false)) ∧
        (s.askDequeue (l.request s expired) (s.isCancelled l.pool)).1 = some (.ok (some job)) := by
  rw [PollLoop.step] at h
  cases hphase : l.phase with
  | executing x =>
    simp only [hphase] at h
    refine .inl ⟨x, rfl, Execution.goes_of_state? ?_⟩
    cases hp : (x.step s).1 <;> simp only [hp, Progress.within, Progress.state?,
      Option.some.injEq, reduceCtorEq] at h ⊢
    · subst h
      simpa using hx
    · subst h
      simpa using hx
    · subst h
      simp at hx
  | scanning stage =>
    simp only [hphase] at h
    right
    split at h
    · obtain rfl := Option.some.inj h
      simp at hx
    · obtain rfl := Option.some.inj h
      simp at hx
    · simp [Progress.state?] at h
    · rename_i answer hdone
      obtain ⟨rfl, hanswer⟩ := Site.callDequeue_done hdone
      rcases answer with refusal | (_ | job)
      · obtain rfl := Option.some.inj h
        simp at hx
      · obtain rfl := Option.some.inj h
        simp at hx
      · obtain rfl := Option.some.inj h
        simp only [LoopPhase.executing.injEq] at hx
        exact ⟨true, job, hx.symm, rfl, hanswer⟩
  | fetching stage =>
    simp only [hphase] at h
    right
    split at h
    · obtain rfl := Option.some.inj h
      simp at hx
    · obtain rfl := Option.some.inj h
      simp at hx
    · simp [Progress.state?] at h
    · rename_i answer hdone
      obtain ⟨rfl, hanswer⟩ := Site.callDequeue_done hdone
      rcases answer with refusal | (_ | job)
      · obtain rfl := Option.some.inj h
        simp at hx
      · obtain rfl := Option.some.inj h
        simp at hx
      · obtain rfl := Option.some.inj h
        simp only [LoopPhase.executing.injEq] at hx
        exact ⟨false, job, hx.symm, rfl, hanswer⟩
  | gate =>
    simp only [hphase] at h
    exact absurd hx (unoccupied_passGate s l l' x' h)
  | top =>
    simp only [hphase] at h
    split at h
    · simp [Progress.state?] at h
    · exact absurd hx (unoccupied_iterate s l l' x' h)
  | _ =>
    simp only [hphase] at h
    split at h
    · simp [PollLoop.leaveGate, Progress.state?] at h
    · obtain rfl := Option.some.inj h
      simp at hx

/-- Whether a task is given a job in its next move, and what it makes of the record. -/
inductive Task.Obtains (s : Site) (t : Task) (job : Job) : Prop
  | loop {l : PollLoop} {expired : Bool} (ht : t = .loop l)
      (hphase : l.phase = if expired then .scanning (.underway false) else .fetching (.underway false))
      (hasked : (s.askDequeue (l.request s expired) (s.isCancelled l.pool)).1 =
        some (.ok (some job)))
  | runs {r : Runs} {plan : RunPlan} {rest : List RunPlan} {found : Job} (ht : t = .runs r)
      (hpending : r.pending = plan :: rest) (hphase : r.phase = .ready)
      (hasked : ((plan.opened s).askDequeue plan.request false).1 = some (.ok (some found)))
      (hjob : job = plan.overrides.apply found)

theorem obtains_of_begin {r r' : Runs} {plan : RunPlan} {rest : List RunPlan} {x' : Execution}
    {wait' : Option Wait} {deadline' : Option Nat} (hpending : r.pending = plan :: rest)
    (hphase : r.phase = .ready) (h : (r.begin s plan).1.state? = some r')
    (hx : r'.phase = .executing x' wait' deadline') :
    ∃ job k, x' = .fresh job k ∧ (Task.runs r).Obtains s job := by
  have hasked : ∀ found, Site.leasedJob? ((plan.opened s).askDequeue plan.request false).1 =
      some found → ((plan.opened s).askDequeue plan.request false).1 = some (.ok (some found)) := by
    intro found hfound
    obtain ⟨answer, hanswer, hjob⟩ := Option.bind_eq_some_iff.mp hfound
    rcases answer with refusal | (_ | job)
    · exact absurd hjob (by simp [Except.toOption])
    · exact absurd hjob (by simp [Except.toOption])
    · obtain rfl : job = found := by simpa [Except.toOption] using hjob
      exact hanswer
  simp only [Runs.begin] at h
  split at h
  · simp [Progress.state?] at h
  · obtain rfl := Option.some.inj h
    simp at hx
  · rename_i answer found _ hfound
    obtain rfl := Option.some.inj h
    simp only [RunsPhase.executing.injEq] at hx
    exact ⟨_, _, hx.1.symm, .runs rfl hpending hphase (hasked found hfound) rfl⟩

theorem executing_of_runs {r r' : Runs} {x' : Execution} {wait' : Option Wait}
    {deadline' : Option Nat} (h : (r.step s).1.state? = some r')
    (hx : r'.phase = .executing x' wait' deadline') :
    (∃ x, (Task.runs r).acting? s = some x ∧ x.Goes s x') ∨ (r' = r ∧ r.deeds s = []) ∨
      ∃ job k, x' = .fresh job k ∧ (Task.runs r).Obtains s job := by
  unfold Runs.step at h
  cases hpending : r.pending with
  | nil =>
    simp only [hpending] at h
    exact .inr (.inl ⟨(Option.some.inj h).symm, by rw [Runs.deeds, hpending]⟩)
  | cons plan rest =>
    cases hphase : r.phase with
    | between =>
      simp only [hpending, hphase] at h
      split at h
      · obtain rfl := Option.some.inj h
        simp at hx
      · obtain rfl := Option.some.inj h
        simp at hx
    | ready =>
      simp only [hpending, hphase] at h
      exact .inr (.inr (obtains_of_begin hpending hphase h hx))
    | executing x wait deadline =>
      simp only [hpending, hphase] at h
      split at h
      · rename_i hover
        have hacting : (Task.runs r).acting? s = some x := by
          simp only [Task.acting?, hpending, hphase, if_pos hover]
        refine .inl ⟨x, hacting, Execution.goes_of_state? ?_⟩
        cases hp : (x.step s).1 <;> simp only [hp, Progress.state?, Runs.finish,
          Option.some.injEq, reduceCtorEq] at h ⊢
        · subst h
          simp only [RunsPhase.executing.injEq] at hx
          exact hx.1
        · subst h
          simp only [RunsPhase.executing.injEq] at hx
          exact hx.1
        · subst h
          simp at hx
      · obtain rfl := Option.some.inj h
        simp at hx

theorem state?_within {σ : Type} {f : σ → Task} {q : Progress σ Unit} {t' : Task}
    (h : (q.within f .done).state? = some t') : ∃ state, q.state? = some state ∧ f state = t' := by
  cases q with
  | more state => exact ⟨state, rfl, Option.some.inj h⟩
  | wait w state => exact ⟨state, rfl, Option.some.inj h⟩
  | done result => simp [Progress.within, Progress.state?] at h
  | crash => simp [Progress.within, Progress.state?] at h

theorem Task.state?_loop {l l' : PollLoop} (h : (l.step s).1.state? = some l') :
    ((Task.loop l).step s).1.state? = some (.loop l') := by
  simp only [step]
  cases hp : (l.step s).1 with
  | more state =>
    rw [hp] at h
    exact congrArg (Option.map Task.loop) h
  | wait w state =>
    rw [hp] at h
    exact congrArg (Option.map Task.loop) h
  | _ =>
    rw [hp] at h
    exact absurd h (by simp [Progress.state?])

/-- The execution that a task is in the middle of after a move is the one that moved, or stood still,
or is a new one. -/
theorem Task.execution_cases {t' : Task} {x' : Execution} (h : (t.step s).1.state? = some t')
    (hx : t'.execution? = some x') :
    (∃ x, t.acting? s = some x ∧ x.Goes s x') ∨
      (t.execution? = some x' ∧ t.deeds s = []) ∨
      ∃ job k, x' = .fresh job k ∧ t.Obtains s job := by
  cases t with
  | loop l =>
    obtain ⟨l', hl, rfl⟩ := state?_within h
    simp only [execution?] at hx
    split at hx
    · rename_i hphase
      obtain rfl := Option.some.inj hx
      rcases executing_of_loop hl hphase with
        ⟨x, hxphase, hgo⟩ | ⟨expired, job, hfresh, hcalling, hasked⟩
      · exact .inl ⟨x, by simp only [acting?, hxphase], hgo⟩
      · exact .inr (.inr ⟨job, l.pool, hfresh, .loop rfl hcalling hasked⟩)
    · exact absurd hx (by simp)
  | runs r =>
    obtain ⟨r', hr, rfl⟩ := state?_within h
    simp only [execution?] at hx
    split at hx
    · rename_i hphase
      obtain rfl := Option.some.inj hx
      rcases executing_of_runs hr hphase with hgo | ⟨rfl, hdeeds⟩ | hfresh
      · exact .inl hgo
      · exact .inr (.inl ⟨by simp only [execution?, hphase], hdeeds⟩)
      · exact .inr (.inr hfresh)
    · exact absurd hx (by simp)
  | _ =>
    obtain ⟨_, -, rfl⟩ := state?_within h
    exact absurd hx (by simp [execution?])

/-! ## What is kept to -/

theorem pending_of_timeline {l l' : Timeline} (h : (l.step s).1.state? = some l') :
    ∀ entry ∈ l'.pending, entry ∈ l.pending := by
  rw [Timeline.step] at h
  split at h
  · obtain rfl := Option.some.inj h
    exact fun _ he => he
  · rename_i hpending
    split at h
    · split at h
      · simp [Progress.state?] at h
      · obtain rfl := Option.some.inj h
        exact fun _ he => hpending ▸ List.mem_cons_of_mem _ he
    · obtain rfl := Option.some.inj h
      exact fun _ he => he

theorem pending_of_watch {w w' : Watch} (h : (w.step s).1.state? = some w') :
    (∀ entry ∈ w'.pending, entry ∈ w.pending) ∧ w'.execution = w.execution ∧
      w'.heartbeat = w.heartbeat := by
  rw [Watch.step] at h
  cases hpending : w.pending with
  | nil =>
    simp only [hpending] at h
    obtain rfl := Option.some.inj h
    exact ⟨fun _ he => hpending ▸ he, rfl, rfl⟩
  | cons next rest =>
    obtain ⟨time, action⟩ := next
    simp only [hpending] at h
    by_cases hdue : time * Time.nanosPerMilli ≤ s.nanos
    · simp only [if_pos hdue] at h
      split at h
      · simp [Progress.state?] at h
      · rename_i reply v t hnocrash hperform
        obtain rfl := Option.some.inj h
        have hkept : v.execution = w.execution ∧ v.heartbeat = w.heartbeat := by
          cases action <;> simp only [Watch.perform, Prod.mk.injEq] at hperform <;>
            obtain ⟨-, rfl, -⟩ := hperform <;> exact ⟨rfl, rfl⟩
        exact ⟨fun _ he => List.mem_cons_of_mem _ he, hkept⟩
    · simp only [if_neg hdue] at h
      obtain rfl := Option.some.inj h
      exact ⟨fun _ he => hpending ▸ he, rfl, rfl⟩

theorem Task.within_of_execution? (h : ∀ x, t.execution? = some x → x.Within p)
    (hl : ∀ l, t = .timeline l → ∀ entry ∈ l.pending, p entry.2)
    (hv : ∀ w, t = .watch w → ∀ entry ∈ w.pending, ∀ action, entry.2 = .act action → p action) :
    t.Within p := by
  cases t with
  | loop l => exact fun x hx => h x (by simp only [execution?, hx])
  | runs r => exact fun x wait deadline hx => h x (by simp only [execution?, hx])
  | timeline l => exact hl l rfl
  | watch w => exact hv w rfl
  | _ => exact trivial

theorem Task.Within.execution? (h : t.Within p) {x : Execution} (hx : t.execution? = some x) :
    x.Within p := by
  cases t with
  | loop l =>
    simp only [Task.execution?] at hx
    split at hx
    · rename_i hphase
      obtain rfl := Option.some.inj hx
      exact h _ hphase
    · exact absurd hx (by simp)
  | runs r =>
    simp only [Task.execution?] at hx
    split at hx
    · rename_i hphase
      obtain rfl := Option.some.inj hx
      exact h _ _ _ hphase
    · exact absurd hx (by simp)
  | _ => exact absurd hx (by simp [Task.execution?])

/-- What is done from outside stays within a condition. -/
theorem Task.Within.of_state? {t' : Task} (hw : t.Within p)
    (hr : ∀ entry ∈ s.registry.entries, entry.2.Within p) (h : (t.step s).1.state? = some t') :
    t'.Within p := by
  refine within_of_execution? (fun x' hx' => ?_) ?_ ?_
  · rcases execution_cases h hx' with ⟨x, hx, hgo⟩ | ⟨hx, -⟩ | ⟨job, k, rfl, -⟩
    · exact hgo.within (hw.execution? (execution?_of_acting? hx)) hr
    · exact hw.execution? hx
    · exact trivial
  · rintro l' rfl
    cases t with
    | timeline l =>
      obtain ⟨_, hl, heq⟩ := state?_within h
      cases heq
      exact fun entry he => hw entry (pending_of_timeline hl entry he)
    | _ =>
      obtain ⟨_, -, heq⟩ := state?_within h
      cases heq
  · rintro w' rfl
    cases t with
    | watch w =>
      obtain ⟨_, hv, heq⟩ := state?_within h
      cases heq
      exact fun entry he => hw entry ((pending_of_watch hv).1 entry he)
    | _ =>
      obtain ⟨_, -, heq⟩ := state?_within h
      cases heq

theorem Task.Within.stop (h : t.Within p) : t.stop.Within p := by
  cases t with
  | heartbeat b => exact trivial
  | _ => exact h

theorem Task.within_ofStart (start : Start) : (Task.ofStart start).Within p := by
  cases start with
  | loop => exact fun x hx => nomatch hx
  | _ => exact trivial

variable {lapse : Ensemble → Nat → Prop} {start sys : Ensemble} {history : List Move}

/-- What is done from outside stays within a condition, whoever moves. -/
theorem Interleaving.within (h : Interleaving lapse start history sys) (hs : start.Sound)
    (hw : start.Within p) : sys.Within p := by
  refine ⟨h.setAlike.registry ▸ hw.handlers, ?_⟩
  induction h with
  | nil => exact hw.tasks
  | @move history sys a h ha hf ih =>
    refine (h.sound hs).tasks_move (fun t ht => ht.stop) (fun b hb _ => ih b hb) ?_
      (fun start _ => Task.within_ofStart _)
    exact fun t' ht' => (ih a ha).of_state? (h.setAlike.registry ▸ hw.handlers) ht'
  | pause h hp ih =>
    intro b hb
    obtain ⟨c, hc, -, htask⟩ := hp.exists_task hb
    exact htask ▸ ih c hc

end

end Host

end LeasedWork
