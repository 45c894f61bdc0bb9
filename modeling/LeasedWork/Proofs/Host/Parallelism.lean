import LeasedWork.Proofs.Host.Capacity
import LeasedWork.Proofs.Host.Gates
import LeasedWork.Proofs.Host.Outcome

/-!
# Bounded parallelism

A loop is through with one job before it calls for the next, so a pool runs no more handlers than it
has loops, and a service no more for a queue than its entries for it allow. One job may be executed
twice at once, by a loop that has lost its lease and by the one that took it over, but never under
one version.
-/
namespace LeasedWork

/-- A job is handed out under a version above that before. -/
theorem Store.Sound.version_lt_of_dequeue {s : Store} (hs : s.Sound) {request : LeaseRequest}
    {cancelled : Bool} {now : Time.Instant} {job : Job}
    (h : (s.dequeue request cancelled now).1 = .ok (some job)) {e : Entry}
    (he : s.entry? job.id = some e) : e.job.version < job.version := by
  rcases hs.dequeue_cases request cancelled now with ⟨-, hnone⟩ | ⟨a, ha, -, -, hanswer, -⟩
  · exact absurd h (hnone job)
  · obtain rfl : leased request.worker now a.job = job := by simpa [hanswer] using h
    obtain rfl : a = e := Option.some.inj (ha.symm.trans he)
    exact Int.lt_succ _

/-! ## Counts of loops -/

namespace HostedQueue

theorem one_le_workers_of_ofEntry {entry : List Char} {h : HostedQueue}
    (hh : ofEntry entry = .ok h) : 1 ≤ h.workers := by
  unfold ofEntry at hh
  dsimp only at hh
  split at hh
  · exact absurd hh (by simp)
  · rename_i name workers hsplit
    split at hh
    · exact absurd hh (by simp)
    · obtain rfl := Except.ok.inj hh
      unfold splitWorkers at hsplit
      split at hsplit
      · rw [← (Prod.mk.inj (Except.ok.inj hsplit)).2]
        exact Nat.le_refl 1
      · split at hsplit
        · exact absurd hsplit (by simp)
        · exact absurd hsplit (by simp)
        · rename_i n hne _
          rw [← (Prod.mk.inj (Except.ok.inj hsplit)).2]
          exact Nat.pos_of_ne_zero hne

/-- Every entry of a list that is read asks for a loop. -/
theorem one_le_workers_of_parseList {text : List Char} {queues : List HostedQueue}
    (h : parseList text = .ok queues) : ∀ q ∈ queues, 1 ≤ q.workers := by
  unfold parseList at h
  generalize entries text = entries at h
  induction entries generalizing queues with
  | nil =>
    obtain rfl : [] = queues := Except.ok.inj h
    simp
  | cons entry rest ih =>
    rw [List.mapM_cons] at h
    cases hentry : ofEntry entry with
    | error fault => simp [hentry, bind, Except.bind] at h
    | ok q =>
      cases hrest : rest.mapM ofEntry with
      | error fault => simp [hentry, hrest, bind, Except.bind] at h
      | ok qs =>
        obtain rfl : q :: qs = queues := by
          simpa [hentry, hrest, bind, Except.bind, pure, Except.pure] using h
        intro r hr
        rcases List.mem_cons.mp hr with rfl | hr
        · exact one_le_workers_of_ofEntry hentry
        · exact ih hrest r hr

end HostedQueue

namespace Engine.Service

/-- How many loops a service runs for a queue. -/
def loops (v : Service) (queue : Queue) : Nat :=
  ((v.hosted.filter (·.queue = queue)).map fun h => max h.workers 1).sum

/-- How many loops the entries of a service ask for, for a queue. -/
def count (v : Service) (queue : Queue) : Nat :=
  ((v.hosted.filter (·.queue = queue)).map (·.workers)).sum

theorem loops_eq_count {v : Service} (h : ∀ q ∈ v.queues, 1 ≤ q.workers) (queue : Queue) :
    v.loops queue = v.count queue := by
  refine congrArg List.sum (List.map_congr_left fun q hq => Nat.max_eq_left (h q ?_))
  exact (List.mem_filter.mp (List.mem_filter.mp hq).1).1

/-- What a service has room for is what its loops have. -/
theorem capacity_eq_loops (v : Service) (queue : Queue) :
    (Start.service v.queues v.worker v.shutdown).capacity (fun q => decide (q = queue)) =
      v.loops queue := by
  have hsum := List.sum_map_ite (fun h : HostedQueue => h.queue = queue)
    (fun h => max h.workers 1) (fun _ => 0) v.hosted
  simpa [Start.capacity, loops, hosted] using hsum

end Engine.Service

namespace Host

open Engine

variable {lapse : Ensemble → Nat → Prop} {start mid sys next : Ensemble} {history : List Move}
  {a b c : Activity} {id : TaskId} {job : Job} {s : Site} {m g : Move}

/-! ## One job after the other -/

/-- Whether a task is a loop in the middle of the execution of a job. -/
def Task.Executes (t : Task) (job : Job) : Prop :=
  ∃ l x, t = .loop l ∧ l.phase = .executing x ∧ x.job = job

/-- The move with which the loop of a number is through with a job. -/
structure Move.Concludes (m : Move) (id : TaskId) (job : Job) : Prop where
  mover : m.mover.id = id
  ends : ∃ l x result, m.mover.task = .loop l ∧ l.phase = .executing x ∧ x.job = job ∧
    (x.step m.site).1 = .done result

/-- Whether the loop of a number has done nothing but execute a job, and is through with it. -/
def Executed (history : List Move) (id : TaskId) (job : Job) : Prop :=
  ∃ past e rest, history = past ++ e :: rest ∧ e.Concludes id job ∧
    ∀ m ∈ past, m.mover.id = id → m.mover.task.Executes job

theorem Executed.snoc (h : Executed history id job) : Executed (history ++ [m]) id job := by
  obtain ⟨past, e, rest, rfl, he⟩ := h
  exact ⟨past, e, rest ++ [m], by simp, he⟩

/-- Whether the loop of a number, if it is there, has done nothing but execute a job so far, and is
not through with it. -/
structure Occupied (history : List Move) (sys : Ensemble) (id : TaskId) (job : Job) : Prop where
  lt : id < sys.site.nextTask
  now : ∀ b ∈ sys.activities, b.id = id → b.task.Executes job
  since : ∀ m ∈ history, m.mover.id = id → m.mover.task.Executes job

/-- A loop in the middle of an execution goes on with it, is through with it, or breaks down. -/
theorem Task.Executes.step {t : Task} (h : t.Executes job) :
    (∃ t', (t.step s).1.state? = some t' ∧ t'.Executes job) ∨
      (∃ l x result, t = .loop l ∧ l.phase = .executing x ∧ x.job = job ∧
        (x.step s).1 = .done result) ∨
      (t.step s).1.state? = none := by
  obtain ⟨l, x, rfl, hphase, rfl⟩ := h
  have hgoes : ∀ x', (x.step s).1.state? = some x' →
      ∃ t', ((Task.loop l).step s).1.state? = some t' ∧ t'.Executes x.job := fun x' hx' =>
    ⟨_, Task.state?_loop (PollLoop.state?_of_executing hphase hx'), _, x', rfl, rfl,
      (Execution.goes_of_state? hx').job_eq.1⟩
  cases hp : (x.step s).1 with
  | more x' => exact .inl (hgoes x' (by rw [hp]; rfl))
  | wait w x' => exact .inl (hgoes x' (by rw [hp]; rfl))
  | done result => exact .inr (.inl ⟨l, x, result, rfl, hphase, rfl, hp⟩)
  | crash =>
    have hcrash := PollLoop.step_of_executing s hphase
    rw [hp] at hcrash
    simp only [step, hcrash]
    exact .inr (.inr rfl)

theorem Task.Executes.stop {t : Task} (h : t.Executes job) : t.stop.Executes job := by
  obtain ⟨l, x, rfl, hx⟩ := h
  exact ⟨l, x, rfl, hx⟩

theorem Occupied.move (h : Occupied history sys id job) (hs : sys.Sound) (ha : a ∈ sys.activities) :
    Occupied (history ++ [⟨sys, a⟩]) (sys.move a) id job ∨
      Executed (history ++ [⟨sys, a⟩]) id job := by
  have hmover : a.id = id → a.task.Executes job := h.now a ha
  by_cases hends : Move.Concludes ⟨sys, a⟩ id job
  · exact .inr ⟨history, ⟨sys, a⟩, [], rfl, hends, h.since⟩
  left
  refine ⟨Nat.lt_of_lt_of_le h.lt (Ensemble.nextTask_le_move hs a),
    hs.task_move (Q := (Task.Executes · job)) h.lt (fun _ => .stop) (fun _ => h.now)
      fun hmoves t ht => ?_, fun m hm hid => ?_⟩
  · rcases (hmover hmoves.symm).step (s := sys.site) with ⟨t', ht', hexecutes⟩ | hdone | hnone
    · rwa [Option.some.inj (ht.symm.trans ht')]
    · exact absurd ⟨hmoves.symm, hdone⟩ hends
    · exact absurd (ht.symm.trans hnone) (by simp)
  · rcases List.mem_append.mp hm with hm | hm
    · exact h.since m hm hid
    · obtain rfl := List.mem_singleton.mp hm
      exact hmover hid

theorem Interleaving.occupied (h : Interleaving lapse mid history sys) (hs : mid.Sound)
    (hmid : Occupied [] mid id job) : Occupied history sys id job ∨ Executed history id job := by
  induction h with
  | nil => exact .inl hmid
  | move h ha _ ih =>
    rcases ih with hoccupied | hexecuted
    · exact hoccupied.move (h.sound hs) ha
    · exact .inr hexecuted.snoc
  | pause _ hp ih =>
    refine ih.imp_left fun hoccupied => ?_
    obtain ⟨clock, -, hsite⟩ := hp.site_eq
    refine ⟨hsite ▸ hoccupied.lt, fun b hb hid => ?_, hoccupied.since⟩
    obtain ⟨c, hc, hcid, htask⟩ := hp.exists_task hb
    exact htask ▸ hoccupied.now c hc (hcid.trans hid)

/-- A loop that is given a job goes on to execute it. -/
theorem Task.Obtains.state?_loop {l : PollLoop} (h : (Task.loop l).Obtains s job) :
    ((Task.loop l).step s).1.state? =
      some (.loop { l with phase := .executing (.fresh job l.pool) }) := by
  rcases h with ⟨hl, hphase, hasked⟩ | ⟨hr, -⟩
  · obtain rfl := Task.loop.inj hl
    exact Task.state?_loop (PollLoop.state?_of_granted hphase hasked)
  · exact absurd hr (by simp)

/-- A loop that was given a job is occupied with it. -/
theorem Move.occupied_of_obtains (hs : g.sys.Sound) (hg : g.mover ∈ g.sys.activities)
    {l : PollLoop} (ht : g.mover.task = .loop l) (hobtains : g.mover.task.Obtains g.site job) :
    Occupied [] g.after g.mover.id job := by
  have hlt := hs.bounded _ hg
  refine ⟨Nat.lt_of_lt_of_le hlt (Ensemble.nextTask_le_move hs _),
    hs.task_move (Q := (Task.Executes · job)) hlt (fun _ => .stop) (fun hne => absurd rfl hne)
      fun _ t hstep => ?_, by simp⟩
  rw [ht] at hobtains hstep
  rw [Option.some.inj (hstep.symm.trans hobtains.state?_loop)]
  exact ⟨_, _, rfl, rfl, rfl⟩

/-! ## One job, twice at once -/

/-- Whether runs of single jobs leave the number and the version of a job as they were handed
out. -/
def Task.KeepsLeases (t : Task) : Prop :=
  ∀ r, t = .runs r → ∀ plan ∈ r.pending, plan.overrides.id = none ∧ plan.overrides.version = none

theorem pending_of_runs {r r' : Runs} (h : (r.step s).1.state? = some r') :
    r'.pending ⊆ r.pending := by
  unfold Runs.step at h
  cases hpending : r.pending with
  | nil =>
    simp only [hpending] at h
    obtain rfl := Option.some.inj h
    simp [hpending]
  | cons plan rest =>
    have hfinish : ∀ (s : Site) (result : RunResult),
        (r.finish s result).1.state? = some r' → r'.pending ⊆ plan :: rest := by
      intro s result h
      obtain rfl := Option.some.inj h
      simp [hpending]
    have hsame : plan :: rest = r'.pending → r'.pending ⊆ plan :: rest :=
      fun heq => heq ▸ List.Subset.refl _
    simp only [hpending] at h
    cases hphase : r.phase with
    | between =>
      simp only [hphase] at h
      split at h
      · exact hsame (congrArg Runs.pending (Option.some.inj h))
      · exact hsame (congrArg Runs.pending (Option.some.inj h))
    | ready =>
      simp only [hphase, Runs.begin] at h
      split at h
      · simp [Progress.state?] at h
      · exact hfinish _ _ h
      · obtain rfl := Option.some.inj h
        exact hsame hpending.symm
    | executing x wait deadline =>
      simp only [hphase] at h
      split at h
      · cases hp : (x.step s).1 <;> simp only [hp, Progress.state?] at h
        · exact hsame (congrArg Runs.pending (Option.some.inj h))
        · exact hsame (congrArg Runs.pending (Option.some.inj h))
        · exact hfinish _ _ h
        · exact absurd h (by simp)
      · exact hfinish _ _ h

theorem Task.KeepsLeases.of_state? {t t' : Task} (ht : t.KeepsLeases)
    (h : (t.step s).1.state? = some t') : t'.KeepsLeases := by
  rintro r' rfl plan hplan
  cases t with
  | runs r =>
    obtain ⟨_, hr, heq⟩ := state?_within h
    obtain rfl := Task.runs.inj heq
    exact ht r rfl plan (pending_of_runs hr hplan)
  | _ =>
    obtain ⟨_, -, heq⟩ := state?_within h
    exact absurd heq (by simp)

theorem Interleaving.keepsLeases (h : Interleaving lapse start history sys) (hs : start.Sound)
    (hplans : ∀ b ∈ start.activities, b.task.KeepsLeases) :
    ∀ b ∈ sys.activities, b.task.KeepsLeases := by
  induction h with
  | nil => exact hplans
  | @move history sys a h ha _ ih =>
    refine (h.sound hs).tasks_move (fun t ht => ?_) (fun b hb _ => ih b hb)
      (fun t ht => (ih a ha).of_state? ht) (fun word _ r hr => ?_)
    · cases t with
      | heartbeat => exact fun r hr => absurd hr (by simp [Task.stop])
      | _ => exact ht
    · obtain ⟨id, word⟩ := word
      cases word <;> exact absurd hr (by simp [Task.ofStart])
  | pause _ hp ih =>
    intro b hb
    obtain ⟨c, hc, -, htask⟩ := hp.exists_task hb
    exact htask ▸ ih c hc

/-- A job that a move hands out is stored at its version, which is above that before. -/
theorem Move.version_of_obtains (hs : m.site.store.Sound) (hkeeps : m.mover.task.KeepsLeases)
    (h : m.mover.task.Obtains m.site job) :
    (∀ e, m.site.store.entry? job.id = some e → e.job.version < job.version) ∧
      ∃ e, m.after.site.store.entry? job.id = some e ∧ e.job.version = job.version := by
  have hanswer : ∃ request cancelled found, .operate (.dequeue request cancelled) ∈ m.deeds ∧
      (m.site.store.dequeue request cancelled m.site.now).1 = .ok (some found) ∧
      found.id = job.id ∧ found.version = job.version := by
    cases h with
    | @loop l expired ht hphase hasked =>
      refine ⟨_, _, job, ?_, Site.askDequeue_answer hasked, rfl, rfl⟩
      rw [Move.deeds, ht, Task.deeds, PollLoop.deeds]
      cases expired with
      | true =>
        simp only [if_true] at hphase
        simp [hphase, Site.deedsOfStage, Site.deedsOfCall, hasked]
      | false =>
        simp only [Bool.false_eq_true, if_false] at hphase
        simp [hphase, Site.deedsOfStage, Site.deedsOfCall, hasked]
    | @runs r plan rest found ht hpending hphase hasked hjob =>
      obtain ⟨hid, hversion⟩ := hkeeps r ht plan (hpending ▸ List.mem_cons_self)
      have hopened : (plan.opened m.site).store = m.site.store ∧
          (plan.opened m.site).now = m.site.now := by
        unfold RunPlan.opened
        split <;> exact ⟨rfl, rfl⟩
      have hfound := Site.askDequeue_answer hasked
      rw [hopened.1, hopened.2] at hfound
      refine ⟨_, _, found, ?_, hfound, ?_, ?_⟩
      · rw [Move.deeds, ht, Task.deeds, Runs.deeds, hpending, hphase]
        simp [Site.deedsOfCall, hasked]
      · simp [hjob, Overrides.apply, hid]
      · simp [hjob, Overrides.apply, hversion]
  obtain ⟨request, cancelled, found, hdeed, hfound, hid, hversion⟩ := hanswer
  rw [← hid, ← hversion]
  refine ⟨fun e he => hs.version_lt_of_dequeue hfound he, ?_⟩
  obtain ⟨e, he, heq⟩ := hs.version_of_dequeue hfound
  refine ⟨e, ?_, heq⟩
  rw [Store.entry?_congr (m.tallied_of_operation hdeed (by simp)).entries]
  exact he

/-- The job of an execution after a move is one of before, or has just been handed out. -/
theorem Ensemble.Sound.job_move (hs : sys.Sound) (ha : a ∈ sys.activities)
    (hb : b ∈ (sys.move a).activities) {x' : Execution} (hx' : b.task.execution? = some x') :
    (∃ c ∈ sys.activities, c.id = b.id ∧ ∃ x, c.task.execution? = some x ∧ x'.job = x.job) ∨
      b.id = a.id ∧ a.task.Obtains sys.site x'.job := by
  rcases hs.execution_move hb hx' with
    ⟨c, hc, hid, -, hx⟩ | ⟨hid, ⟨x, hx, hgo⟩ | ⟨hx, -⟩ | ⟨job, k, rfl, hobtains⟩⟩
  · exact .inl ⟨c, hc, hid, x', hx, rfl⟩
  · exact .inl ⟨a, ha, hid.symm, x, Task.execution?_of_acting? hx, hgo.job_eq.1⟩
  · exact .inl ⟨a, ha, hid.symm, x', hx, rfl⟩
  · exact .inr ⟨hid, hobtains⟩

/-- How the leases of executions are told apart. -/
structure LeasesApart (sys : Ensemble) : Prop where
  /-- No version is above the one that is stored. -/
  stored : ∀ b ∈ sys.activities, ∀ x, b.task.execution? = some x →
    ∃ e, sys.site.store.entry? x.job.id = some e ∧ x.job.version ≤ e.job.version
  apart : ∀ b ∈ sys.activities, ∀ c ∈ sys.activities, ∀ x y, b.task.execution? = some x →
    c.task.execution? = some y → x.job.id = y.job.id → x.job.version = y.job.version → b = c

theorem LeasesApart.move (h : LeasesApart sys) (hs : sys.Sound) (hstore : sys.site.store.Sound)
    (ha : a ∈ sys.activities) (hkeeps : a.task.KeepsLeases) : LeasesApart (sys.move a) := by
  have hnew : ∀ job, a.task.Obtains sys.site job → ∀ c ∈ sys.activities, ∀ y,
      c.task.execution? = some y → job.id = y.job.id → job.version ≠ y.job.version := by
    intro job hobtains c hc y hy hid hversion
    obtain ⟨e, he, hle⟩ := h.stored c hc y hy
    have hlt := (Move.version_of_obtains (m := ⟨sys, a⟩) hstore hkeeps hobtains).1 e (hid ▸ he)
    omega
  constructor
  case stored =>
    intro b hb x' hx'
    rcases hs.job_move ha hb hx' with ⟨c, hc, -, x, hx, hjob⟩ | ⟨-, hobtains⟩
    · obtain ⟨e, he, hle⟩ := h.stored c hc x hx
      obtain ⟨e', he', hto⟩ := Move.leadsTo (m := ⟨sys, a⟩) hstore he
      exact ⟨e', hjob ▸ he', hjob ▸ Int.le_trans hle hto.version_le⟩
    · obtain ⟨-, e, he, hversion⟩ :=
        Move.version_of_obtains (m := ⟨sys, a⟩) hstore hkeeps hobtains
      exact ⟨e, he, Int.le_of_eq hversion.symm⟩
  case apart =>
    intro b hb c hc x' y' hx' hy' hid hversion
    refine Ensemble.eq_of_id_eq (hs.activities_move a).1 hb hc ?_
    rcases hs.job_move ha hb hx' with ⟨d, hd, hbid, x, hx, hxjob⟩ | ⟨hbid, hobtains⟩
    · rw [hxjob] at hid hversion
      rcases hs.job_move ha hc hy' with ⟨e, he, hcid, y, hy, hyjob⟩ | ⟨-, hobtains⟩
      · rw [hyjob] at hid hversion
        rw [← hbid, ← hcid, h.apart d hd e he x y hx hy hid hversion]
      · exact absurd hversion.symm (hnew _ hobtains d hd x hx hid.symm)
    · rcases hs.job_move ha hc hy' with ⟨e, he, -, y, hy, hyjob⟩ | ⟨hcid, -⟩
      · rw [hyjob] at hid hversion
        exact absurd hversion (hnew _ hobtains e he y hy hid)
      · exact hbid.trans hcid.symm

theorem Interleaving.leasesApart (h : Interleaving lapse start history sys) (hs : start.Opening)
    (hstore : start.site.store.Sound) (hplans : ∀ b ∈ start.activities, b.task.KeepsLeases) :
    LeasesApart sys := by
  induction h with
  | nil =>
    have hnone : ∀ b ∈ start.activities, b.task.execution? = none :=
      fun b hb => (hs.fresh b hb).execution?
    refine ⟨fun b hb x hx => ?_, fun b hb c _ x y hx => ?_⟩
    · exact absurd ((hnone b hb).symm.trans hx) (by simp)
    · exact absurd ((hnone b hb).symm.trans hx) (by simp)
  | move h ha _ ih =>
    exact ih.move (h.sound hs.toSound) (h.store_sound hstore) ha
      (h.keepsLeases hs.toSound hplans _ ha)
  | pause h hp ih =>
    refine ⟨fun b hb x hx => ?_, fun b hb c hc x y hx hy hid hversion => ?_⟩
    · obtain ⟨d, hd, -, htask⟩ := hp.exists_task hb
      exact hp.store_eq ▸ ih.stored d hd x (htask ▸ hx)
    · obtain ⟨d, hd, hbid, hbtask⟩ := hp.exists_task hb
      obtain ⟨e, he, hcid, hctask⟩ := hp.exists_task hc
      obtain rfl := ih.apart d hd e he x y (hbtask ▸ hx) (hctask ▸ hy) hid hversion
      exact Ensemble.eq_of_id_eq (hp.sound (h.sound hs.toSound)).nodup hb hc (hbid.symm.trans hcid)

/-! ## The bounds -/

/-- That the parallelism in an ensemble is bounded, after a history. -/
structure ParallelismBounded (history : List Move) (sys : Ensemble) : Prop where
  /-- A pool runs no more handlers than it was asked to run loops, or one. -/
  pools : ∀ before m after, history = before ++ m :: after → ∀ p, m.mover.task = .pool p →
    p.phase = .fresh →
    sys.handlers (fun _ => true) (lineage m.mover.id (m :: after)) ≤ max p.workers 1
  /-- A service runs no more handlers for a queue than its entries for that queue allow. -/
  services : ∀ before m after, history = before ++ m :: after → ∀ v, m.mover.task = .service v →
    v.phase = .fresh → ∀ queue,
    sys.handlers (· = queue) (lineage m.mover.id (m :: after)) ≤ v.loops queue ∧
      ((∀ q ∈ v.queues, 1 ≤ q.workers) →
        sys.handlers (· = queue) (lineage m.mover.id (m :: after)) ≤ v.count queue)
  /-- Every list of entries that can be read asks for at least one loop in each. -/
  counted : ∀ text queues, HostedQueue.parseList text = .ok queues → ∀ q ∈ queues, 1 ≤ q.workers
  /-- Between two calls of a loop for a job, it is through with the job that it was given. -/
  rounds : ∀ before g between n after, history = before ++ g :: (between ++ n :: after) →
    ∀ l, g.mover.task = .loop l → ∀ job, g.mover.task.Obtains g.site job →
    ∀ l', n.mover.task = .loop l' → n.mover.id = g.mover.id → l'.Polls →
    Executed between g.mover.id job
  /-- No two tasks execute one job under one version. -/
  apart : ∀ b ∈ sys.activities, ∀ c ∈ sys.activities, b ≠ c → ∀ x y,
    b.task.execution? = some x → c.task.execution? = some y →
    (x.job.id, x.job.version) ≠ (y.job.id, y.job.version)

/-- What comes of a task runs no more handlers than the task had room for. -/
theorem Interleaving.handlers_le {before after : List Move}
    (h : Interleaving lapse start (before ++ m :: after) sys) (hs : start.Opening)
    (wanted : Queue → Bool) :
    sys.handlers wanted (lineage m.mover.id (m :: after)) ≤ m.mover.task.capacity wanted := by
  obtain ⟨hbefore, hmover, hfree, hafter⟩ := h.split
  have hsound := hbefore.sound hs.toSound
  have hlater : Interleaving lapse m.sys (m :: after) sys :=
    (Interleaving.nil.move hmover hfree).append hafter
  exact Nat.le_trans (Ensemble.handlers_le_capacity (h.keepsQueue hs))
    (hlater.capacity_le hsound hmover)

/-- Whatever the order in which tasks move: pools and services run no more handlers at once than
they should, a loop is through with one job before it calls for the next, and no lease is worked on
twice. -/
theorem parallelism_is_bounded (hstart : start.Opening) (hstore : start.site.store.Sound)
    (hplans : ∀ b ∈ start.activities, b.task.KeepsLeases)
    (h : Interleaving lapse start history sys) : ParallelismBounded history sys := by
  constructor
  case pools =>
    rintro before m after rfl p ht hphase
    have hle := h.handlers_le hstart fun _ => true
    rwa [ht, Task.capacity, hphase] at hle
  case services =>
    rintro before m after rfl v ht hphase queue
    have hle := h.handlers_le hstart fun q => decide (q = queue)
    have hloops : m.mover.task.capacity (fun q => decide (q = queue)) = v.loops queue := by
      rw [ht, Task.capacity, hphase]
      exact v.capacity_eq_loops queue
    rw [hloops] at hle
    exact ⟨hle, fun hcounts => Service.loops_eq_count hcounts queue ▸ hle⟩
  case counted => exact fun text queues h => HostedQueue.one_le_workers_of_parseList h
  case rounds =>
    rintro before g between n after rfl l ht job hobtains l' ht' hid hpolls
    obtain ⟨hbefore, hg, -, hafter⟩ := h.split
    obtain ⟨hbetween, hn, -, -⟩ := hafter.split
    have hsound := hbefore.sound hstart.toSound
    rcases hbetween.occupied (hsound.move _ hg) (Move.occupied_of_obtains hsound hg ht hobtains) with
      hoccupied | hexecuted
    · obtain ⟨l'', x, hl, hphase, -⟩ := hoccupied.now n.mover hn hid
      obtain rfl := Task.loop.inj (ht'.symm.trans hl)
      obtain ⟨stage, hpolling⟩ := hpolls
      simp [hphase] at hpolling
    · exact hexecuted
  case apart =>
    intro b hb c hc hne x y hx hy heq
    obtain ⟨hid, hversion⟩ := Prod.mk.inj heq
    exact hne ((h.leasesApart hstart hstore hplans).apart b hb c hc x y hx hy hid hversion)

/-- A service with two entries for one queue, and a job whose handler outlasts its lease. -/
def relet : Ensemble :=
  let turn : Engine.Turn := ⟨[.sleep 4000000], .returns (.ok "late")⟩
  let site :=
    { Site.initial with
      ready := true
      registry := Registry.empty.register .exports none (.scripted 0 "slow" [turn, turn]) }
  let entry := HostedQueue.ofQueue .exports
  ((Ensemble.ofSite site).host (.timeline (.ofList [(0, .enqueue .exports "" none 1)]))).host
    (.service (.fresh [entry, entry.withWorkers 2] "a" site.shutdown))

/-- The loop of the first entry begins with the job and is left alone until its lease has expired.
A loop of the second one takes the job over. -/
def reletTurns : List Turn :=
  [Turn.go 0, .go 1, .go 1, .go 2, .go 3, .go 4, .go 5, .pass 2000] ++
    List.replicate 6 (Turn.go 4) ++ [Turn.go 5, .pass 1900000] ++ List.replicate 4 (Turn.go 5)

theorem opening_relet : relet.Opening := by
  refine ((Ensemble.opening_ofSite rfl rfl ?_).host ?_).host ?_
  · exact fun t ht => absurd ht List.not_mem_nil
  · exact trivial
  · rfl

theorem keepsLeases_relet : ∀ b ∈ relet.activities, b.task.KeepsLeases := by
  intro b hb r ht
  have hactivities : relet.activities = [_, _] := rfl
  rw [hactivities] at hb
  obtain rfl | rfl := List.mem_pair.mp hb <;> exact absurd ht (by simp)

theorem parallelism_is_bounded_relet :
    let history := (relet.follow anytime reletTurns).1
    let sys := (relet.follow anytime reletTurns).2
    sys.activities.filterMap (fun b => b.task.execution?.map fun x =>
        (b.id, x.job.id, x.job.version, x.running?.isSome)) = [(4, 1, 1, true), (5, 1, 2, true)] ∧
      sys.handlers (fun _ => true) (lineage 2 (history.drop 3)) = 1 ∧
      sys.handlers (· = .exports) (lineage 1 (history.drop 1)) = 2 ∧
      ParallelismBounded history sys := by
  refine ⟨by decide +kernel, by decide +kernel, by decide +kernel, ?_⟩
  exact parallelism_is_bounded opening_relet (Store.sound_empty _) keepsLeases_relet
    (Ensemble.interleaving_follow anytime reletTurns relet)

end Host

end LeasedWork
