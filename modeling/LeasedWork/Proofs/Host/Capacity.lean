import LeasedWork.Proofs.Engine.Polling
import LeasedWork.Proofs.Host.Closing
import LeasedWork.Proofs.Host.Guarding
import Mathlib.Algebra.BigOperators.Group.List.Basic
import Mathlib.Algebra.GroupWithZero.Nat
import Mathlib.Algebra.Order.BigOperators.Group.List

/-!
# How many handlers can run at once

A task has room for some handlers: a loop for one, a pool that has not started yet for as many as it
will have loops, a service for those of its pools. A task that starts others passes its room on to
them, and nothing makes any. So all that comes of one task has room for no more handlers than it
had, and each handler that runs takes the room of its loop.
-/
namespace LeasedWork

/-- A job that is handed out is one of the queue that was asked for. -/
theorem Store.queue_of_dequeue {s : Store} {request : LeaseRequest} {cancelled : Bool}
    {now : Time.Instant} {job : Job} (h : (s.dequeue request cancelled now).1 = .ok (some job)) :
    job.queue = request.queue := by
  unfold dequeue at h
  dsimp only at h
  split at h
  · exact absurd h (by simp)
  · split at h
    · exact absurd h (by simp)
    · split at h
      · exact absurd h (by simp)
      · rename_i e hfind
        have heligible := List.find?_some hfind
        simp only [Except.ok.injEq, Option.some.injEq] at h
        simp only [isEligible, Bool.and_eq_true, decide_eq_true_eq] at heligible
        rw [← h]
        exact heligible.1.1

namespace Engine

/-- How many handlers a task that is to be started has room for, in loops for queues that satisfy a
condition. -/
def Start.capacity (wanted : Queue → Bool) : Start → Nat
  | .heartbeat _ _ _ _ => 0
  | .loop queue _ _ _ => if wanted queue then 1 else 0
  | .pool queue workers _ _ => if wanted queue then max workers 1 else 0
  | .service queues _ _ =>
    ((queues.filter (·.enabled)).map fun h => if wanted h.queue then max h.workers 1 else 0).sum

/-- A pool that has moved watches its loops, for the same queue. -/
theorem Pool.watching_of_state? {s : Site} {p p' : Pool} (h : (p.step s).1.state? = some p') :
    p'.queue = p.queue ∧ ∃ f, p'.phase = .watching f := by
  simp only [step, Site.within] at h
  cases hphase : p.phase with
  | fresh =>
    simp only [hphase] at h
    obtain rfl := Option.some.inj h
    exact ⟨rfl, _, rfl⟩
  | watching f =>
    simp only [hphase] at h
    rcases f.step_cases { s with span := some p.span } with
      ⟨-, hp⟩ | ⟨_, _, -, -, hp⟩ | ⟨-, -, hp⟩
    · simp [hp, Progress.state?] at h
    · simp only [hp] at h
      obtain rfl := Option.some.inj h
      exact ⟨rfl, _, rfl⟩
    · simp only [hp] at h
      obtain rfl := Option.some.inj h
      exact ⟨rfl, _, rfl⟩

/-- A service that has moved waits, if it has not done so before, or watches its pools. -/
theorem Service.of_state? {s : Site} {v v' : Service} (h : (v.step s).1.state? = some v') :
    (v.phase = .fresh ∧ v' = { v with phase := .waiting }) ∨ ∃ f, v'.phase = .watching f := by
  unfold step at h
  cases hphase : v.phase with
  | fresh =>
    simp only [hphase] at h
    split at h
    · simp [Progress.state?] at h
    · exact .inl ⟨rfl, (Option.some.inj h).symm⟩
  | waiting =>
    simp only [hphase] at h
    split at h
    · simp [Progress.state?] at h
    · obtain rfl := Option.some.inj h
      exact .inr ⟨_, rfl⟩
  | watching f =>
    simp only [hphase] at h
    rcases f.step_cases s with ⟨-, hp⟩ | ⟨_, _, -, -, hp⟩ | ⟨-, -, hp⟩
    · simp [hp, Progress.state?] at h
    · simp only [hp] at h
      obtain rfl := Option.some.inj h
      exact .inr ⟨_, rfl⟩
    · simp only [hp] at h
      obtain rfl := Option.some.inj h
      exact .inr ⟨_, rfl⟩

end Engine

namespace Host

open Engine

theorem Conductor.phase_of_state? {s : Site} {c c' : Conductor}
    (h : (c.step s).1.state? = some c') : c'.phase ≠ .fresh := by
  intro hphase'
  unfold step at h
  split at h
  · obtain rfl := Option.some.inj h
    exact absurd hphase' (by simp)
  · dsimp only at h
    split at h
    · split at h
      · obtain rfl := Option.some.inj h
        exact absurd hphase' (by simp)
      · split at h
        · obtain rfl := Option.some.inj h
          exact absurd hphase' (by simp)
        · obtain rfl := Option.some.inj h
          simp_all
    · split at h
      · obtain rfl := Option.some.inj h
        exact absurd hphase' (by simp)
      · obtain rfl := Option.some.inj h
        simp_all
  · split at h
    · obtain rfl := Option.some.inj h
      exact absurd hphase' (by simp)
    · obtain rfl := Option.some.inj h
      simp_all
  · split at h
    · obtain rfl := Option.some.inj h
      exact absurd hphase' (by simp)
    · obtain rfl := Option.some.inj h
      simp_all
  · obtain rfl := Option.some.inj h
    simp_all

variable {lapse : Ensemble → Nat → Prop} {start mid sys next : Ensemble} {history : List Move}
  {a b c : Activity} {wanted : Queue → Bool} {s : Site} {t t' : Task} {ids : List TaskId} {m : Move}

/-! ## Room -/

/-- How many handlers a task has room for. A task that has started others has passed its room on. -/
def Task.capacity (wanted : Queue → Bool) : Task → Nat
  | .loop l => if wanted l.queue then 1 else 0
  | .pool p =>
    match p.phase with
    | .fresh => (Start.pool p.queue p.workers p.worker p.shutdown).capacity wanted
    | .watching _ => 0
  | .service v =>
    match v.phase with
    | .fresh | .waiting => (Start.service v.queues v.worker v.shutdown).capacity wanted
    | .watching _ => 0
  | .conductor c =>
    match c.phase with
    | .fresh => c.task.capacity wanted
    | .running _ | .lingering | .stopping _ | .over => 0
  | .runs _ => 1
  | .heartbeat _ | .timeline _ | .listener _ | .eventLog _ | .watch _ => 0

theorem Task.capacity_ofStart (start : Start) :
    (Task.ofStart start).capacity wanted = start.capacity wanted := by
  cases start <;> rfl

theorem Task.capacity_stop (t : Task) : t.stop.capacity wanted = t.capacity wanted := by
  cases t <;> rfl

/-- A task does not gain room. -/
theorem Task.capacity_of_state? (h : (t.step s).1.state? = some t') :
    t'.capacity wanted ≤ t.capacity wanted := by
  cases t with
  | loop l =>
    obtain ⟨l', hl, rfl⟩ := state?_within h
    rw [capacity, capacity, (PollLoop.proceeds_step s l l' hl).1.queue]
  | pool p =>
    obtain ⟨p', hp, rfl⟩ := state?_within h
    obtain ⟨-, f, hf⟩ := Pool.watching_of_state? hp
    simp [capacity, hf]
  | service v =>
    obtain ⟨v', hv, rfl⟩ := state?_within h
    rcases Service.of_state? hv with ⟨hphase, rfl⟩ | ⟨f, hf⟩
    · simp [capacity, hphase]
    · simp [capacity, hf]
  | conductor c =>
    obtain ⟨c', hc, rfl⟩ := state?_within h
    have hphase := Conductor.phase_of_state? hc
    cases hphase' : c'.phase with
    | fresh => exact absurd hphase' hphase
    | _ => simp [capacity, hphase']
  | _ =>
    obtain ⟨_, -, rfl⟩ := state?_within h
    exact Nat.le_refl _

/-- What a task starts has no room of its own, unless the task passes its own on to it. -/
theorem Task.capacity_launched_eq_zero (hs : s.starting = [])
    (h : ∀ word, .spawn word ∈ t.deeds s → word.capacity wanted = 0) :
    ((t.step s).2.starting.map (·.2.capacity wanted)).sum = 0 := by
  refine List.sum_eq_zero fun n hn => ?_
  obtain ⟨word, hword, rfl⟩ := List.mem_map.mp hn
  rw [(t.aside_step s).starting] at hword
  rcases Deed.mem_starting_onAll s _ hword with hold | hspawn
  · rw [hs] at hold
    exact absurd hold List.not_mem_nil
  · exact h word.2 hspawn

/-- The room of what a site has been told to start, in the order in which that was. -/
theorem sum_starting_reverse (s : Site) :
    ((s.starting.reverse.map (·.2)).map (Start.capacity wanted)).sum =
      (s.starting.map (·.2.capacity wanted)).sum := by
  rw [List.map_map, List.map_reverse, List.sum_reverse]
  rfl

/-- A pool has as much room as the loops that it starts. -/
theorem Pool.capacity_launched {p : Pool} (hs : s.starting = []) (hphase : p.phase = .fresh)
    (wanted : Queue → Bool) :
    ((p.step s).2.starting.map (·.2.capacity wanted)).sum =
      (Start.pool p.queue p.workers p.worker p.shutdown).capacity wanted := by
  obtain ⟨f, -, -, -, -, hlaunched⟩ := Pool.step_of_fresh hs hphase
  rw [← sum_starting_reverse, hlaunched, List.map_map]
  have hloops : (Start.capacity wanted ∘ fun slot =>
      Start.loop p.queue p.worker slot (s.newToken p.shutdown)) =
      fun _ => if wanted p.queue then 1 else 0 := rfl
  rw [hloops, List.map_const', List.sum_replicate, List.length_range]
  simp [Start.capacity, Pool.size]

/-- A service has as much room as the pools that it starts. -/
theorem Service.capacity_launched {v : Service} (hs : s.starting = []) (hphase : v.phase = .waiting)
    (hready : s.isCancelled v.shutdown = false) (wanted : Queue → Bool) :
    ((v.step s).2.starting.map (·.2.capacity wanted)).sum =
      (Start.service v.queues v.worker v.shutdown).capacity wanted := by
  obtain ⟨f, -, -, -, -, hlaunched⟩ := Service.step_of_waiting hs hphase hready
  rw [← sum_starting_reverse, hlaunched, List.map_map]
  rfl

/-- With what it starts, a task has room for no more handlers than before. -/
theorem Task.capacity_step (hs : s.starting = []) (t : Task) (wanted : Queue → Bool) :
    ((t.step s).2.starting.map (·.2.capacity wanted)).sum +
      ((t.step s).1.state?.map (·.capacity wanted)).getD 0 ≤ t.capacity wanted := by
  by_cases hpool : ∃ p, t = .pool p ∧ p.phase = .fresh
  · obtain ⟨p, rfl, hphase⟩ := hpool
    obtain ⟨f, hmore, -⟩ := Pool.step_of_fresh hs hphase
    have hlaunched := Pool.capacity_launched hs hphase wanted
    simp [step, hmore, Progress.within, Progress.state?, hlaunched, capacity, hphase]
  by_cases hservice : ∃ v, t = .service v ∧ v.phase = .waiting ∧ s.isCancelled v.shutdown = false
  · obtain ⟨v, rfl, hphase, hready⟩ := hservice
    obtain ⟨f, hmore, -⟩ := Service.step_of_waiting hs hphase hready
    have hlaunched := Service.capacity_launched hs hphase hready wanted
    simp [step, hmore, Progress.within, Progress.state?, hlaunched, capacity, hphase]
  by_cases hconductor : ∃ c, t = .conductor c ∧ c.phase = .fresh
  · obtain ⟨c, rfl, hphase⟩ := hconductor
    simp [step, Conductor.step, hphase, Progress.within, Progress.state?, capacity, Site.spawn, hs]
  · rw [capacity_launched_eq_zero hs, Nat.zero_add]
    · cases h : (t.step s).1.state? with
      | none => exact Nat.zero_le _
      | some t' => exact capacity_of_state? h
    · intro word hword
      cases origin_of_mem_deeds t.within_trivial hword with
      | spawnLoop ht hphase => exact absurd ⟨_, ht, hphase⟩ hpool
      | spawnPool ht hphase hready => exact absurd ⟨_, ht, hphase, hready⟩ hservice
      | spawnHosting ht hphase => exact absurd ⟨_, ht, hphase⟩ hconductor
      | beats => rfl

/-! ## What comes of a task -/

/-- How many handlers a task has room for if its number is one of some. -/
def Activity.capacity (wanted : Queue → Bool) (ids : List TaskId) (a : Activity) : Nat :=
  if a.id ∈ ids then a.task.capacity wanted else 0

theorem Activity.capacity_heeding (stopped : List TaskId) (a : Activity) :
    (a.heeding stopped).capacity wanted ids = a.capacity wanted ids := by
  unfold heeding
  split
  · exact congrArg (if a.id ∈ ids then · else 0) a.task.capacity_stop
  · rfl

/-- The numbers of some tasks, and of those that one of them starts in a move. -/
def Move.heirs (m : Move) (ids : List TaskId) : List TaskId :=
  if m.mover.id ∈ ids then ids ++ m.launched.map (·.1) else ids

/-- The number of a task and those of all that it has started, directly or not. -/
def lineage (root : TaskId) (history : List Move) : List TaskId :=
  history.foldl (fun ids m => m.heirs ids) [root]

theorem lineage_snoc (root : TaskId) (history : List Move) (m : Move) :
    lineage root (history ++ [m]) = m.heirs (lineage root history) := by
  rw [lineage, List.foldl_append]
  rfl

namespace Ensemble

/-- How many handlers the tasks of some numbers have room for. -/
def capacity (wanted : Queue → Bool) (ids : List TaskId) (sys : Ensemble) : Nat :=
  (sys.activities.map (Activity.capacity wanted ids)).sum

/-- An activity and the others. -/
theorem Sound.perm_others (hs : sys.Sound) (ha : a ∈ sys.activities) :
    sys.activities.Perm (a :: sys.activities.filter (·.id ≠ a.id)) := by
  have hnodup : sys.activities.Nodup := hs.nodup.of_map _
  refine (List.perm_ext_iff_of_nodup hnodup ?_).mpr fun b => ?_
  · exact List.nodup_cons.mpr ⟨by simp, hnodup.filter _⟩
  · simp only [List.mem_cons, List.mem_filter, decide_eq_true_eq]
    constructor
    · intro hb
      by_cases hid : b.id = a.id
      · exact .inl (eq_of_id_eq hs.nodup hb ha hid)
      · exact .inr ⟨hb, hid⟩
    · rintro (rfl | ⟨hb, -⟩)
      · exact ha
      · exact hb

/-- The tasks after a move are the one that moved, if it goes on, with the others and those that
were started. -/
theorem Sound.perm_move (hs : sys.Sound) (ha : a ∈ sys.activities) :
    ∃ going : List Activity, (sys.move a).activities.Perm ((going ++
      sys.activities.filter (·.id ≠ a.id) ++
        (a.task.step sys.site).2.starting.reverse.map Activity.started).map
          (Activity.heeding (a.task.step sys.site).2.stopping)) ∧
      (∀ b ∈ going, b.id = a.id) ∧
      going.map (·.task) = (a.task.step sys.site).1.state?.toList := by
  rw [(hs.activities_move a).2]
  rcases sys.activities_moved a with ⟨c, hid, hgo, hmoved⟩ | ⟨hended, hmoved⟩
  · refine ⟨[c], ((List.Perm.append_right _ ?_).map _), by simpa using hid, ?_⟩
    · rw [hmoved]
      refine ((hs.perm_others ha).map _).trans (List.Perm.of_eq ?_)
      rw [List.map_cons, if_pos rfl]
      refine congrArg (c :: ·) ((List.map_congr_left fun b hb => ?_).trans (List.map_id _))
      exact if_neg (by simpa using (List.mem_filter.mp hb).2)
    · rw [hgo.state?]
      rfl
  · refine ⟨[], ?_, by simp, ?_⟩
    · rw [hmoved]
      exact List.Perm.refl _
    · rcases hended with hended | hended <;> rw [hended] <;> rfl

/-- A move makes no room. -/
theorem Sound.capacity_move (hs : sys.Sound) (ha : a ∈ sys.activities)
    (hids : ∀ id ∈ ids, id < sys.site.nextTask) :
    (sys.move a).capacity wanted (Move.heirs ⟨sys, a⟩ ids) ≤ sys.capacity wanted ids := by
  obtain ⟨going, hmoved, hgoing, hstate⟩ := hs.perm_move ha
  let ids' := Move.heirs ⟨sys, a⟩ ids
  let rest := sys.activities.filter (·.id ≠ a.id)
  have hlaunched : ∀ id ∈ (Move.launched ⟨sys, a⟩).map (·.1), sys.site.nextTask ≤ id :=
    fun id hid => le_of_launched hs hid
  have hrest : ∀ b ∈ rest, b.capacity wanted ids' = b.capacity wanted ids := by
    intro b hb
    have hlt := hs.bounded b (List.mem_filter.mp hb).1
    have hmem : b.id ∈ ids' ↔ b.id ∈ ids := by
      simp only [ids', Move.heirs]
      split
      · rw [List.mem_append, or_iff_left fun hid => Nat.not_lt.mpr (hlaunched _ hid) hlt]
      · exact Iff.rfl
    simp only [Activity.capacity, hmem]
  have hbefore : sys.capacity wanted ids =
      a.capacity wanted ids + (rest.map (Activity.capacity wanted ids)).sum := by
    rw [capacity, ((hs.perm_others ha).map _).sum_eq, List.map_cons, List.sum_cons]
  have hafter : (sys.move a).capacity wanted ids' =
      (going.map (Activity.capacity wanted ids')).sum +
        (rest.map (Activity.capacity wanted ids)).sum +
        (((a.task.step sys.site).2.starting.reverse.map Activity.started).map
          (Activity.capacity wanted ids')).sum := by
    rw [capacity, (hmoved.map _).sum_eq, List.map_map]
    have hheeding : Activity.capacity wanted ids' ∘
        Activity.heeding (a.task.step sys.site).2.stopping = Activity.capacity wanted ids' :=
      funext fun b => b.capacity_heeding _
    rw [hheeding, List.map_append, List.map_append, List.sum_append, List.sum_append,
      List.map_congr_left hrest]
  suffices hmover : (going.map (Activity.capacity wanted ids')).sum +
      (((a.task.step sys.site).2.starting.reverse.map Activity.started).map
        (Activity.capacity wanted ids')).sum ≤ a.capacity wanted ids by
    rw [hafter, hbefore]
    omega
  have hstep := a.task.capacity_step hs.starting wanted
  by_cases hid : a.id ∈ ids
  · have hids' : ids' = ids ++ (Move.launched ⟨sys, a⟩).map (·.1) := if_pos hid
    have hgoes : going.map (Activity.capacity wanted ids') =
        (going.map (·.task)).map (Task.capacity wanted) := by
      rw [List.map_map]
      refine List.map_congr_left fun b hb => if_pos ?_
      rw [hgoing b hb, hids']
      exact List.mem_append_left _ hid
    have hstarted : ((a.task.step sys.site).2.starting.reverse.map Activity.started).map
        (Activity.capacity wanted ids') =
        ((a.task.step sys.site).2.starting.reverse.map (·.2)).map (Start.capacity wanted) := by
      rw [List.map_map, List.map_map]
      refine List.map_congr_left fun word hword => ?_
      refine (if_pos ?_).trans (Task.capacity_ofStart word.2)
      rw [hids']
      exact List.mem_append_right _ (List.mem_map_of_mem hword)
    rw [hgoes, hstate, hstarted, sum_starting_reverse, Activity.capacity, if_pos hid, Nat.add_comm]
    cases hs' : (a.task.step sys.site).1.state? <;> simpa [hs'] using hstep
  · have hids' : ids' = ids := if_neg hid
    have hgoes : ∀ n ∈ going.map (Activity.capacity wanted ids'), n = 0 := by
      intro n hn
      obtain ⟨b, hb, rfl⟩ := List.mem_map.mp hn
      exact if_neg (by rwa [hgoing b hb, hids'])
    have hstarted : ∀ n ∈ ((a.task.step sys.site).2.starting.reverse.map Activity.started).map
        (Activity.capacity wanted ids'), n = 0 := by
      intro n hn
      obtain ⟨b, hb, rfl⟩ := List.mem_map.mp hn
      obtain ⟨word, hword, rfl⟩ := List.mem_map.mp hb
      refine if_neg fun hmem => ?_
      rw [hids'] at hmem
      exact Nat.not_lt.mpr (hlaunched _ (List.mem_map_of_mem hword)) (hids _ hmem)
    rw [List.sum_eq_zero hgoes, List.sum_eq_zero hstarted]
    exact Nat.zero_le _

end Ensemble

/-- A pause leaves all room as it is. -/
theorem Pause.capacity_eq (hp : Pause lapse sys next) :
    next.capacity wanted ids = sys.capacity wanted ids := by
  have hmap : ∀ sys : Ensemble, sys.activities.map (Activity.capacity wanted ids) =
      (sys.activities.map fun a => (a.id, a.task)).map fun a =>
        if a.1 ∈ ids then a.2.capacity wanted else 0 := by
    intro sys
    rw [List.map_map]
    rfl
  rw [Ensemble.capacity, hmap, hp.tasks_eq, ← hmap, Ensemble.capacity]

/-- All that comes of a task was numbered after it. -/
theorem Interleaving.lineage_lt (h : Interleaving lapse mid history sys) (hs : mid.Sound)
    (ha : a ∈ mid.activities) : ∀ id ∈ lineage a.id history, id < sys.site.nextTask := by
  induction h with
  | nil =>
    intro id hid
    exact List.mem_singleton.mp hid ▸ hs.bounded a ha
  | @move history sys b h hb _ ih =>
    intro id hid
    rw [lineage_snoc, Move.heirs] at hid
    have hle := Ensemble.nextTask_le_move (h.sound hs) b
    split at hid
    · rcases List.mem_append.mp hid with hid | hid
      · exact Nat.lt_of_lt_of_le (ih id hid) hle
      · have hthere := ((h.sound hs).mem_ids_move hb).mpr (.inr hid)
        obtain ⟨c, hc, rfl⟩ := List.mem_map.mp hthere
        exact ((h.sound hs).move b hb).bounded c hc
    · exact Nat.lt_of_lt_of_le (ih id hid) hle
  | pause _ hp ih =>
    obtain ⟨clock, -, hsite⟩ := hp.site_eq
    rw [hsite]
    exact ih

/-- All that comes of a task has room for no more handlers than it had. -/
theorem Interleaving.capacity_le (h : Interleaving lapse mid history sys) (hs : mid.Sound)
    (ha : a ∈ mid.activities) :
    sys.capacity wanted (lineage a.id history) ≤ a.task.capacity wanted := by
  induction h with
  | nil =>
    have hothers : ∀ n ∈ (mid.activities.filter (·.id ≠ a.id)).map
        (Activity.capacity wanted (lineage a.id [])), n = 0 := by
      intro n hn
      obtain ⟨b, hb, rfl⟩ := List.mem_map.mp hn
      exact if_neg fun hid => by simp_all [lineage]
    have hroot : a.id ∈ lineage a.id [] := List.mem_singleton.mpr rfl
    rw [Ensemble.capacity, ((hs.perm_others ha).map _).sum_eq, List.map_cons, List.sum_cons,
      List.sum_eq_zero hothers, Activity.capacity, if_pos hroot]
    exact Nat.le_refl _
  | move h hb _ ih =>
    rw [lineage_snoc]
    exact Nat.le_trans ((h.sound hs).capacity_move hb (h.lineage_lt hs ha)) ih
  | pause _ hp ih => exact hp.capacity_eq ▸ ih

/-! ## Handlers that run -/

/-- Whether a loop executes nothing but jobs of its queue. -/
def Task.KeepsQueue (t : Task) : Prop :=
  ∀ l x, t = .loop l → l.phase = .executing x → x.job.queue = l.queue

theorem Task.KeepsQueue.of_state? (ht : t.KeepsQueue) (h : (t.step s).1.state? = some t') :
    t'.KeepsQueue := by
  rintro l' x' rfl hx'
  cases t with
  | loop l =>
    obtain ⟨_, hl, heq⟩ : ∃ l', (l.step s).1.state? = some l' ∧ Task.loop l' = _ := state?_within h
    obtain rfl := Task.loop.inj heq
    rw [(PollLoop.proceeds_step s l _ hl).1.queue]
    rcases executing_of_loop hl hx' with ⟨x, hx, hgo⟩ | ⟨expired, job, rfl, -, hasked⟩
    · exact hgo.job_eq.1 ▸ ht l x rfl hx
    · exact Store.queue_of_dequeue (Site.askDequeue_answer hasked)
  | _ =>
    obtain ⟨_, -, heq⟩ := state?_within h
    exact absurd heq (by simp)

theorem Interleaving.keepsQueue (h : Interleaving lapse start history sys) (hs : start.Opening) :
    ∀ a ∈ sys.activities, a.task.KeepsQueue := by
  induction h with
  | nil =>
    intro a ha l x hl hx
    have hfresh := hs.fresh a ha
    rw [hl] at hfresh
    have hphase : l.phase = .gate := hfresh
    exact absurd (hphase.symm.trans hx) (by simp)
  | @move history sys a h ha _ ih =>
    refine (h.sound hs.toSound).tasks_move (fun t ht => ?_) (fun b hb _ => ih b hb)
      (fun t ht => (ih a ha).of_state? ht) (fun start _ => ?_)
    · cases t with
      | heartbeat => exact fun l x hl => absurd hl (by simp [Task.stop])
      | _ => exact ht
    · obtain ⟨id, start⟩ := start
      intro l x hl hx
      cases start <;> simp only [Task.ofStart, Task.loop.injEq, reduceCtorEq] at hl
      subst hl
      simp [PollLoop.fresh] at hx
  | pause _ hp ih =>
    intro b hb
    obtain ⟨c, hc, -, htask⟩ := hp.exists_task hb
    exact htask ▸ ih c hc

/-- Whether a task is running the handler of a job of a queue that satisfies a condition. -/
def Task.runsHandler (wanted : Queue → Bool) (t : Task) : Bool :=
  t.execution?.any fun x => x.running?.isSome && wanted x.job.queue

/-- How many handlers the tasks of some numbers are running, of jobs of queues that satisfy a
condition. -/
def Ensemble.handlers (wanted : Queue → Bool) (ids : List TaskId) (sys : Ensemble) : Nat :=
  sys.activities.countP fun b => decide (b.id ∈ ids) && b.task.runsHandler wanted

/-- A handler takes room. -/
theorem Task.one_le_capacity (hqueue : t.KeepsQueue) (h : t.runsHandler wanted = true) :
    1 ≤ t.capacity wanted := by
  obtain ⟨x, hx, hruns⟩ := (Option.any_eq_true _ _).mp h
  rw [Bool.and_eq_true] at hruns
  cases t with
  | loop l =>
    simp only [execution?] at hx
    split at hx
    · rename_i hphase
      obtain rfl := Option.some.inj hx
      rw [capacity, ← hqueue l _ rfl hphase, if_pos hruns.2]
    · exact absurd hx (by simp)
  | runs r => exact Nat.le_refl 1
  | _ => exact absurd hx (by simp [execution?])

theorem countP_le_sum_map {α : Type} {p : α → Bool} {f : α → Nat} {l : List α}
    (h : ∀ b ∈ l, p b = true → 1 ≤ f b) : l.countP p ≤ (l.map f).sum := by
  induction l with
  | nil => exact Nat.le_refl _
  | cons b rest ih =>
    have hrest := ih fun c hc => h c (List.mem_cons_of_mem _ hc)
    rw [List.countP_cons, List.map_cons, List.sum_cons]
    split
    · have hb := h b List.mem_cons_self ‹_›
      omega
    · omega

theorem Ensemble.handlers_le_capacity (h : ∀ b ∈ sys.activities, b.task.KeepsQueue) :
    sys.handlers wanted ids ≤ sys.capacity wanted ids := by
  refine countP_le_sum_map fun b hb hruns => ?_
  rw [Bool.and_eq_true, decide_eq_true_eq] at hruns
  rw [Activity.capacity, if_pos hruns.1]
  exact Task.one_le_capacity (h b hb) hruns.2

end Host

end LeasedWork
