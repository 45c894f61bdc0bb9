import LeasedWork.Host.Ensemble
import LeasedWork.Proofs.Engine.Conduct

/-!
# What the tasks of an ensemble do

The deeds of the surroundings, and from them and those of the engine the deeds of any task. The one
statement that everything about runs rests on is that a move of a task comes to its deeds, but for
what no other task looks at.
-/
namespace LeasedWork.Host

open Engine
open Site (actDeeds deedsOfCall)

/-! ## Timelines, listeners and event logs -/

/-- The deeds of the next move of a timeline. -/
def Timeline.deeds (s : Site) (t : Timeline) : List Deed :=
  match t.pending with
  | [] => []
  | (time, action) :: _ =>
    if deadline time ≤ s.nanos then (s.note (.action action.name)).actDeeds action else []

theorem Timeline.aside_step (s : Site) (t : Timeline) :
    (Deed.onAll s (t.deeds s)).Aside (t.step s).2 := by
  rw [deeds, step]
  cases t.pending with
  | nil => exact .refl s
  | cons next rest =>
    obtain ⟨time, action⟩ := next
    by_cases hdue : deadline time ≤ s.nanos
    · simp only [if_pos hdue]
      have ha := ((s.aside_note (.action action.name)).onAll _).trans (Site.aside_act _ action)
      split
      · rename_i hact
        rw [hact] at ha
        exact ha
      · rename_i hact
        rw [hact] at ha
        exact ha
    · simp only [if_neg hdue]
      exact .refl s

theorem Listener.aside_step (s : Site) (l : Listener) : s.Aside (l.step s).2 := by
  unfold step
  split
  · exact .refl s
  · split
    · exact .refl s
    · split <;> exact .refl s

theorem EventLog.aside_step (s : Site) (l : EventLog) : s.Aside (l.step s).2 := by
  unfold step
  split
  · exact s.aside_writeLog _
  · exact s.aside_writeLog _
  · exact .refl s

/-! ## Runs of single jobs -/

/-- What a run asks the store for. -/
def RunPlan.request (plan : RunPlan) : LeaseRequest :=
  ⟨plan.queue, plan.worker, Store.defaultTimeout, none, false⟩

/-- The site after a run has asked for shutdown, if it does. -/
def RunPlan.opened (s : Site) (plan : RunPlan) : Site :=
  if plan.shutdown then s.cancel s.shutdown else s

/-- The deeds of the next move of the task of the runs. -/
def Runs.deeds (s : Site) (r : Runs) : List Deed :=
  match r.pending with
  | [] => []
  | plan :: _ =>
    match r.phase with
    | .between => []
    | .ready =>
      (if plan.shutdown then [.cancel s.shutdown] else []) ++
        deedsOfCall ((plan.opened s).askDequeue plan.request false).1 (.dequeue plan.request false)
    | .executing x wait _ => if wait.all (·.isOver s) then x.deeds s else x.dropDeeds

theorem Runs.aside_step (s : Site) (r : Runs) :
    (Deed.onAll s (r.deeds s)).Aside (r.step s).2 := by
  unfold deeds step
  cases r.pending with
  | nil => exact .refl s
  | cons plan rest =>
    cases r.phase with
    | between =>
      dsimp only
      split <;> exact .refl s
    | ready =>
      have hopen : (Deed.onAll s (if plan.shutdown then [.cancel s.shutdown] else [])).Aside
          (plan.opened s) := by
        unfold RunPlan.opened
        split <;> exact .refl _
      apply (hopen.then (Site.aside_askDequeue _ plan.request false)).trans
      simp only [begin]
      split <;> exact .refl _
    | executing x wait deadline =>
      by_cases hover : wait.all (·.isOver s) = true
      · simp only [if_pos hover]
        have hx := x.aside_step s
        cases hp : (x.step s).1 <;> exact hx
      · simp only [if_neg hover, x.drop_eq]
        exact .refl _

/-! ## Conductors and watches -/

/-- The deeds of the next move of a conductor. -/
def Conductor.deeds (s : Site) (c : Conductor) : List Deed :=
  match c.phase with
  | .fresh => [.spawn c.task]
  | .running id =>
    if c.hold = .awaited ∧ s.hasEnded id then []
    else if c.endNanos s ≤ s.nanos then [.cancel c.token] else []
  | .lingering => if c.endNanos s ≤ s.nanos then [.cancel c.token] else []
  | .stopping _ | .over => []

theorem Conductor.aside_step (s : Site) (c : Conductor) :
    (Deed.onAll s (c.deeds s)).Aside (c.step s).2 := by
  rw [deeds, step]
  cases c.phase with
  | fresh => exact .refl _
  | running id =>
    cases c.hold with
    | awaited =>
      by_cases he : s.hasEnded id = true
      · simp only [he, true_and, if_true]
        exact .refl s
      · by_cases ht : c.endNanos s ≤ s.nanos
        · simp only [he, ht, and_false, if_false, if_true, Bool.false_eq_true]
          exact .refl _
        · simp only [he, ht, and_false, if_false, Bool.false_eq_true]
          exact .refl s
    | handle =>
      by_cases ht : c.endNanos s ≤ s.nanos
      · simp only [ht, reduceCtorEq, false_and, if_false, if_true]
        exact .refl _
      · simp only [ht, reduceCtorEq, false_and, if_false]
        exact .refl s
  | lingering =>
    by_cases ht : c.endNanos s ≤ s.nanos
    · simp only [if_pos ht]
      exact .refl _
    · simp only [if_neg ht]
      exact .refl s
  | stopping id =>
    dsimp only
    split <;> exact .refl s
  | _ => exact .refl s

/-- The deeds of an action on heartbeats that are watched. -/
def Watch.actionDeeds (s : Site) (w : Watch) : WatchAction → List Deed
  | .act action => s.actDeeds action
  | .probe => []
  | .drop => [.stop w.heartbeat]
  | .abandon => [.abandon w.execution]

/-- The deeds of the next move of the task that watches. -/
def Watch.deeds (s : Site) (w : Watch) : List Deed :=
  match w.pending with
  | [] => []
  | (time, action) :: _ =>
    if time * Time.nanosPerMilli ≤ s.nanos then w.actionDeeds s action else []

theorem Watch.aside_perform (s : Site) (w : Watch) (action : WatchAction) :
    (Deed.onAll s (w.actionDeeds s action)).Aside (w.perform s action).2.2 := by
  cases action with
  | act action => exact s.aside_act action
  | _ => exact .refl _

theorem Watch.aside_step (s : Site) (w : Watch) :
    (Deed.onAll s (w.deeds s)).Aside (w.step s).2 := by
  rw [deeds, step]
  cases w.pending with
  | nil => exact .refl s
  | cons next rest =>
    obtain ⟨time, action⟩ := next
    by_cases hdue : time * Time.nanosPerMilli ≤ s.nanos
    · simp only [if_pos hdue]
      have ha := w.aside_perform s action
      split
      · rename_i hact
        rw [hact] at ha
        exact ha
      · rename_i hact
        rw [hact] at ha
        exact ha
    · simp only [if_neg hdue]
      exact .refl s

/-! ## Any task -/

namespace Task

/-- The deeds of the next move of a task. -/
def deeds (s : Site) : Task → List Deed
  | heartbeat h => h.deeds s
  | loop l => l.deeds s
  | pool p => p.deeds s
  | service v => v.deeds s
  | timeline t => t.deeds s
  | listener _ | eventLog _ => []
  | runs r => r.deeds s
  | conductor c => c.deeds s
  | watch w => w.deeds s

/-- A move of a task comes to its deeds. -/
theorem aside_step (s : Site) (t : Task) : (Deed.onAll s (t.deeds s)).Aside (t.step s).2 := by
  cases t with
  | heartbeat h => exact h.aside_step s
  | loop l => exact l.aside_step s
  | pool p => exact p.aside_step s
  | service v => exact v.aside_step s
  | timeline t => exact t.aside_step s
  | listener l => exact l.aside_step s
  | eventLog l => exact l.aside_step s
  | runs r => exact r.aside_step s
  | conductor c => exact c.aside_step s
  | watch w => exact w.aside_step s

theorem setAlike_step (s : Site) (t : Task) : s.SetAlike (t.step s).2 :=
  (s.setAlike_onAll _).trans (t.aside_step s).setAlike

theorem clock_step (s : Site) (t : Task) : (t.step s).2.clock = s.clock :=
  (t.aside_step s).clock.trans (s.clock_onAll _)

end Task

end LeasedWork.Host
