import LeasedWork.Host.Conductor
import LeasedWork.Host.EventLog
import LeasedWork.Host.Listener
import LeasedWork.Host.Runs
import LeasedWork.Host.Timeline
import LeasedWork.Host.Watch

/-!
# Ensembles of tasks

An ensemble is a site and the tasks on it. Any task that waits for nothing, or whose wait is over,
may make the next move; that is the whole freedom there is. The scheduler here uses it in one way:
tasks get their turns in the order in which their waits ended, each goes on until it has to wait,
and the clock jumps to the next deadline when no task can go on. Waits that one cancellation ends
are over in the order in which it reaches their tokens, other waits that end together in the order
in which they began.

A turn has an allowance of waits that are over at once. A task that has used it up goes on when the
turns of all others are over; of several such tasks the last one comes first.
-/
namespace LeasedWork.Host

open Engine

/-- A task on a site. -/
inductive Task where
  | heartbeat (h : Heartbeat)
  | loop (l : PollLoop)
  | pool (p : Pool)
  | service (service : Service)
  | timeline (t : Timeline)
  | listener (l : Listener)
  | eventLog (l : EventLog)
  | runs (r : Runs)
  | conductor (c : Conductor)
  | watch (w : Watch)
  deriving Inhabited, Repr

namespace Task

/-- The task that word was left to start. -/
def ofStart : Start → Task
  | .heartbeat record period first execution => heartbeat (.fresh record period first execution)
  | .loop queue worker slot token => loop (.fresh queue worker slot token)
  | .pool queue workers worker scope => pool (.fresh queue workers worker scope)
  | .service queues worker token => service (.fresh queues worker token)

def step (s : Site) : Task → Progress Task Unit × Site
  | heartbeat h => let (p, s) := h.step s; (p.within heartbeat .done, s)
  | loop l => let (p, s) := l.step s; (p.within loop .done, s)
  | pool p => let (p, s) := p.step s; (p.within pool .done, s)
  | service v => let (p, s) := v.step s; (p.within service .done, s)
  | timeline t => let (p, s) := t.step s; (p.within timeline .done, s)
  | listener l => let (p, s) := l.step s; (p.within listener .done, s)
  | eventLog l => let (p, s) := l.step s; (p.within eventLog .done, s)
  | runs r => let (p, s) := r.step s; (p.within runs .done, s)
  | conductor c => let (p, s) := c.step s; (p.within conductor .done, s)
  | watch w => let (p, s) := w.step s; (p.within watch .done, s)

/-- Whether a task of the surroundings has nothing more to do. The engine's own tasks do not hold
up the end. -/
def isOver : Task → Bool
  | timeline t => t.isOver
  | runs r => r.isOver
  | conductor c => c.isOver
  | watch w => w.isOver
  | heartbeat _ | loop _ | pool _ | service _ | listener _
  | eventLog _ => true

/-- The task that is left of one that is to be stopped. -/
def stop : Task → Task
  | heartbeat h => heartbeat h.stop
  | task => task

end Task

/-- A task and what it waits for. -/
structure Activity where
  id : TaskId
  task : Task
  wait : Option Wait
  /-- The number of its wait; earlier ones are smaller. -/
  since : Nat
  /-- What the wait that has ended takes from the allowance of the next turn. -/
  owed : Nat
  deriving Inhabited, Repr

/-- A site with tasks. -/
structure Ensemble where
  site : Site
  activities : List Activity
  /-- The tasks that can go on, in the order of their turns. -/
  turns : List TaskId
  /-- The tasks that have used up the allowance of a turn, the last one first. -/
  deferred : List TaskId
  /-- What is left of the allowance of the present turn. -/
  allowance : Nat
  /-- How many waits there were. -/
  waits : Nat
  deriving Inhabited

namespace Ensemble

/-- How many waits that are over at once a turn allows. -/
def turnAllowance : Nat := 128

def ofSite (s : Site) : Ensemble := ⟨s, [], [], [], turnAllowance, 0⟩

def activity? (sys : Ensemble) (id : TaskId) : Option Activity := sys.activities.find? (·.id = id)

/-- The ensemble with the task of an activity changed. -/
def setActivity (sys : Ensemble) (a : Activity) : Ensemble :=
  { sys with activities := sys.activities.map fun b => if b.id = a.id then a else b }

/-- The ensemble without a task. -/
def remove (sys : Ensemble) (id : TaskId) : Ensemble :=
  { sys with
    activities := sys.activities.filter (·.id ≠ id)
    turns := sys.turns.filter (· ≠ id)
    deferred := sys.deferred.filter (· ≠ id)
    allowance := turnAllowance }

def add (sys : Ensemble) (id : TaskId) (task : Task) : Ensemble :=
  { sys with
    activities := sys.activities ++ [⟨id, task, none, 0, 0⟩]
    turns := sys.turns ++ [id] }

def host (sys : Ensemble) (task : Task) : Ensemble :=
  let id := sys.site.nextTask
  { sys with site := { sys.site with nextTask := id + 1 } }.add id task

/-- Tells a task to stop, which it does on its next turn. -/
def stop (sys : Ensemble) (id : TaskId) : Ensemble :=
  match sys.activity? id with
  | none => sys
  | some a =>
    let sys := sys.setActivity { a with task := a.task.stop, wait := none }
    if id ∈ sys.turns ∨ id ∈ sys.deferred then sys else { sys with turns := sys.turns ++ [id] }

/-- Starts and stops the tasks for which word was left. -/
def settle (sys : Ensemble) : Ensemble :=
  let starting := sys.site.starting.reverse
  let stopping := sys.site.stopping
  let sys := { sys with site := { sys.site with starting := [], stopping := [] } }
  let sys := starting.foldl (fun sys start => sys.add start.1 (.ofStart start.2)) sys
  stopping.foldl stop sys

/-- Whether the wait of an activity is over. -/
def isAwake (s : Site) (a : Activity) : Bool :=
  match a.wait with
  | none => false
  | some w => w.isOver s

/-- The place of a wait among those that are over: first when its token was reached, then when it
began. -/
def place (s : Site) (a : Activity) : Nat × Nat :=
  (((a.wait.bind Wait.token?).map s.tokens.reached.idxOf).getD 0, a.since)

/-- Gives turns to the tasks whose waits are over. -/
def wake (sys : Ensemble) : Ensemble :=
  let before (a b : Activity) : Bool :=
    let (i, m) := place sys.site a
    let (j, n) := place sys.site b
    i < j || i = j && m ≤ n
  let awake := (sys.activities.filter (isAwake sys.site)).mergeSort before
  if awake = [] then sys
  else
    { sys with
      activities := sys.activities.map fun a =>
        if isAwake sys.site a then
          { a with wait := none, owed := (a.wait.map (·.takes sys.site)).getD 0 }
        else a
      turns := sys.turns ++ awake.map (·.id) }

/-- Takes note of the end of a task. -/
def finish (sys : Ensemble) (id : TaskId) (panicked : Bool) : Ensemble :=
  let sys := sys.remove id
  { sys with site := { sys.site with ended := sys.site.ended ++ [(id, panicked)] } }

/-- The ensemble at the end of the turn of a task. -/
def endTurn (sys : Ensemble) (id : TaskId) : Ensemble :=
  { sys with turns := sys.turns.filter (· ≠ id), allowance := turnAllowance }

/-- What a task does about a wait that is over already: it goes on, unless its turn does not allow
it. -/
def goOn (sys : Ensemble) (a : Activity) (w : Wait) : Ensemble :=
  let cost := w.takes sys.site
  if w.needs sys.site ≤ sys.allowance then
    { sys.setActivity { a with wait := none, owed := 0 } with allowance := sys.allowance - cost }
  else
    let sys := (sys.setActivity { a with wait := none, owed := cost }).endTurn a.id
    { sys with deferred := a.id :: sys.deferred }

/-- The move of one task, with what it left word for. -/
def move (sys : Ensemble) (a : Activity) : Ensemble :=
  let (progress, site) := a.task.step sys.site
  let sys := { sys with site := site, allowance := sys.allowance - a.owed }
  let sys := match progress with
    | .more task => sys.setActivity { a with task := task, wait := none, owed := 0 }
    | .wait w task =>
      if w.isOver site then sys.goOn { a with task := task } w
      else
        let a := { a with task := task, wait := some w, since := sys.waits, owed := 0 }
        { (sys.setActivity a).endTurn a.id with waits := sys.waits + 1 }
    | .done () => sys.finish a.id false
    | .crash => sys.finish a.id true
  sys.settle

/-- The earliest deadline that a task waits for. -/
def nextDeadline? (sys : Ensemble) : Option Nat :=
  sys.activities.foldl (fun d a => Wait.earlier d (a.wait.bind Wait.deadline?)) none

/-- The first whole millisecond that is not before a time in nanoseconds. -/
def wholeMillis (nanos : Nat) : Nat := (nanos + Time.nanosPerMilli - 1) / Time.nanosPerMilli

/-- Lets the clock jump to the next deadline. -/
def jump? (sys : Ensemble) : Option Ensemble :=
  sys.nextDeadline?.map fun deadline =>
    { sys with site := { sys.site with clock := max sys.site.clock (wholeMillis deadline) } }

/-- What the scheduler does next, if there is anything. -/
def advance? (sys : Ensemble) : Option Ensemble :=
  match sys.turns with
  | id :: rest =>
    match sys.activity? id with
    | some a => some (sys.move a).wake
    | none => some { sys with turns := rest }
  | [] =>
    if sys.deferred = [] then sys.jump?.map wake
    else some { sys with turns := sys.deferred, deferred := [] }

def isQuiet (sys : Ensemble) : Bool := sys.turns.isEmpty && sys.deferred.isEmpty

/-- Whether the surroundings have nothing more to do. -/
def isOver (sys : Ensemble) : Bool := sys.activities.all (·.task.isOver)

/-- Lets the scheduler go on until a condition holds, at most `fuel` times. -/
def runUntil (holds : Ensemble → Bool) : Nat → Ensemble → Ensemble
  | 0, sys => sys
  | fuel + 1, sys =>
    if holds sys then sys
    else
      match sys.advance? with
      | some next => runUntil holds fuel next
      | none => sys

/-- Lets the scheduler go on until the surroundings have nothing more to do. -/
def run (fuel : Nat) (sys : Ensemble) : Ensemble := runUntil isOver fuel sys

end Ensemble

end LeasedWork.Host
