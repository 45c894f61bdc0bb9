import LeasedWork.Engine.Site

/-!
# Progress of a task

A task is a state machine over the site. One move of it either leaves it able to go on, or waiting
for something, or finished, or broken down; machines are put together by mapping over the state
and the result of such a move. What a task waits for is a condition on the site, so a scheduler
needs no knowledge of the machines.
-/
namespace LeasedWork.Engine

/-- What a task waits for. -/
inductive Wait where
  /-- A time, in nanoseconds. -/
  | time (deadline : Nat)
  /-- The cancellation of a token. -/
  | cancel (token : Token)
  /-- The readiness of the storage. -/
  | ready
  /-- The end of one of some tasks. -/
  | anyEnded (ids : List TaskId)
  /-- An event after so many. -/
  | event (count : Nat)
  /-- Nothing that will ever come. -/
  | never
  | either (first second : Wait)
  deriving DecidableEq, Inhabited, Repr

namespace Wait

/-- A sleep that the cancellation of a token ends. -/
def untilOrCancel (deadline : Nat) (token : Token) : Wait := either (cancel token) (time deadline)

/-- The earlier of two times, of which either may be missing. -/
def earlier : Option Nat → Option Nat → Option Nat
  | some a, some b => some (min a b)
  | some a, none => some a
  | none, b => b

/-- The time at which a wait is over at the latest. -/
def deadline? : Wait → Option Nat
  | .time deadline => some deadline
  | either first second => earlier first.deadline? second.deadline?
  | cancel _ | ready | anyEnded _ | event _ | never => none

def token? : Wait → Option Token
  | cancel token => some token
  | either first second => first.token?.or second.token?
  | .time _ | ready | anyEnded _ | event _ | never => none

def isOver (s : Site) : Wait → Bool
  | .time deadline => deadline ≤ s.nanos
  | cancel token => s.isCancelled token
  | ready => s.ready
  | anyEnded ids => (s.firstEnded? ids).isSome
  | event count => count < s.bus.sent.size
  | never => false
  | either first second => first.isOver s || second.isOver s

/-- What a wait that is over takes from the allowance of a turn. -/
def takes (s : Site) : Wait → Nat
  | .time _ | ready | anyEnded _ | event _ => 1
  | cancel _ | never => 0
  | either first second => if first.isOver s then first.takes s else second.takes s

/-- What has to be left of the allowance of a turn for a wait to be looked at. -/
def needs (s : Site) : Wait → Nat
  | either _ _ => 1
  | w => w.takes s

end Wait

/-- What a move leaves of a task with states `σ` and results `ρ`. -/
inductive Progress (σ ρ : Type) where
  | more (state : σ)
  | wait (wait : Wait) (state : σ)
  | done (result : ρ)
  | crash
  deriving Inhabited

/-- The same move of a machine that has this one as a part; `finish` says how it goes on when the
part is done. -/
def Progress.within {σ ρ σ' ρ' : Type} (embed : σ → σ') (finish : ρ → Progress σ' ρ') :
    Progress σ ρ → Progress σ' ρ'
  | more state => .more (embed state)
  | wait w state => .wait w (embed state)
  | done result => finish result
  | crash => .crash

/-- How far a call of the store has come. -/
inductive CallStage where
  | start
  /-- The time that the call takes is over; it may break down now. -/
  | underway (crashes : Bool)
  deriving DecidableEq, Inhabited, Repr

namespace Site

/-- Counts a call: how long it takes in milliseconds, and whether it breaks down. -/
def beginCall (s : Site) (call : Call) : Nat × Bool × Site :=
  let faults := s.faults.of call
  let number := faults.made + 1
  (faults.delays.getD faults.made faults.steadyDelay, faults.crashes.contains number,
    { s with faults := s.faults.set call { faults with made := number } })

/-- One move of a call of the store, which may break down by itself. -/
def call {ρ : Type} (s : Site) (call : Call) (stage : CallStage)
    (perform : Site → Option ρ × Site) : Progress CallStage ρ × Site :=
  match stage with
  | .start =>
    let (delay, crashes, s) := s.beginCall call
    if delay = 0 then (.more (.underway crashes), s)
    else (.wait (.time (s.afterSleep (.ofMillis delay))) (.underway crashes), s)
  | .underway true => (.crash, s.note (.crashed call))
  | .underway false =>
    let (answer, s) := perform s
    (answer.elim .crash .done, s)

/-- An answer of the store with an entry in the trace. -/
def noted {α : Type} (entry : α → Trace) (asked : Option α × Site) : Option α × Site :=
  (asked.1, match asked.1 with
    | some answer => asked.2.note (entry answer)
    | none => asked.2)

/-- One move of a call for a job. -/
def callDequeue (s : Site) (stage : CallStage) (request : LeaseRequest) (token : Token) :
    Progress CallStage (Except Refusal (Option Job)) × Site :=
  s.call .dequeue stage fun s =>
    noted (.dequeue request) (s.askDequeue request (s.isCancelled token))

/-- One move of a call that extends a lease. -/
def callHeartbeat (s : Site) (stage : CallStage) (record : Job) :
    Progress CallStage (Except Refusal Bool) × Site :=
  s.call .heartbeat stage fun s => noted (.heartbeat record) (s.askHeartbeat record)

/-- One move of a call that hands over a result, under a token or under one of its own, which nobody
else holds and nobody can cancel. -/
def callComplete (s : Site) (stage : CallStage) (record : Job) (force : Bool)
    (token : Option Token) : Progress CallStage (Except Refusal Settlement) × Site :=
  s.call .complete stage fun s =>
    noted (.complete record force (token.any s.isCancelled)) (s.askComplete record force)

end Site

end LeasedWork.Engine
