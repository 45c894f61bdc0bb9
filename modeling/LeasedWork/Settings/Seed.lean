import LeasedWork.Diagnostic
import LeasedWork.Settings.HostedQueue
import LeasedWork.Store

/-!
# Seeds

A list such as `export:3,reindex` asks for jobs to be queued when the server starts, one where
nothing is said about their number. Entries are planted one by one; the first one that is not well
formed ends this and decides the error, and in it the name of the queue before the number.
-/
namespace LeasedWork

/-- Jobs to be queued. -/
structure Seed where
  queue : Queue
  count : Nat
  deriving DecidableEq, Inhabited, Repr

/-- What is wrong with an entry of a list of seeds. -/
inductive SeedFault where
  | unknownQueue (entry name : List Char)
  | badCount (entry : List Char) (fault : Number.CountFault)
  deriving DecidableEq, Inhabited, Repr

/-- A fault with the entry it was found in. -/
def SeedFault.diagnostic : SeedFault → Diagnostic
  | unknownQueue entry name =>
    (Diagnostic.ofMessage (Queue.unknownError (String.ofList name)).message).within
      ("Unknown queue in seed entry '" ++ String.ofList entry ++ "'")
  | badCount entry fault =>
    (Diagnostic.ofMessage fault.message).within
      ("Invalid count in seed entry '" ++ String.ofList entry ++ "'")

namespace Seed

def ofEntry (entry : List Char) : Except SeedFault Seed :=
  let (name, count) := (Text.cut? ':' entry).getD (entry, ['1'])
  match Queue.parse? name with
  | none => .error (.unknownQueue entry name)
  | some queue =>
    match Number.readCount (Text.trim count) with
    | .error fault => .error (.badCount entry fault)
    | .ok n => .ok ⟨queue, n⟩

/-- The definition of planted jobs: an object without members. -/
def definition : String := "\x7b\x7d"

def plantMany (queue : Queue) (now : Time.Instant) : Nat → Store → Store
  | 0, store => store
  | n + 1, store => plantMany queue now n (store.enqueue queue definition none now).2

/-- Queues the jobs of entries, and counts them. -/
def plantEach (now : Time.Instant) : List (List Char) → Store → Except SeedFault Nat × Store
  | [], store => (.ok 0, store)
  | entry :: rest, store =>
    match ofEntry entry with
    | .error fault => (.error fault, store)
    | .ok seed =>
      let (planted, store) := plantEach now rest (plantMany seed.queue now seed.count store)
      (planted.map (seed.count + ·), store)

/-- Queues the jobs that a list asks for, and counts them. -/
def plant (text : List Char) (now : Time.Instant) (store : Store) : Except SeedFault Nat × Store :=
  plantEach now (HostedQueue.entries text) store

end Seed

end LeasedWork
