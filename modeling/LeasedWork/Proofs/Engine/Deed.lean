import LeasedWork.Engine.Progress
import LeasedWork.Proofs.Store.Touch

/-!
# Deeds

What one task does to the site it shares with others comes down to a list of deeds: operations of
the store, events, what happens to tokens, and tasks started and stopped. Everything else a task
changes is its own affair: logs, traces, draws and counters. For each task there is a function
that gives the deeds of its next move, and a statement about all tasks is proved deed by deed.
-/
namespace LeasedWork.Engine

open Time (Instant Duration)

/-- The state in which a move leaves a machine that goes on. -/
def Progress.state? {σ ρ : Type} : Progress σ ρ → Option σ
  | .more state | .wait _ state => some state
  | .done _ | .crash => none

/-- What a move leaves of its task if the task is done. -/
def Progress.result? {σ ρ : Type} : Progress σ ρ → Option ρ
  | .done result => some result
  | _ => none

theorem Progress.eq_done {σ ρ : Type} {p : Progress σ ρ} {result : ρ} (h : p.result? = some result) :
    p = .done result := by
  cases p with
  | done => exact congrArg Progress.done (Option.some.inj h)
  | _ => exact absurd h (by simp [Progress.result?])

/-- Something that a task does and other tasks can notice. -/
inductive Deed where
  | operate (op : Operation)
  /-- The store gives out a number and no job comes of it. -/
  | skip
  | publish (e : Event)
  | cancel (t : Token)
  | abandon (t : Token)
  | child (parent : Token)
  | hold (t : Token)
  | release (t : Token)
  | spawn (task : Start)
  | stop (id : TaskId)
  deriving Inhabited

namespace Deed

/-- The site after a deed. -/
def on (s : Site) : Deed → Site
  | operate op => { s with store := (s.store.perform s.now op).2 }
  | skip => { s with store := s.store.skipNumber }
  | publish e => s.publish e
  | cancel t => s.cancel t
  | abandon t => (s.abandon t).2
  | child parent => (s.childToken parent).2
  | hold t => s.hold t
  | release t => s.release t
  | spawn task => (s.spawn task).2
  | stop id => s.stop id

/-- The site after deeds, done in their order. -/
def onAll (s : Site) (deeds : List Deed) : Site := deeds.foldl on s

theorem onAll_append (s : Site) (a b : List Deed) : onAll s (a ++ b) = onAll (onAll s a) b :=
  List.foldl_append

/-- What every deed of a list keeps is kept by the list. -/
theorem onAll_induction {P : Site → Prop} {deeds : List Deed}
    (h : ∀ d ∈ deeds, ∀ s, P s → P (d.on s)) {s : Site} (hs : P s) : P (onAll s deeds) := by
  induction deeds generalizing s with
  | nil => exact hs
  | cons d rest ih =>
    refine ih (fun d hd => h d (List.mem_cons_of_mem _ hd)) ?_
    exact h d List.mem_cons_self s hs

end Deed

/-- Whether faults are the same but for the number of calls made. -/
structure Faults.Alike (f g : Faults) : Prop where
  delays : ∀ call, (g.of call).delays = (f.of call).delays
  steadyDelay : ∀ call, (g.of call).steadyDelay = (f.of call).steadyDelay
  crashes : ∀ call, (g.of call).crashes = (f.of call).crashes

theorem Faults.Alike.refl (f : Faults) : f.Alike f := ⟨fun _ => rfl, fun _ => rfl, fun _ => rfl⟩

theorem Faults.Alike.trans {f g h : Faults} (hfg : f.Alike g) (hgh : g.Alike h) : f.Alike h :=
  ⟨fun c => (hgh.delays c).trans (hfg.delays c),
    fun c => (hgh.steadyDelay c).trans (hfg.steadyDelay c),
    fun c => (hgh.crashes c).trans (hfg.crashes c)⟩

namespace Site

/-- Whether the second site differs from the first in what no other task looks at, or in that the
storage was reported ready. A call of the store that breaks down is among the former, because all
that is left of it is that it was counted. -/
structure Aside (s t : Site) : Prop where
  clock : t.clock = s.clock
  store : s.store.Tallied t.store
  tokens : t.tokens = s.tokens
  shutdown : t.shutdown = s.shutdown
  timing : t.timing = s.timing
  timer : t.timer = s.timer
  registry : t.registry = s.registry
  faults : s.faults.Alike t.faults
  bus : t.bus = s.bus
  starting : t.starting = s.starting
  stopping : t.stopping = s.stopping
  nextTask : t.nextTask = s.nextTask
  ended : t.ended = s.ended
  ready : s.ready = true → t.ready = true

variable {s t u : Site}

theorem Aside.refl (s : Site) : s.Aside s :=
  ⟨rfl, .refl _, rfl, rfl, rfl, rfl, rfl, .refl _, rfl, rfl, rfl, rfl, rfl, id⟩

theorem Aside.trans (h : s.Aside t) (h' : t.Aside u) : s.Aside u :=
  ⟨h'.clock.trans h.clock, h.store.trans h'.store, h'.tokens.trans h.tokens,
    h'.shutdown.trans h.shutdown, h'.timing.trans h.timing, h'.timer.trans h.timer,
    h'.registry.trans h.registry, h.faults.trans h'.faults, h'.bus.trans h.bus,
    h'.starting.trans h.starting, h'.stopping.trans h.stopping, h'.nextTask.trans h.nextTask,
    h'.ended.trans h.ended, fun hready => h'.ready (h.ready hready)⟩

theorem Aside.now_eq (h : s.Aside t) : t.now = s.now := by rw [now, h.clock, now]

theorem Aside.store_perform (h : s.Aside t) (op : Operation) :
    (t.store.perform t.now op).1 = (s.store.perform s.now op).1 ∧
      (s.store.perform s.now op).2.Tallied (t.store.perform t.now op).2 := by
  rw [h.now_eq]
  exact h.store.perform s.now op

/-- What differs in what no other task looks at still does after the same deed. -/
theorem Aside.on (h : s.Aside t) (d : Deed) : (d.on s).Aside (d.on t) := by
  cases d with
  | operate op => exact { h with store := (h.store_perform op).2 }
  | skip => exact { h with store := h.store.skipNumber }
  | publish e => exact { h with bus := by simp only [Deed.on, publish, h.bus] }
  | cancel k => exact { h with tokens := by simp only [Deed.on, cancel, h.tokens] }
  | abandon k => exact { h with tokens := by simp only [Deed.on, abandon, h.tokens] }
  | child parent => exact { h with tokens := by simp only [Deed.on, childToken, h.tokens] }
  | hold k => exact { h with tokens := by simp only [Deed.on, hold, h.tokens] }
  | release k => exact { h with tokens := by simp only [Deed.on, release, h.tokens] }
  | spawn task =>
    exact { h with
      starting := by simp only [Deed.on, spawn, h.nextTask, h.starting]
      nextTask := by simp only [Deed.on, spawn, h.nextTask] }
  | stop id => exact { h with stopping := by simp only [Deed.on, stop, h.stopping] }

theorem Aside.onAll (h : s.Aside t) (deeds : List Deed) :
    (Deed.onAll s deeds).Aside (Deed.onAll t deeds) := by
  induction deeds generalizing s t with
  | nil => exact h
  | cons d rest ih => exact ih (h.on d)

/-- Deeds may be followed by more of them, whatever was changed aside in between. -/
theorem Aside.then {a b : List Deed} (h : (Deed.onAll s a).Aside t) (h' : (Deed.onAll t b).Aside u) :
    (Deed.onAll s (a ++ b)).Aside u := by
  rw [Deed.onAll_append]
  exact (h.onAll b).trans h'

/-- Whether two sites are set up alike. No deed changes how a site is set up. -/
structure SetAlike (s t : Site) : Prop where
  shutdown : t.shutdown = s.shutdown
  timing : t.timing = s.timing
  timer : t.timer = s.timer
  registry : t.registry = s.registry
  faults : s.faults.Alike t.faults

theorem SetAlike.refl (s : Site) : s.SetAlike s := ⟨rfl, rfl, rfl, rfl, .refl _⟩

theorem SetAlike.trans (h : s.SetAlike t) (h' : t.SetAlike u) : s.SetAlike u :=
  ⟨h'.shutdown.trans h.shutdown, h'.timing.trans h.timing, h'.timer.trans h.timer,
    h'.registry.trans h.registry, h.faults.trans h'.faults⟩

theorem Aside.setAlike (h : s.Aside t) : s.SetAlike t :=
  ⟨h.shutdown, h.timing, h.timer, h.registry, h.faults⟩

theorem setAlike_onAll (s : Site) (deeds : List Deed) : s.SetAlike (Deed.onAll s deeds) :=
  Deed.onAll_induction (P := s.SetAlike)
    (fun d _ _ h => by cases d <;> exact ⟨h.shutdown, h.timing, h.timer, h.registry, h.faults⟩)
    (.refl s)

theorem clock_onAll (s : Site) (deeds : List Deed) : (Deed.onAll s deeds).clock = s.clock :=
  Deed.onAll_induction (P := fun t => t.clock = s.clock)
    (fun d _ _ h => by cases d <;> exact h) rfl

/-! ## What is done aside -/

theorem aside_own (s : Site) (invocations : List (Nat × Nat)) (draws : Time.Draws)
    (leases : List (String × Job)) (trace : List (Nat × Trace)) (span : Option Span)
    (log : List LogEntry) :
    s.Aside { s with
      invocations := invocations, draws := draws, leases := leases
      trace := trace, span := span, log := log } :=
  ⟨rfl, .refl _, rfl, rfl, rfl, rfl, rfl, .refl _, rfl, rfl, rfl, rfl, rfl, id⟩

theorem aside_writeLog (s : Site) (line : LogLine) : s.Aside (s.writeLog line) :=
  aside_own s _ _ _ _ _ _

theorem aside_note (s : Site) (entry : Trace) : s.Aside (s.note entry) := aside_own s _ _ _ _ _ _

theorem aside_span (s : Site) (span : Option Span) : s.Aside { s with span := span } :=
  aside_own s _ _ _ _ _ _

theorem aside_jitter (s : Site) (period : Duration) : s.Aside (s.jitter period).2 :=
  aside_own s _ _ _ _ _ _

theorem aside_countInvocation (s : Site) (key : Nat) : s.Aside (s.countInvocation key) :=
  aside_own s _ _ _ _ _ _

theorem aside_remember (s : Site) (name : Option String) (job : Option Job) :
    s.Aside (s.remember name job) := by
  unfold remember
  split
  · exact aside_own s _ _ _ _ _ _
  · exact .refl s

theorem aside_notifyReady (s : Site) : s.Aside s.notifyReady := by
  unfold notifyReady
  split
  · exact .refl s
  · exact ⟨rfl, .refl _, rfl, rfl, rfl, rfl, rfl, .refl _, rfl, rfl, rfl, rfl, rfl, fun _ => rfl⟩

theorem aside_store (s : Site) {store : Store} (h : s.store.Tallied store) :
    s.Aside { s with store := store } :=
  ⟨rfl, h, rfl, rfl, rfl, rfl, rfl, .refl _, rfl, rfl, rfl, rfl, rfl, id⟩

theorem aside_beginCall (s : Site) (call : Call) : s.Aside (s.beginCall call).2.2 := by
  refine ⟨rfl, .refl _, rfl, rfl, rfl, rfl, rfl, ?_, rfl, rfl, rfl, rfl, rfl, id⟩
  constructor <;> intro c <;> cases call <;> cases c <;> rfl

end Site

end LeasedWork.Engine
