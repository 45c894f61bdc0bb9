import LeasedWork.Proofs.Engine.Deed

/-!
# Calls and actions as deeds

A call of the store either breaks down, for want of a date, and then does nothing that another
task can notice, or is one operation with its answer. A task makes a call in stages and acts in the
last of them only. Actions come to such calls and to a few other deeds.
-/
namespace LeasedWork.Engine

open Time (Instant)

namespace Site

variable {s : Site}

/-- The deed of a call with an answer; a call that breaks down has none. -/
def deedsOfCall {α : Type} (answer : Option α) (op : Operation) : List Deed :=
  if answer.isSome then [.operate op] else []

theorem answered_cases {α : Type} (s : Site) (needsDate : Bool) (counted : Store)
    (done : α × Store) :
    (s.isDated = false ∧ s.answered needsDate counted done = (none, { s with store := counted })) ∨
    s.answered needsDate counted done = (some done.1, { s with store := done.2 }) := by
  unfold answered
  split
  · rename_i h
    simp only [Bool.and_eq_true, Bool.not_eq_true'] at h
    exact .inl ⟨h.2, rfl⟩
  · exact .inr rfl

/-! ## A call for a job -/

theorem askDequeue_cases (s : Site) (request : LeaseRequest) (cancelled : Bool) :
    (s.isDated = false ∧ (s.askDequeue request cancelled).1 = none ∧
      s.Aside (s.askDequeue request cancelled).2) ∨
    ((s.askDequeue request cancelled).1 = some (s.store.dequeue request cancelled s.now).1 ∧
      (Deed.on s (.operate (.dequeue request cancelled))).Aside
        (s.askDequeue request cancelled).2) := by
  unfold askDequeue
  rcases answered_cases s (!cancelled && !s.store.failDequeue) s.store.countDequeue
    (s.store.dequeue request cancelled s.now) with ⟨hd, h⟩ | h
  · rw [h]
    exact .inl ⟨hd, rfl, aside_store s (Store.tallied_counts _ _ _ _)⟩
  · rw [h]
    right
    dsimp only
    split
    · exact ⟨rfl, aside_writeLog _ _⟩
    · exact ⟨rfl, .refl _⟩

theorem aside_askDequeue (s : Site) (request : LeaseRequest) (cancelled : Bool) :
    (Deed.onAll s (deedsOfCall (s.askDequeue request cancelled).1
      (.dequeue request cancelled))).Aside (s.askDequeue request cancelled).2 := by
  rcases s.askDequeue_cases request cancelled with ⟨-, hn, ha⟩ | ⟨hs, ha⟩
  · rw [hn]
    exact ha
  · rw [hs]
    exact ha

theorem askDequeue_answer {request : LeaseRequest} {cancelled : Bool}
    {answer : Except Refusal (Option Job)} (h : (s.askDequeue request cancelled).1 = some answer) :
    (s.store.dequeue request cancelled s.now).1 = answer := by
  rcases s.askDequeue_cases request cancelled with ⟨-, hn, -⟩ | ⟨hs, -⟩
  · rw [hn] at h
    exact absurd h (by simp)
  · exact Option.some.inj (hs.symm.trans h)

/-! ## A call that extends a lease -/

theorem askHeartbeat_cases (s : Site) (record : Job) :
    (s.isDated = false ∧ (s.askHeartbeat record).1 = none ∧ s.Aside (s.askHeartbeat record).2) ∨
    ((s.askHeartbeat record).1 = some (s.store.heartbeat record s.now).1 ∧
      (s.askHeartbeat record).2 = Deed.on s (.operate (.heartbeat record))) := by
  rcases answered_cases s (!s.store.failHeartbeat && s.store.isHeld record)
    (s.store.noteBeat record.id) (s.store.heartbeat record s.now) with ⟨hd, h⟩ | h
  · rw [askHeartbeat, h]
    exact .inl ⟨hd, rfl, aside_store s (Store.tallied_counts _ _ _ _)⟩
  · rw [askHeartbeat, h]
    exact .inr ⟨rfl, rfl⟩

theorem aside_askHeartbeat (s : Site) (record : Job) :
    (Deed.onAll s (deedsOfCall (s.askHeartbeat record).1 (.heartbeat record))).Aside
      (s.askHeartbeat record).2 := by
  rcases s.askHeartbeat_cases record with ⟨-, hn, ha⟩ | ⟨hs, ha⟩
  · rw [hn]
    exact ha
  · rw [hs, ha]
    exact .refl _

/-! ## A call that hands over a result -/

theorem askComplete_cases (s : Site) (record : Job) (force : Bool) :
    (s.isDated = false ∧ (s.askComplete record force).1 = none ∧
      s.Aside (s.askComplete record force).2) ∨
    ((s.askComplete record force).1 = some (s.store.complete record force s.now).1 ∧
      (Deed.on s (.operate (.complete record force))).Aside (s.askComplete record force).2) := by
  unfold askComplete
  dsimp only
  generalize hasked : s.answered _ (s.store.noteComplete record force)
    (s.store.complete record force s.now) = asked
  obtain ⟨hd, rfl⟩ | rfl : (s.isDated = false ∧
      asked = (none, { s with store := s.store.noteComplete record force })) ∨
      asked = (some (s.store.complete record force s.now).1,
        { s with store := (s.store.complete record force s.now).2 }) := by
    rw [← hasked]
    exact answered_cases s _ _ _
  · exact .inl ⟨hd, rfl, aside_store s (Store.tallied_counts _ _ _ _)⟩
  · right
    dsimp only
    split
    · exact ⟨rfl, aside_writeLog _ _⟩
    · exact ⟨rfl, .refl _⟩

theorem aside_askComplete (s : Site) (record : Job) (force : Bool) :
    (Deed.onAll s (deedsOfCall (s.askComplete record force).1 (.complete record force))).Aside
      (s.askComplete record force).2 := by
  rcases s.askComplete_cases record force with ⟨-, hn, ha⟩ | ⟨hs, ha⟩
  · rw [hn]
    exact ha
  · rw [hs]
    exact ha

theorem askComplete_answer {record : Job} {force : Bool} {answer : Except Refusal Settlement}
    (h : (s.askComplete record force).1 = some answer) :
    (s.store.complete record force s.now).1 = answer := by
  rcases s.askComplete_cases record force with ⟨-, hn, -⟩ | ⟨hs, -⟩
  · rw [hn] at h
    exact absurd h (by simp)
  · exact Option.some.inj (hs.symm.trans h)

/-! ## Stages of a call -/

/-- A call that takes no time is under way at once. -/
theorem call_start {ρ : Type} (s : Site) (call : Call) (perform : Site → Option ρ × Site)
    (h : (s.beginCall call).1 = 0) :
    (s.call call .start perform).1 = .more (.underway (s.beginCall call).2.1) := by
  simp only [Site.call, h, if_true]

/-- A call acts in one move only, the one in which it is under way and does not break down. -/
theorem call_cases {ρ : Type} (s : Site) (call : Call) (stage : CallStage)
    (perform : Site → Option ρ × Site) :
    (stage ≠ .underway false ∧ s.Aside (s.call call stage perform).2 ∧
      ∀ answer, (s.call call stage perform).1 ≠ .done answer) ∨
    (stage = .underway false ∧
      s.call call stage perform = ((perform s).1.elim .crash .done, (perform s).2)) := by
  cases stage with
  | start =>
    refine .inl ⟨by simp, ?_⟩
    unfold Site.call
    have ha := s.aside_beginCall call
    dsimp only
    split
    · exact ⟨ha, by simp⟩
    · exact ⟨ha, by simp⟩
  | underway crashes =>
    cases crashes with
    | true => exact .inl ⟨by simp, aside_note _ _, by simp [Site.call]⟩
    | false => exact .inr ⟨rfl, rfl⟩

/-- What comes of a call at each of its stages: it is under way, or breaks down, or is answered
unless that breaks down. -/
theorem call_stages {ρ : Type} (s : Site) (call : Call) (stage : CallStage)
    (perform : Site → Option ρ × Site) :
    (∃ crashes, stage = .start ∧
      (s.call call stage perform).1.state? = some (.underway crashes)) ∨
    (stage = .underway true ∧ (s.call call stage perform).1 = .crash) ∨
    (stage = .underway false ∧ (s.call call stage perform).1 = (perform s).1.elim .crash .done) := by
  cases stage with
  | start =>
    left
    unfold Site.call
    dsimp only
    split <;> exact ⟨_, rfl, rfl⟩
  | underway crashes =>
    cases crashes with
    | true => exact .inr (.inl ⟨rfl, rfl⟩)
    | false => exact .inr (.inr ⟨rfl, rfl⟩)

/-- A call is answered in the move in which it acts. -/
theorem call_done {ρ : Type} {call : Call} {stage : CallStage} {perform : Site → Option ρ × Site}
    {answer : ρ} (h : (s.call call stage perform).1 = .done answer) :
    stage = .underway false ∧ (perform s).1 = some answer := by
  rcases s.call_cases call stage perform with ⟨-, -, hne⟩ | ⟨hstage, heq⟩
  · exact absurd h (hne answer)
  · refine ⟨hstage, ?_⟩
    rw [heq] at h
    cases hp : (perform s).1 with
    | none => simp [hp] at h
    | some a =>
      simp only [hp, Option.elim_some, Progress.done.injEq] at h
      rw [h]

theorem callDequeue_done {stage : CallStage} {request : LeaseRequest} {token : Token}
    {answer : Except Refusal (Option Job)}
    (h : (s.callDequeue stage request token).1 = .done answer) : stage = .underway false ∧
      (s.askDequeue request (s.isCancelled token)).1 = some answer :=
  call_done h

theorem callHeartbeat_done {stage : CallStage} {record : Job} {answer : Except Refusal Bool}
    (h : (s.callHeartbeat stage record).1 = .done answer) :
    stage = .underway false ∧ (s.askHeartbeat record).1 = some answer :=
  call_done h

theorem callComplete_done {stage : CallStage} {record : Job} {force : Bool}
    {token : Option Token} {answer : Except Refusal Settlement}
    (h : (s.callComplete stage record force token).1 = .done answer) :
    stage = .underway false ∧ (s.store.complete record force s.now).1 = answer := by
  obtain ⟨hstage, hasked⟩ := call_done h
  exact ⟨hstage, askComplete_answer hasked⟩

/-- The deed of a call in a stage. -/
def deedsOfStage {α : Type} (stage : CallStage) (answer : Option α) (op : Operation) : List Deed :=
  if stage = .underway false then deedsOfCall answer op else []

theorem aside_noted {α : Type} (entry : α → Trace) (asked : Option α × Site) :
    asked.2.Aside (noted entry asked).2 := by
  unfold noted
  split
  · exact aside_note _ _
  · exact .refl _

theorem aside_call {ρ : Type} (s : Site) (call : Call) (stage : CallStage)
    (perform : Site → Option ρ × Site) {op : Operation}
    (h : (Deed.onAll s (deedsOfCall (perform s).1 op)).Aside (perform s).2) :
    (Deed.onAll s (deedsOfStage stage (perform s).1 op)).Aside (s.call call stage perform).2 := by
  unfold deedsOfStage
  rcases s.call_cases call stage perform with ⟨hne, ha, -⟩ | ⟨heq, hcall⟩
  · rw [if_neg hne]
    exact ha
  · rw [if_pos heq, hcall]
    exact h

theorem aside_callDequeue (s : Site) (stage : CallStage) (request : LeaseRequest) (token : Token) :
    (Deed.onAll s (deedsOfStage stage (s.askDequeue request (s.isCancelled token)).1
      (.dequeue request (s.isCancelled token)))).Aside (s.callDequeue stage request token).2 := by
  refine s.aside_call .dequeue stage
    (fun s => noted (.dequeue request) (s.askDequeue request (s.isCancelled token))) ?_
  exact (aside_askDequeue s _ _).trans (aside_noted _ _)

theorem aside_callHeartbeat (s : Site) (stage : CallStage) (record : Job) :
    (Deed.onAll s (deedsOfStage stage (s.askHeartbeat record).1 (.heartbeat record))).Aside
      (s.callHeartbeat stage record).2 := by
  refine s.aside_call .heartbeat stage
    (fun s => noted (.heartbeat record) (s.askHeartbeat record)) ?_
  exact (aside_askHeartbeat s _).trans (aside_noted _ _)

theorem aside_callComplete (s : Site) (stage : CallStage) (record : Job) (force : Bool)
    (token : Option Token) :
    (Deed.onAll s (deedsOfStage stage (s.askComplete record force).1
      (.complete record force))).Aside (s.callComplete stage record force token).2 := by
  refine s.aside_call .complete stage (fun s =>
    noted (.complete record force (token.any s.isCancelled)) (s.askComplete record force)) ?_
  exact (aside_askComplete s _ _).trans (aside_noted _ _)

/-! ## Actions -/

/-- The deeds of an action. -/
def actDeeds (s : Site) : Action → List Deed
  | .enqueue queue definition group count =>
    if s.isDated then List.replicate count (.operate (.enqueue queue definition group))
    else if count = 0 then [] else [.skip]
  | .requestCancel id => [.operate (.requestCancel id)]
  | .age id seconds => [.operate (.age id seconds)]
  | .setInitialized value => [.operate (.setInitialized value)]
  | .setFailing call value => [.operate (.setFailing call value)]
  | .shutdown => [.cancel s.shutdown]
  | .dequeue request cancelled _ =>
    deedsOfCall (s.askDequeue request cancelled).1 (.dequeue request cancelled)
  | .dequeueNow queue worker _ =>
    let request : LeaseRequest := ⟨queue, worker, Store.defaultTimeout, none, false⟩
    deedsOfCall (s.askDequeue request false).1 (.dequeue request false)
  | .heartbeat lease overrides =>
    (s.leases.lookup lease).elim [] fun record =>
      deedsOfCall (s.askHeartbeat (overrides.apply record)).1 (.heartbeat (overrides.apply record))
  | .complete lease overrides force =>
    (s.leases.lookup lease).elim [] fun record =>
      deedsOfCall (s.askComplete (overrides.apply record) force).1
        (.complete (overrides.apply record) force)
  | .get _ | .group _ | .isInitialized | .notifyReady | .lookup _ _ | .completeCalls
  | .heartbeatCount _ | .dequeueCount => []

theorem aside_enqueueMany (queue : Queue) (definition : String) (group : Option Int) (count : Nat)
    (s : Site) :
    (Deed.onAll s (s.actDeeds (.enqueue queue definition group count))).Aside
      (enqueueMany queue definition group count s).2 := by
  induction count generalizing s with
  | zero =>
    simp only [actDeeds, List.replicate_zero, if_true, ite_self]
    exact .refl s
  | succ n ih =>
    unfold enqueueMany
    by_cases hd : s.isDated = true
    · have hnext := ih (Deed.on s (.operate (.enqueue queue definition group)))
      have hd' : isDated (Deed.on s (.operate (.enqueue queue definition group))) = true := hd
      simp only [actDeeds, hd, hd', if_true, List.replicate_succ] at hnext ⊢
      exact hnext
    · simp only [actDeeds, hd, if_neg (Nat.succ_ne_zero n), Bool.false_eq_true, if_false]
      exact .refl _

theorem aside_act (s : Site) (action : Action) :
    (Deed.onAll s (s.actDeeds action)).Aside (s.act action).2 := by
  cases action with
  | enqueue queue definition group count => exact aside_enqueueMany queue definition group count s
  | age id seconds =>
    simp only [act, actDeeds, Deed.onAll, List.foldl, Deed.on, Store.perform]
    cases s.store.age id seconds <;> exact .refl _
  | notifyReady => exact aside_notifyReady s
  | dequeue request cancelled saveAs =>
    exact (aside_askDequeue s request cancelled).trans (aside_remember _ _ _)
  | dequeueNow queue worker saveAs => exact (aside_askDequeue s _ false).trans (aside_remember _ _ _)
  | lookup id saveAs => exact aside_remember _ _ _
  | heartbeat lease overrides =>
    simp only [act, actDeeds]
    cases s.leases.lookup lease with
    | none => exact .refl s
    | some record => exact aside_askHeartbeat s _
  | complete lease overrides force =>
    simp only [act, actDeeds]
    cases s.leases.lookup lease with
    | none => exact .refl s
    | some record => exact aside_askComplete s _ force
  | _ => exact .refl _

end Site

/-- The operations that an action may ask of the store. -/
inductive Action.Asks : Action → Operation → Prop
  | enqueue {queue : Queue} {definition : String} {group : Option Int} {count : Nat} :
    Asks (.enqueue queue definition group count) (.enqueue queue definition group)
  | requestCancel {id : Int} : Asks (.requestCancel id) (.requestCancel id)
  | age {id seconds : Int} : Asks (.age id seconds) (.age id seconds)
  | setInitialized {value : Bool} : Asks (.setInitialized value) (.setInitialized value)
  | setFailing {call : Call} {value : Bool} : Asks (.setFailing call value) (.setFailing call value)
  | dequeue {request : LeaseRequest} {cancelled : Bool} {saveAs : Option String} :
    Asks (.dequeue request cancelled saveAs) (.dequeue request cancelled)
  | dequeueNow {queue : Queue} {worker : String} {saveAs : Option String} :
    Asks (.dequeueNow queue worker saveAs)
      (.dequeue ⟨queue, worker, Store.defaultTimeout, none, false⟩ false)
  | heartbeat {lease : String} {overrides : Overrides} {record : Job} :
    Asks (.heartbeat lease overrides) (.heartbeat record)
  | complete {lease : String} {overrides : Overrides} {record : Job} {force : Bool} :
    Asks (.complete lease overrides force) (.complete record force)

/-- Whether a site allows of an operation: no job can be leased without a date. -/
def Site.Allows (s : Site) (op : Operation) : Prop :=
  ∀ request, op = .dequeue request false → s.store.failDequeue = false → s.isDated = true

theorem Site.allows_of_ne {s : Site} {op : Operation}
    (h : ∀ request, op ≠ .dequeue request false) : s.Allows op :=
  fun request hop => absurd hop (h request)

theorem Site.allows_dequeue {s : Site} {request : LeaseRequest} {cancelled : Bool}
    (h : (s.askDequeue request cancelled).1.isSome = true) :
    s.Allows (.dequeue request cancelled) := by
  intro request' hop hfail
  obtain ⟨rfl, rfl⟩ := Operation.dequeue.inj hop
  cases hd : s.isDated with
  | true => rfl
  | false => simp [askDequeue, answered, hfail, hd] at h

theorem mem_deedsOfCall {α : Type} {answer : Option α} {op : Operation} {d : Deed}
    (h : d ∈ Site.deedsOfCall answer op) : answer.isSome = true ∧ d = .operate op := by
  unfold Site.deedsOfCall at h
  split at h
  · exact ⟨‹_›, List.mem_singleton.mp h⟩
  · exact absurd h List.not_mem_nil

theorem mem_deedsOfStage {α : Type} {stage : CallStage} {answer : Option α} {op : Operation}
    {d : Deed} (h : d ∈ Site.deedsOfStage stage answer op) :
    stage = .underway false ∧ answer.isSome = true ∧ d = .operate op := by
  unfold Site.deedsOfStage at h
  split at h
  · exact ⟨‹_›, mem_deedsOfCall h⟩
  · exact absurd h List.not_mem_nil

/-- An action asks operations of the store, wastes a number, or asks for shutdown. -/
theorem mem_actDeeds {s : Site} {action : Action} {d : Deed} (h : d ∈ s.actDeeds action) :
    d = .skip ∨ (action = .shutdown ∧ d = .cancel s.shutdown) ∨
      ∃ op, d = .operate op ∧ action.Asks op ∧ s.Allows op := by
  cases action with
  | enqueue queue definition group count =>
    simp only [Site.actDeeds] at h
    split at h
    · obtain ⟨-, rfl⟩ := List.mem_replicate.mp h
      exact .inr (.inr ⟨_, rfl, .enqueue, Site.allows_of_ne (by simp)⟩)
    · split at h
      · exact absurd h List.not_mem_nil
      · exact .inl (List.mem_singleton.mp h)
  | requestCancel id =>
    exact .inr (.inr ⟨_, List.mem_singleton.mp h, .requestCancel, Site.allows_of_ne (by simp)⟩)
  | age id seconds =>
    exact .inr (.inr ⟨_, List.mem_singleton.mp h, .age, Site.allows_of_ne (by simp)⟩)
  | setInitialized value =>
    exact .inr (.inr ⟨_, List.mem_singleton.mp h, .setInitialized, Site.allows_of_ne (by simp)⟩)
  | setFailing call value =>
    exact .inr (.inr ⟨_, List.mem_singleton.mp h, .setFailing, Site.allows_of_ne (by simp)⟩)
  | shutdown => exact .inr (.inl ⟨rfl, List.mem_singleton.mp h⟩)
  | dequeue request cancelled saveAs =>
    obtain ⟨hasked, rfl⟩ := mem_deedsOfCall h
    exact .inr (.inr ⟨_, rfl, .dequeue, Site.allows_dequeue hasked⟩)
  | dequeueNow queue worker saveAs =>
    obtain ⟨hasked, rfl⟩ := mem_deedsOfCall h
    exact .inr (.inr ⟨_, rfl, .dequeueNow, Site.allows_dequeue hasked⟩)
  | heartbeat lease overrides =>
    simp only [Site.actDeeds] at h
    cases hl : s.leases.lookup lease with
    | none => simp [hl] at h
    | some record =>
      rw [hl] at h
      exact .inr (.inr ⟨_, (mem_deedsOfCall h).2, .heartbeat, Site.allows_of_ne (by simp)⟩)
  | complete lease overrides force =>
    simp only [Site.actDeeds] at h
    cases hl : s.leases.lookup lease with
    | none => simp [hl] at h
    | some record =>
      rw [hl] at h
      exact .inr (.inr ⟨_, (mem_deedsOfCall h).2, .complete, Site.allows_of_ne (by simp)⟩)
  | _ => exact absurd h List.not_mem_nil

end LeasedWork.Engine
