import LeasedWork.Proofs.Engine.Promptness
import LeasedWork.Proofs.Host.Parallelism
import LeasedWork.Proofs.Store.Drain

/-!
# Moves in stillness

While nothing moves but loops, the heartbeats of their handlers, and tasks that leave everything
else alone, and while handlers are prompt, there are four kinds of moves: most of them leave the
stored jobs alone, and the others lease a job to a loop, or keep a lease in force, or store what an
execution came to. The store keeps to its rules all the time.
-/
namespace LeasedWork

/-! ## The rules of a store -/

/-- Whether a store is initialized, and does as it is asked by loops. -/
structure Store.Willing (s : Store) : Prop where
  initialized : s.initialized = true
  dequeues : s.failDequeue = false
  completes : s.failComplete = false

/-- Whether two stores keep to the same rules. -/
structure Store.RuledAlike (s t : Store) : Prop where
  initialized : t.initialized = s.initialized
  failDequeue : t.failDequeue = s.failDequeue
  failComplete : t.failComplete = s.failComplete
  maxRetries : t.maxRetries = s.maxRetries

namespace Store

variable {s t : Store}

theorem RuledAlike.refl (s : Store) : s.RuledAlike s := ⟨rfl, rfl, rfl, rfl⟩

theorem RuledAlike.trans {u : Store} (h : s.RuledAlike t) (h' : t.RuledAlike u) : s.RuledAlike u :=
  ⟨h'.initialized.trans h.initialized, h'.failDequeue.trans h.failDequeue,
    h'.failComplete.trans h.failComplete, h'.maxRetries.trans h.maxRetries⟩

theorem Tallied.ruledAlike (h : Tallied s t) : s.RuledAlike t :=
  ⟨h.initialized, h.failDequeue, h.failComplete, h.maxRetries⟩

theorem Willing.of_ruledAlike (h : s.Willing) (ha : s.RuledAlike t) : t.Willing :=
  ⟨ha.initialized.trans h.initialized, ha.failDequeue.trans h.dequeues,
    ha.failComplete.trans h.completes⟩

/-- A result is taken if it comes under the lease in force. -/
theorem complete_of_held {record : Job} {e : Entry} (hc : s.failComplete = false)
    (ht : record.status.isTerminal = true) (he : s.entry? record.id = some e)
    (hv : e.job.version = record.version) (hr : e.job.status = .running) (force : Bool)
    (now : Time.Instant) : ∃ settlement, (s.complete record force now).1 = .ok settlement := by
  have hmove : e.job.status.canBecome record.status = true := (Status.canBecome_terminal ht).mpr hr
  simp only [complete, hc, ht, he, hv, hmove, Bool.false_eq_true, if_false, Bool.not_true, ne_eq,
    not_true]
  split <;> exact ⟨_, rfl⟩

/-- Workers do not change the rules. -/
theorem ruledAlike_perform (s : Store) (now : Time.Instant) {op : Operation}
    (h : (∃ request cancelled, op = .dequeue request cancelled) ∨
      (∃ record, op = .heartbeat record) ∨ ∃ record force, op = .complete record force) :
    s.RuledAlike (s.perform now op).2 := by
  obtain ⟨request, cancelled, rfl⟩ | ⟨record, rfl⟩ | ⟨record, force, rfl⟩ := h
  · simp only [perform, dequeue]
    split
    · exact ⟨rfl, rfl, rfl, rfl⟩
    · split
      · exact ⟨rfl, rfl, rfl, rfl⟩
      · split <;> exact ⟨rfl, rfl, rfl, rfl⟩
  · rcases heartbeat_cases s record now with ⟨ht, -⟩ | ⟨e, -, -, -, -, ht⟩
    · simp only [perform, ht]
      exact ⟨rfl, rfl, rfl, rfl⟩
    · simp only [perform, ht]
      exact ⟨rfl, rfl, rfl, rfl⟩
  · rcases complete_cases s record force now with ⟨ht, -⟩ | ⟨e, -, -, -, -, -, ht⟩
    · simp only [perform, ht]
      exact ⟨rfl, rfl, rfl, rfl⟩
    · simp only [perform, ht]
      exact ⟨rfl, rfl, rfl, rfl⟩

end Store

namespace Engine

variable {s : Site} {x : Execution} {l : PollLoop} {job : Job}

/-! ## What loops ask of the store -/

theorem Action.Looks.sparesResults {action : Action} (h : action.Looks) : action.SparesResults := by
  cases action with
  | complete lease overrides force => exact absurd .complete (h.2 (.complete default force))
  | _ => exact trivial

theorem Execution.Prompt.within (h : x.Prompt) : x.Within Action.SparesResults := by
  unfold Within
  split
  · rename_i i k beats hphase
    intro step hstep
    have hprompt := (h i k beats hphase).steps step hstep
    cases step with
    | act action => exact Action.Looks.sparesResults hprompt
    | _ => exact trivial
  · exact trivial
  · exact trivial

/-- All that an execution with a prompt handler asks of the store is to take its result. -/
theorem Execution.Prompt.eq_complete (h : x.Prompt) {op : Operation}
    (hop : .operate op ∈ x.deeds s) : ∃ record force, op = .complete record force := by
  unfold deeds at hop
  cases hphase : x.phase with
  | fresh =>
    simp only [hphase, beginDeeds] at hop
    split at hop
    · simp only [List.cons_append, List.nil_append, List.mem_cons, List.mem_append,
        List.not_mem_nil, or_false, reduceCtorEq, false_or] at hop
      split at hop <;> simp at hop
    · simp at hop
  | handling i k beats =>
    obtain ⟨-, hsteps⟩ := h i k beats hphase
    have hnone : i.deeds (x.inSpan s) = [] := by
      unfold Invocation.deeds
      split
      · rename_i action rest _ hi
        exact Site.actDeeds_of_looks (hsteps (.act action) (hi ▸ List.mem_cons_self))
      · rfl
    simp only [hphase, hnone, List.nil_append] at hop
    split at hop
    · unfold decideDeeds at hop
      split at hop <;> simp at hop
    · simp at hop
  | finalizing k d o record stage =>
    simp only [hphase] at hop
    rcases List.mem_append.mp hop with hop | hop
    · obtain ⟨-, -, hop⟩ := mem_deedsOfStage hop
      exact ⟨record, d.force, Deed.operate.inj hop⟩
    · split at hop <;> simp at hop

namespace PollLoop

/-- The job that a loop is given in its next move. -/
def given? (s : Site) (l : PollLoop) : Option Job :=
  match l.phase with
  | .scanning (.underway false) => Site.leasedJob? (l.asked? s true)
  | .fetching (.underway false) => Site.leasedJob? (l.asked? s false)
  | _ => none

theorem given?_of_calling {expired : Bool} (h : l.phase = calling expired (.underway false)) :
    l.given? s = Site.leasedJob? (l.asked? s expired) := by
  cases expired <;> simp_all [given?, calling]

theorem exists_of_given? (h : l.given? s = some job) : ∃ expired,
    l.phase = calling expired (.underway false) ∧ l.asked? s expired = some (.ok (some job)) := by
  have hasked : ∀ expired, Site.leasedJob? (l.asked? s expired) = some job →
      l.asked? s expired = some (.ok (some job)) := by
    intro expired hleased
    cases hasked : l.asked? s expired with
    | none => simp [hasked, Site.leasedJob?] at hleased
    | some answer =>
      rw [hasked] at hleased
      rcases answer with refusal | (_ | found)
      · simp [Site.leasedJob?, Except.toOption] at hleased
      · simp [Site.leasedJob?, Except.toOption] at hleased
      · obtain rfl : found = job := by simpa [Site.leasedJob?, Except.toOption] using hleased
        rfl
  unfold given? at h
  split at h
  · exact ⟨true, ‹_›, hasked true h⟩
  · exact ⟨false, ‹_›, hasked false h⟩
  · exact absurd h (by simp)

/-- A loop asks for a job of its queue. -/
theorem queue_of_given? (h : l.given? s = some job) : job.queue = l.queue := by
  obtain ⟨expired, -, hasked⟩ := exists_of_given? h
  exact Store.queue_of_dequeue (Site.askDequeue_answer hasked)

theorem deeds_of_calling {expired : Bool} (h : l.phase = calling expired (.underway false)) :
    l.deeds s = Site.deedsOfCall (l.asked? s expired)
      (.dequeue (l.request s expired) (s.isCancelled l.pool)) := by
  cases expired <;> simp_all [deeds, calling, Site.deedsOfStage, asked?]

/-- A loop that is not given the answer to a call, and executes no job, does no deeds. -/
theorem deeds_of_quiet (hcall : ∀ expired, l.phase ≠ calling expired (.underway false))
    (hx : ∀ x, l.phase ≠ .executing x) : l.deeds s = [] := by
  unfold deeds
  split
  · rename_i stage hphase
    refine if_neg fun hstage => ?_
    exact hcall true (hphase.trans (by rw [hstage]; rfl))
  · rename_i stage hphase
    refine if_neg fun hstage => ?_
    exact hcall false (hphase.trans (by rw [hstage]; rfl))
  · rename_i x hphase
    exact absurd hphase (hx x)
  all_goals rfl

end PollLoop

end Engine

namespace Host

open Engine

variable {lapse : Ensemble → Nat → Prop} {start mid sys next : Ensemble} {history : List Move}
  {a b : Activity} {m : Move} {job : Job} {e : Entry}

/-! ## Calm moves -/

/-- Time stands still. -/
def still (sys : Ensemble) (clock : Nat) : Prop := clock = sys.site.clock

instance (sys : Ensemble) (clock : Nat) : Decidable (still sys clock) :=
  inferInstanceAs (Decidable (clock = sys.site.clock))

/-- Whether a move is that of a loop whose pool is not cancelled, or of heartbeats, or leaves
everything else alone. -/
def Move.Calm (m : Move) : Prop :=
  match m.mover.task with
  | .loop l => m.site.isCancelled l.pool = false
  | .heartbeat _ => True
  | _ => m.deeds = []

instance (m : Move) : Decidable m.Calm :=
  match h : m.mover.task with
  | .loop l => decidable_of_iff (m.site.isCancelled l.pool = false) (by rw [Move.Calm, h])
  | .heartbeat _ => isTrue (by rw [Move.Calm, h]; trivial)
  | .pool _ | .service _ | .timeline _ | .listener _ | .eventLog _ | .runs _ | .conductor _
  | .watch _ => decidable_of_iff (m.deeds.isEmpty = true) (by simp [Move.Calm, h, List.isEmpty_iff])

theorem Move.Calm.cases (h : m.Calm) :
    (∃ l, m.mover.task = .loop l ∧ m.site.isCancelled l.pool = false) ∨
      m.mover.task.IsHeartbeat ∨ m.deeds = [] := by
  unfold Calm at h
  split at h
  · exact .inl ⟨_, ‹_›, h⟩
  · exact .inr (.inl ⟨_, ‹_›⟩)
  · exact .inr (.inr h)

/-- The job that a loop is given in a move. -/
def Move.given? (m : Move) : Option Job :=
  match m.mover.task with
  | .loop l => l.given? m.site
  | _ => none

/-- A calm move of a task that has come to it from an opening, handlers being prompt. -/
structure Move.Regular (m : Move) : Prop where
  calm : m.Calm
  mem : m.mover ∈ m.sys.activities
  sound : m.sys.Sound
  store : m.site.store.Sound
  records : ∀ x, m.mover.task.execution? = some x → x.KeepsRecord
  prompt : ∀ x, m.mover.task.execution? = some x → x.Prompt

theorem Task.prompt_of_state? {s : Site} {t t' : Task} (hs : s.HandlesPromptly)
    (ht : ∀ x, t.execution? = some x → x.Prompt) (h : (t.step s).1.state? = some t') :
    ∀ x, t'.execution? = some x → x.Prompt := by
  intro x' hx'
  rcases execution_cases h hx' with ⟨x, hx, hgo⟩ | ⟨hx, -⟩ | ⟨job, k, rfl, -⟩
  · have hprompt := ht x (execution?_of_acting? hx)
    intro i' k beats hphase'
    cases hgo with
    | begun hphase hh =>
      -- The relation does not say which invocation is begun, the step does.
      obtain ⟨x'', hstate, -⟩ := Execution.running_of_begun s hphase (by rw [hh]; rfl)
      obtain ⟨t'', ht'', hx''⟩ := state?_of_acting? hx hstate
      obtain rfl := Option.some.inj (h.symm.trans ht'')
      obtain rfl := Option.some.inj (hx'.symm.trans hx'')
      exact hprompt.of_state? hs hstate i' k beats hphase'
    | handles hphase hi =>
      obtain ⟨rfl, -, -⟩ := ExecutionPhase.handling.inj hphase'
      exact (Invocation.Prompt.of_state? (hprompt _ _ _ hphase) hi).1
    | decided => exact absurd hphase' (by simp)
    | calls => exact absurd hphase' (by simp)
  · exact ht x' hx
  · exact fun i k beats hphase => absurd hphase (by simp [Execution.fresh])

/-- If all handlers are prompt, every execution has a prompt one. -/
theorem Interleaving.prompt (h : Interleaving lapse start history sys) (hs : start.Opening)
    (hp : start.site.HandlesPromptly) :
    ∀ a ∈ sys.activities, ∀ x, a.task.execution? = some x → x.Prompt := by
  induction h with
  | nil =>
    intro a ha x hx
    rw [(hs.fresh a ha).execution?] at hx
    exact absurd hx (by simp)
  | @move history sys a h ha hf ih =>
    have hhandlers : sys.site.HandlesPromptly := by
      unfold Site.HandlesPromptly
      rw [h.setAlike.registry]
      exact hp
    refine (h.sound hs.toSound).tasks_move (Q := fun t => ∀ x, t.execution? = some x → x.Prompt)
      (fun t ht => ?_) (fun b hb _ => ih b hb)
      (fun t ht => Task.prompt_of_state? hhandlers (ih a ha) ht) (fun word _ x hx => ?_)
    · cases t <;> exact ht
    · obtain ⟨id, word⟩ := word
      cases word <;> exact absurd hx (by simp [Task.ofStart, Task.execution?, PollLoop.fresh])
  | pause _ hp ih =>
    intro b hb
    obtain ⟨c, hc, -, htask⟩ := hp.exists_task hb
    exact htask ▸ ih c hc

theorem Interleaving.regular (h : Interleaving lapse start history sys) (hs : start.Opening)
    (hstore : start.site.store.Sound) (hp : start.site.HandlesPromptly) (ha : a ∈ sys.activities)
    (hcalm : Move.Calm ⟨sys, a⟩) : Move.Regular ⟨sys, a⟩ where
  calm := hcalm
  mem := ha
  sound := h.sound hs.toSound
  store := h.store_sound hstore
  records := h.keepsRecord hs a ha
  prompt := h.prompt hs hp a ha

/-! ## What moves in stillness do -/

/-- What a move in stillness does to the stored jobs, and what is told of it. -/
inductive Move.Effect (m : Move) : Prop
  | spares (hentries : m.after.site.store.entries = m.site.store.entries) (hgiven : m.given? = none)
    (htold : ∀ told ∈ m.published, told.isFinal = false)
  | leases {e : Entry} {request : LeaseRequest} (he : m.site.store.entry? e.job.id = some e)
    (hel : Store.isEligible request m.site.now e.job = true)
    (htimeout : request.timeout = m.site.timing.leaseTimeout)
    (hgiven : m.given? = some (Store.leased request.worker m.site.now e.job))
    (hentries : m.after.site.store.entries =
      (m.site.store.modify e.job.id (Store.leasedEntry request m.site.now)).entries)
    (htold : ∀ told ∈ m.published, told.isFinal = false)
  | beats {e : Entry} (he : m.site.store.entry? e.job.id = some e) (hr : e.job.status = .running)
    (hgiven : m.given? = none)
    (hentries : m.after.site.store.entries = (m.site.store.modify e.job.id fun e =>
      { e with job := { e.job with beat := m.site.now } }).entries)
    (htold : ∀ told ∈ m.published, told.isFinal = false)
  | settles {x : Execution} {d : Disposition} {o : Outcome} {e : Entry} (hover : m.HandsOver x d o)
    (he : m.site.store.entry? x.job.id = some e) (hv : e.job.version = x.job.version)
    (hr : e.job.status = .running) (hgiven : m.given? = none)
    (hentries : m.after.site.store.entries = (m.site.store.modify x.job.id (Store.finalized
      m.site.store.maxRetries (Execution.finalRecord x.job o d) d.force m.site.now)).entries)
    (htold : m.published = [Execution.event x.job o d])

namespace Move

/-- A move that asks nothing of the store leaves the stored jobs alone. -/
theorem entries_of_no_operation (hs : m.site.store.Sound) (h : ∀ op, .operate op ∉ m.deeds) :
    m.after.site.store.entries = m.site.store.entries :=
  Move.store_induction (P := fun t => t.entries = m.site.store.entries)
    (fun _ _ ht hp => ht.trans hp) (fun op hop => absurd hop (h op)) hs rfl

theorem given?_of_loop {l : PollLoop} (ht : m.mover.task = .loop l) :
    m.given? = l.given? m.site := by
  rw [given?, ht]

theorem given?_of_executing {x : Execution} (hx : m.mover.task.acting? m.site = some x) :
    m.given? = none := by
  unfold given?
  split
  · rename_i l ht
    rw [ht] at hx
    simp only [Task.acting?] at hx
    split at hx
    · rename_i hphase
      simp only [PollLoop.given?, hphase]
    · exact absurd hx (by simp)
  · rfl

/-- A loop that is given the answer to its call is given a job, or is told that there is none. -/
theorem effect_of_calling {l : PollLoop} {expired : Bool} (ht : m.mover.task = .loop l)
    (hphase : l.phase = PollLoop.calling expired (.underway false)) (hs : m.site.store.Sound)
    (htold : ∀ told ∈ m.published, told.isFinal = false) : m.Effect := by
  have hdeeds : m.deeds = Site.deedsOfCall (l.asked? m.site expired)
      (.dequeue (l.request m.site expired) (m.site.isCancelled l.pool)) := by
    rw [deeds, ht]
    exact PollLoop.deeds_of_calling hphase
  have hgiven : m.given? = Site.leasedJob? (l.asked? m.site expired) := by
    rw [given?_of_loop ht, PollLoop.given?_of_calling hphase]
  cases hasked : l.asked? m.site expired with
  | none =>
    rw [hasked] at hdeeds hgiven
    refine .spares (entries_of_no_operation hs fun op hop => ?_) hgiven htold
    rw [hdeeds] at hop
    exact absurd hop List.not_mem_nil
  | some answer =>
    have hop : .operate (.dequeue (l.request m.site expired) (m.site.isCancelled l.pool)) ∈
        m.deeds := by
      rw [hdeeds, hasked]
      exact List.mem_cons_self
    have hanswer := Site.askDequeue_answer hasked
    have hentries : m.after.site.store.entries = (m.site.store.dequeue (l.request m.site expired)
        (m.site.isCancelled l.pool) m.site.now).2.entries :=
      (m.tallied_of_operation hop (by simp)).entries
    rcases hs.dequeue_cases (l.request m.site expired) (m.site.isCancelled l.pool) m.site.now with
      ⟨ht', hnone⟩ | ⟨e, he, -, hel, hjob, ht'⟩
    · rw [ht'] at hentries
      refine .spares hentries ?_ htold
      rw [hgiven, hasked]
      rcases answer with refusal | (_ | job)
      · rfl
      · rfl
      · exact absurd hanswer (hnone job)
    · rw [ht'] at hentries
      refine .leases he hel rfl ?_ hentries htold
      rw [hgiven, hasked, ← hanswer, hjob]
      rfl

theorem eq_heartbeat {h : Heartbeat} (ht : m.mover.task = .heartbeat h) {op : Operation}
    (hop : .operate op ∈ m.deeds) : op = .heartbeat h.record := by
  rw [deeds, ht] at hop
  cases Task.origin_of_heartbeat (p := fun _ => False) hop with
  | asked hp => exact absurd hp id
  | dequeue hrequests =>
    obtain ⟨l, -, hl, -⟩ | ⟨r, -, hr, -⟩ := hrequests
    · exact absurd hl (by simp)
    · exact absurd hr (by simp)
  | beat hh => rw [Task.heartbeat.inj hh]
  | complete hx => exact absurd hx (by simp [Task.acting?])

/-- Heartbeats keep a lease in force, or find that it is lost. -/
theorem effect_of_heartbeat {h : Heartbeat} (ht : m.mover.task = .heartbeat h)
    (hs : m.site.store.Sound) (htold : ∀ told ∈ m.published, told.isFinal = false) :
    m.Effect := by
  have hgiven : m.given? = none := by rw [given?, ht]
  by_cases hop : ∃ op, .operate op ∈ m.deeds
  · obtain ⟨op, hop⟩ := hop
    obtain rfl := eq_heartbeat ht hop
    have hentries : m.after.site.store.entries =
        (m.site.store.heartbeat h.record m.site.now).2.entries :=
      (m.tallied_of_operation hop (by simp)).entries
    rcases Store.heartbeat_cases m.site.store h.record m.site.now with
      ⟨ht', -⟩ | ⟨e, he, -, hr, -, ht'⟩
    · rw [ht'] at hentries
      exact .spares hentries hgiven htold
    · have hid := Store.id_of_entry? he
      rw [ht', ← hid] at hentries
      exact .beats (hid ▸ he) hr hgiven hentries htold
  · rw [not_exists] at hop
    exact .spares (entries_of_no_operation hs hop) hgiven htold

/-- What a loop with prompt handlers asks of the store, it asks in the last move of a call. -/
theorem Regular.loop_cases (h : m.Regular) {l : PollLoop} (ht : m.mover.task = .loop l)
    {op : Operation} (hop : .operate op ∈ m.deeds) :
    (∃ record force, op = .complete record force) ∨
      ∃ expired request cancelled, l.phase = PollLoop.calling expired (.underway false) ∧
        op = .dequeue request cancelled := by
  have hdeeds : m.deeds = l.deeds m.site := by rw [deeds, ht, Task.deeds]
  rw [hdeeds] at hop
  by_cases hx : ∃ x, l.phase = .executing x
  · obtain ⟨x, hx⟩ := hx
    rw [PollLoop.deeds, hx] at hop
    have hprompt := h.prompt x (by rw [ht, Task.execution?, hx])
    exact .inl (hprompt.eq_complete hop)
  · by_cases hcall : ∃ expired, l.phase = PollLoop.calling expired (.underway false)
    · obtain ⟨expired, hphase⟩ := hcall
      rw [PollLoop.deeds_of_calling hphase] at hop
      obtain ⟨-, hop⟩ := mem_deedsOfCall hop
      exact .inr ⟨expired, _, _, hphase, Deed.operate.inj hop⟩
    · rw [not_exists] at hx hcall
      rw [PollLoop.deeds_of_quiet hcall hx] at hop
      exact absurd hop List.not_mem_nil

theorem given?_of_deeds_nil (h : m.deeds = []) : m.given? = none := by
  cases hgiven : m.given? with
  | none => rfl
  | some job =>
    unfold given? at hgiven
    split at hgiven
    · rename_i l ht
      obtain ⟨expired, hphase, hasked⟩ := PollLoop.exists_of_given? hgiven
      rw [deeds, ht, Task.deeds, PollLoop.deeds_of_calling hphase, hasked] at h
      exact absurd h (by simp [Site.deedsOfCall])
    · exact absurd hgiven (by simp)

/-- Moves in stillness do one of four things. -/
theorem Regular.effect (h : m.Regular) : m.Effect := by
  by_cases hnone : m.deeds = []
  · refine .spares (entries_of_no_operation h.store ?_) (given?_of_deeds_nil hnone) ?_
    · simp [hnone]
    · simp [published_eq, hnone]
  have hw : m.mover.task.Within Action.SparesResults := by
    rcases h.calm.cases with ⟨l, ht, -⟩ | ⟨g, ht⟩ | hnil
    · rw [ht]
      exact fun x hx => (h.prompt x (by rw [ht, Task.execution?, hx])).within
    · rw [ht]
      exact trivial
    · exact absurd hnil hnone
  rcases handsOver_or hw h.records with ⟨x, d, o, hover⟩ | ⟨htold, hops⟩
  · have hgiven := given?_of_executing hover.acts
    rcases hover.cases with ⟨htold, hentries⟩ | ⟨htold, e, he, hv, hr, hentries⟩
    · exact .spares hentries hgiven (by simp [htold])
    · exact .settles hover he hv hr hgiven hentries htold
  · rcases h.calm.cases with ⟨l, ht, -⟩ | ⟨g, ht⟩ | hnil
    · by_cases hcall : ∃ expired, l.phase = PollLoop.calling expired (.underway false)
      · obtain ⟨expired, hphase⟩ := hcall
        exact effect_of_calling ht hphase h.store htold
      · rw [not_exists] at hcall
        refine .spares (entries_of_no_operation h.store fun op hop => ?_) ?_ htold
        · rcases h.loop_cases ht hop with ⟨record, force, hcomplete⟩ | ⟨expired, _, _, hphase, -⟩
          · exact hops op hop record force hcomplete
          · exact hcall expired hphase
        rw [given?_of_loop ht]
        cases hgiven : l.given? m.site with
        | none => rfl
        | some job =>
          obtain ⟨expired, hphase, -⟩ := PollLoop.exists_of_given? hgiven
          exact absurd hphase (hcall expired)
    · exact effect_of_heartbeat ht h.store htold
    · exact absurd hnil hnone

/-- Moves in stillness leave the rules of the store alone. -/
theorem Regular.ruledAlike (h : m.Regular) : m.site.store.RuledAlike m.after.site.store := by
  have hworks : ∀ op, .operate op ∈ m.deeds →
      (∃ request cancelled, op = .dequeue request cancelled) ∨
      (∃ record, op = .heartbeat record) ∨ ∃ record force, op = .complete record force := by
    intro op hop
    rcases h.calm.cases with ⟨l, ht, -⟩ | ⟨g, ht⟩ | hnil
    · rcases h.loop_cases ht hop with hcomplete | ⟨-, request, cancelled, -, hdequeue⟩
      · exact .inr (.inr hcomplete)
      · exact .inl ⟨request, cancelled, hdequeue⟩
    · exact .inr (.inl ⟨_, eq_heartbeat ht hop⟩)
    · rw [hnil] at hop
      exact absurd hop List.not_mem_nil
  refine Store.RuledAlike.trans ?_ m.tallied_after.ruledAlike
  refine Deed.onAll_induction (P := fun t => m.site.store.RuledAlike t.store) (fun d hd t ht => ?_)
    (.refl _)
  cases d with
  | operate op => exact ht.trans (t.store.ruledAlike_perform t.now (hworks op hd))
  | skip => exact ht.trans ⟨rfl, rfl, rfl, rfl⟩
  | _ => exact ht

/-- What a move in stillness does to one of the stored jobs, and what is told of it. -/
inductive Touches (m : Move) (e : Entry) : Prop
  | spares (hafter : m.after.site.store.entry? e.job.id = some e)
    (hgiven : ∀ job, m.given? = some job → job.id ≠ e.job.id)
    (htold : ∀ told ∈ m.published, told.isFinal = true → told.job? ≠ some e.job.id)
  | leases {request : LeaseRequest} (hel : Store.isEligible request m.site.now e.job = true)
    (htimeout : request.timeout = m.site.timing.leaseTimeout)
    (hgiven : m.given? = some (Store.leased request.worker m.site.now e.job))
    (hafter : m.after.site.store.entry? e.job.id =
      some (Store.leasedEntry request m.site.now e))
    (htold : ∀ told ∈ m.published, told.isFinal = true → told.job? ≠ some e.job.id)
  | beats (hr : e.job.status = .running) (hgiven : m.given? = none)
    (hafter : m.after.site.store.entry? e.job.id =
      some { e with job := { e.job with beat := m.site.now } })
    (htold : ∀ told ∈ m.published, told.isFinal = true → told.job? ≠ some e.job.id)
  | settles {x : Execution} {d : Disposition} {o : Outcome} (hover : m.HandsOver x d o)
    (hid : x.job.id = e.job.id) (hv : e.job.version = x.job.version)
    (hr : e.job.status = .running) (hgiven : m.given? = none)
    (hafter : m.after.site.store.entry? e.job.id = some (Store.finalized
      m.site.store.maxRetries (Execution.finalRecord x.job o d) d.force m.site.now e))
    (htold : m.published = [Execution.event x.job o d])

theorem Effect.touches (h : m.Effect) (he : m.site.store.entry? e.job.id = some e) :
    m.Touches e := by
  have hspared : (∀ told ∈ m.published, told.isFinal = false) →
      ∀ told ∈ m.published, told.isFinal = true → told.job? ≠ some e.job.id :=
    fun htold told hmem hfinal => absurd ((htold told hmem).symm.trans hfinal) (by simp)
  cases h with
  | spares hentries hgiven htold =>
    exact .spares (by rw [Store.entry?_congr hentries, he]) (by simp [hgiven]) (hspared htold)
  | @leases a request ha hel htimeout hgiven hentries htold =>
    have hafter := Store.entry?_congr hentries e.job.id
    rw [Store.entry?_modify _ (Store.keepsNumber_leasedEntry _ _)] at hafter
    by_cases hid : e.job.id = a.job.id
    · obtain rfl : a = e := Option.some.inj (ha.symm.trans (hid ▸ he))
      rw [if_pos rfl, he, Option.map_some] at hafter
      exact .leases hel htimeout hgiven hafter (hspared htold)
    · rw [if_neg hid, he] at hafter
      refine .spares hafter (fun job hjob => ?_) (hspared htold)
      obtain rfl := Option.some.inj (hgiven.symm.trans hjob)
      exact fun heq => hid heq.symm
  | @beats a ha hr hgiven hentries htold =>
    have hafter := Store.entry?_congr hentries e.job.id
    rw [Store.entry?_modify] at hafter
    by_cases hid : e.job.id = a.job.id
    · obtain rfl : a = e := Option.some.inj (ha.symm.trans (hid ▸ he))
      rw [if_pos rfl, he, Option.map_some] at hafter
      exact .beats hr hgiven hafter (hspared htold)
    · rw [if_neg hid, he] at hafter
      exact .spares hafter (by simp [hgiven]) (hspared htold)
    · exact fun _ => rfl
  | @settles x d o a hover ha hv hr hgiven hentries htold =>
    have hafter := Store.entry?_congr hentries e.job.id
    rw [Store.entry?_modify _ (Store.keepsNumber_finalized _ _ _ _)] at hafter
    by_cases hid : e.job.id = x.job.id
    · obtain rfl : a = e := Option.some.inj (ha.symm.trans (hid ▸ he))
      rw [if_pos hid, ← hid, he, Option.map_some] at hafter
      exact .settles hover hid.symm hv hr hgiven hafter htold
    · rw [if_neg hid, he] at hafter
      refine .spares hafter (by simp [hgiven]) fun told hmem _ => ?_
      obtain rfl := List.mem_singleton.mp (htold ▸ hmem)
      rw [Execution.job?_event]
      exact fun heq => hid (Option.some.inj heq).symm

/-- The result of an execution is taken if its lease is in force and the store is willing. -/
theorem HandsOver.taken {x : Execution} {d : Disposition} {o : Outcome} (h : m.HandsOver x d o)
    (hdated : m.site.isDated = true) (hw : m.site.store.Willing)
    (he : m.site.store.entry? x.job.id = some e) (hv : e.job.version = x.job.version)
    (hr : e.job.status = .running) : m.published = [Execution.event x.job o d] := by
  obtain ⟨k, hdeeds | ⟨refusal, hanswer, -⟩ | ⟨settlement, -, hdeeds⟩⟩ := h.deeds_eq
  · obtain ⟨k', hphase⟩ := h.phase
    have hasked :
        ((x.inSpan m.site).askComplete (Execution.finalRecord x.job o d) d.force).1.isSome = true := by
      rcases (x.inSpan m.site).askComplete_cases (Execution.finalRecord x.job o d) d.force with
        ⟨hundated, -⟩ | ⟨hsome, -⟩
      · exact absurd (hundated.symm.trans hdated) (by simp)
      · rw [hsome]
        rfl
    have hop : .operate (.complete (Execution.finalRecord x.job o d) d.force) ∈ m.deeds := by
      rw [deeds, Task.deeds_of_acting? h.acts, Execution.deeds, hphase]
      exact List.mem_append_left _ (by simp [Site.deedsOfStage, Site.deedsOfCall, hasked])
    rw [hdeeds] at hop
    exact absurd hop (by simp)
  · have hterminal : (Execution.finalRecord x.job o d).status.isTerminal = true :=
      Disposition.isTerminal_status d
    obtain ⟨settlement, htaken⟩ :=
      Store.complete_of_held hw.completes hterminal he hv hr d.force m.site.now
    exact absurd (hanswer.symm.trans htaken) (by simp)
  · rw [published_eq, hdeeds]
    rfl

end Move

/-! ## Loops in stillness -/

theorem loop_of_heeding {ids : List TaskId} {l : PollLoop}
    (ht : (a.heeding ids).task = .loop l) : a.task = .loop l := by
  unfold Activity.heeding at ht
  split at ht
  · rw [Activity.stopped] at ht
    cases hta : a.task <;> simp [hta, Task.stop] at ht
    rw [ht]
  · exact ht

/-- A busy loop waits for nothing, and none of its calls is going to break down, if handlers are
prompt and calls are answered at once. -/
theorem Interleaving.busy_free (h : Interleaving lapse start history sys) (hs : start.Opening)
    (hp : start.site.HandlesPromptly) (hswift : start.site.Swift) :
    ∀ b ∈ sys.activities, ∀ l, b.task = .loop l → l.Busy → b.wait = none ∧ l.Unbroken := by
  induction h with
  | nil =>
    intro b hb l ht hbusy
    have hfresh := hs.fresh b hb
    rw [ht] at hfresh
    have hphase : l.phase = .gate := hfresh
    simp [PollLoop.Busy, hphase] at hbusy
  | @move history sys a h ha hf ih =>
    intro b hb l' ht hbusy
    have hsound := h.sound hs.toSound
    obtain ⟨c, rfl, hc⟩ := hsound.mem_move_cases hb
    have htask := loop_of_heeding ht
    suffices hfree : c.wait = none ∧ l'.Unbroken from ⟨Activity.wait_heeding hfree.1, hfree.2⟩
    rcases hc with ⟨hc, -⟩ | ⟨-, hgo⟩ | ⟨⟨n, word⟩, -, rfl⟩
    · exact ih c hc l' htask hbusy
    · have hstate := hgo.state?
      rw [htask] at hstate
      cases hta : a.task with
      | loop l =>
        rw [hta] at hstate hgo
        obtain ⟨l₁, hl₁, heq⟩ := state?_within hstate
        obtain rfl := Task.loop.inj heq
        have hprompt : ∀ x, l.phase = .executing x → x.Prompt :=
          fun x hx => h.prompt hs hp a ha x (by rw [hta, Task.execution?, hx])
        obtain ⟨hmore, hunbroken⟩ :=
          PollLoop.step_of_swift (h.setAlike.swift_iff.mpr hswift) hprompt hl₁ hbusy
        simp only [Task.step, hmore, Progress.within] at hgo
        cases hgo with
        | more _ hwait => exact ⟨hwait, hunbroken⟩
      | _ =>
        rw [hta] at hstate
        obtain ⟨_, -, heq⟩ := state?_within hstate
        exact absurd heq (by simp)
    · cases word <;>
        simp only [Activity.started, Task.ofStart, Task.loop.injEq, reduceCtorEq] at htask
      rw [← htask] at hbusy
      exact absurd hbusy id
  | pause _ hp ih =>
    intro b hb l ht hbusy
    obtain ⟨c, hc, -, htask, hwait⟩ := hp.wait_cases hb
    obtain ⟨hnone, hunbroken⟩ := ih c hc l (htask.trans ht) hbusy
    refine ⟨?_, hunbroken⟩
    rcases hwait with hsame | ⟨hnone', -⟩
    · exact hsame.trans hnone
    · exact hnone'

end Host

end LeasedWork
