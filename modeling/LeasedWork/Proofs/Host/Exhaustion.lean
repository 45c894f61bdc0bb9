import LeasedWork.Proofs.Engine.SoftFailure
import LeasedWork.Proofs.Host.Draining
import LeasedWork.Proofs.Store.Refusal

/-!
# Retries are used up

When a busy loop has come to rest, no job of its queue waits any more. A job that fails softly
whenever it is executed has then been executed once and once more for each retry that it had left:
it waits with some of them used, is given to a loop, and its soft failure either puts it back with
one more of them used or, when there is none left, ends it.
-/
namespace LeasedWork

open Time (Instant)

/-- Whether an event tells that a job failed softly. -/
def Event.isSoftFailure (id : Int) : Event → Bool
  | jobFailed job _ soft _ => soft && job = id
  | _ => false

theorem Event.isFinal_of_isSoftFailure {id : Int} {e : Event} (h : e.isSoftFailure id = true) :
    e.isFinal = true ∧ e.job? = some id := by
  cases e with
  | jobFailed job queue soft error =>
    simp only [isSoftFailure, Bool.and_eq_true, decide_eq_true_eq] at h
    exact ⟨rfl, congrArg some h.2⟩
  | _ => exact absurd h (by simp [isSoftFailure])

namespace Store

variable {s : Store} {e : Entry} {now : Instant}

/-- If no job is handed out, none is eligible. -/
theorem isEligible_of_no_lease {request : LeaseRequest} (hf : s.failDequeue = false)
    (h : ∀ job, (s.dequeue request false now).1 ≠ .ok (some job)) (he : e ∈ s.entries) :
    isEligible request now e.job = false := by
  simp only [dequeue, hf, Bool.false_eq_true, if_false] at h
  cases hfind : s.entries.find? fun e => isEligible request now e.job with
  | none => simpa using List.find?_eq_none.mp hfind e he
  | some a => exact absurd rfl (hfind ▸ h _)

/-- The holder of a lease in force is told to give its job up only if that was asked for. -/
theorem heartbeat_of_held {record : Job} (he : s.entry? record.id = some e)
    (hv : e.job.version = record.version) (hr : e.job.status = .running)
    (h : (s.heartbeat record now).1 = .ok true) : e.job.cancelRequested = true := by
  unfold heartbeat at h
  simp only [he, hv, hr, ne_eq, not_true, or_self, if_false] at h
  split at h
  · exact absurd h (by simp)
  · exact Except.ok.inj h

end Store

namespace Host

open Engine

variable {start mid sys : Ensemble} {history before after : List Move} {a b c : Activity} {m : Move}
  {job : Job} {l l' : PollLoop} {x : Execution} {e : Entry} {k : Token} {id version : Int}

/-! ## Where loops rest -/

/-- A loop rests because the store is not initialized, or because it has found no job. -/
theorem Move.Rests.cases (h : m.Rests l) : m.site.store.initialized = false ∨
    l.phase = .fetching (.underway false) ∧
      ∃ answer, l.asked? m.site false = some answer ∧ ∀ job, answer ≠ .ok (some job) := by
  obtain ⟨-, l', hstate, hidle⟩ := h
  cases (l.proceeds_step m.site l' hstate).2 with
  | skips _ _ hinit => exact .inl hinit
  | rests hphase hasked hnone => exact .inr ⟨hphase, _, hasked, hnone⟩
  | waits _ h' => rcases h' with h' | h' <;> exact absurd (hidle.symm.trans h') (by simp)
  | @begins expired _ _ _ h' | @calls expired _ _ h' =>
    cases expired <;> exact absurd (hidle.symm.trans h') (by simp [PollLoop.calling])
  | enters _ _ h' | wakes _ _ h' | granted _ _ h' | turns _ _ _ h' | executes _ _ h'
  | concludes _ _ h' => exact absurd (hidle.symm.trans h') (by simp)

/-- Where a loop comes to rest though the store is willing, no job of its queue waits. -/
theorem Move.Rests.emptied (h : m.Rests l) (hw : m.site.store.Willing)
    (hpool : m.site.isCancelled l.pool = false) : m.site.isDated = true ∧
      ∀ e ∈ m.after.site.store.entries, e.job.queue = l.queue → e.job.status ≠ .created := by
  rcases h.cases with hinit | ⟨hphase, answer, hasked, hnone⟩
  · exact absurd (hw.initialized.symm.trans hinit) (by simp)
  have hanswer := Site.askDequeue_answer hasked
  rw [hpool] at hanswer
  have hdated : m.site.isDated = true := by
    have hallows : m.site.Allows
        (.dequeue (l.request m.site false) (m.site.isCancelled l.pool)) := by
      refine Site.allows_dequeue ?_
      rw [PollLoop.asked?] at hasked
      rw [hasked]
      rfl
    exact hallows _ (by rw [hpool]) hw.dequeues
  have hlease : ∀ job,
      (m.site.store.dequeue (l.request m.site false) false m.site.now).1 ≠ .ok (some job) :=
    fun job => hanswer ▸ hnone job
  refine ⟨hdated, fun e he hqueue hcreated => ?_⟩
  have hop : .operate (.dequeue (l.request m.site false) false) ∈ m.deeds := by
    have hcalling : l.phase = PollLoop.calling false (.underway false) := hphase
    rw [deeds, h.1, Task.deeds, PollLoop.deeds_of_calling hcalling, hasked, hpool]
    exact List.mem_cons_self
  have hentries : m.after.site.store.entries = m.site.store.entries := by
    rw [(m.tallied_of_operation hop (by simp)).entries, Store.perform,
      Store.dequeue_of_no_lease hlease]
    rfl
  have hineligible := Store.isEligible_of_no_lease hw.dequeues hlease (hentries ▸ he)
  simp [Store.isEligible, PollLoop.request, hqueue, hcreated] at hineligible

/-! ## Executions on the way to a soft failure -/

/-- A handler that is started for a job that is not to be cancelled is not abandoned. -/
theorem Issued.unabandoned_begun (hi : Issued start history sys)
    (ha : a.task.acting? sys.site = some x) (hphase : x.phase = .fresh) (hh : (sys.site.registry.handler? x.job).isSome = true)
    (hspared : x.job.cancelRequested = false) :
    (sys.move a).site.tokens.isAbandoned (sys.site.newToken x.shutdown) = false := by
  by_contra habandoned
  rw [Bool.not_eq_false] at habandoned
  rcases (Move.isAbandoned_after ⟨sys, a⟩ _).mp habandoned with hbefore | hmem
  · exact (made_of_begun ha hphase hh).1 (hi.abandoned _ hbefore)
  · rw [Move.deeds, Move.site, Task.deeds_of_acting? ha,
      Execution.deeds_of_begun _ hphase hh] at hmem
    simp [hspared] at hmem

/-- An execution with its lease in force is not abandoned unless that is asked for. -/
theorem Issued.unabandoned_move (hi : Issued start history sys) (ha : a ∈ sys.activities)
    (hc : c ∈ sys.activities) (hx : c.task.execution? = some x) (hk : x.token? = some k)
    (he : sys.site.store.entry? x.job.id = some e) (hv : e.job.version = x.job.version)
    (hr : e.job.status = .running) (hspared : e.job.cancelRequested = false)
    (hun : sys.site.tokens.isAbandoned k = false) :
    (sys.move a).site.tokens.isAbandoned k = false := by
  by_contra habandoned
  rw [Bool.not_eq_false] at habandoned
  rcases (Move.isAbandoned_after ⟨sys, a⟩ _).mp habandoned with hbefore | hmem
  · exact absurd (hun.symm.trans hbefore) (by simp)
  · obtain ⟨-, -, -, -, -, -, hanswer⟩ := (hi.abandon_iff ha hc hx hk).mp hmem
    rcases sys.site.askHeartbeat_cases x.job.snapshot with ⟨-, hnone, -⟩ | ⟨hsome, -⟩
    · exact absurd (hnone.symm.trans hanswer) (by simp)
    · have hcancel : e.job.cancelRequested = true :=
        Store.heartbeat_of_held he hv hr (Option.some.inj (hsome.symm.trans hanswer))
      exact absurd (hspared.symm.trans hcancel) (by simp)

/-- Whether a loop executes a job under a lease, on the way to a soft failure. -/
structure Ensemble.Tries (sys : Ensemble) (c : Activity) (l : PollLoop) (x : Execution)
    (id version : Int) : Prop where
  mem : c ∈ sys.activities
  task : c.task = .loop l
  phase : l.phase = .executing x
  id : x.job.id = id
  version : x.job.version = version
  job : x.job.FailsSoftly sys.site.registry
  fails : x.FailsSoftly
  unabandoned : ∀ k, x.token? = some k → sys.site.tokens.isAbandoned k = false

namespace Ensemble.Tries

theorem execution (h : sys.Tries c l x id version) : c.task.execution? = some x := by
  rw [h.task, Task.execution?, h.phase]

theorem acts (h : sys.Tries c l x id version) (s : Site) : c.task.acting? s = some x := by
  rw [h.task, Task.acting?, h.phase]

/-- A loop that is given a job that fails softly is on the way to that. -/
theorem of_given (hm : Move.Regular ⟨sys, a⟩) (hgiven : Move.given? ⟨sys, a⟩ = some job)
    (hjob : job.FailsSoftly sys.site.registry) :
    ∃ c l x, (sys.move a).Tries c l x job.id job.version := by
  unfold Move.given? at hgiven
  split at hgiven
  · rename_i l ht
    obtain ⟨expired, hphase, hasked⟩ := PollLoop.exists_of_given? hgiven
    have htask : a.task = .loop l := ht
    obtain ⟨d, hd, -, hdtask⟩ := hm.sound.exists_move_of_state? hm.mem
      (htask ▸ Task.state?_loop (PollLoop.state?_of_granted hphase hasked)) rfl
    refine ⟨d, _, _, hd, hdtask, rfl, rfl, rfl, ?_, trivial, ?_⟩
    · rw [(sys.setAlike_move a).registry]
      exact hjob
    · exact fun k hk => absurd hk (by simp [Execution.fresh, Execution.token?])
  · exact absurd hgiven (by simp)

variable (h : sys.Tries c l x id version)

include h

/-- An execution that goes on stays on the way to its soft failure. -/
theorem goes_on (hm : Move.Regular ⟨sys, c⟩) (hi : Issued start history sys) {x' : Execution}
    (hstate : (x.step sys.site).1.state? = some x')
    (hkept : ∀ k, x.token? = some k → (sys.move c).site.tokens.isAbandoned k = false) :
    ∃ c' l', (sys.move c).Tries c' l' x' id version := by
  have hgo := Execution.goes_of_state? hstate
  have hloop := PollLoop.state?_of_executing h.phase hstate
  obtain ⟨d, hd, -, hdtask⟩ := hm.sound.exists_move_of_state? h.mem
    (h.task ▸ Task.state?_loop hloop) rfl
  refine ⟨d, _, hd, hdtask, rfl, hgo.job_eq.1 ▸ h.id, hgo.job_eq.1 ▸ h.version, ?_, ?_, ?_⟩
  · rw [(sys.setAlike_move c).registry, hgo.job_eq.1]
    exact h.job
  · exact h.fails.of_state? (hm.prompt x h.execution) h.job h.unabandoned hstate
  · intro k hk
    rcases hgo.token?_eq with ⟨hphase, hh, hnew⟩ | hsame
    · obtain rfl := Option.some.inj (hnew.symm.trans hk)
      exact hi.unabandoned_begun (h.acts _) hphase hh h.job.spared
    · exact hkept k (hsame ▸ hk)

/-- An execution that does not go on hands its soft failure over. -/
theorem hands_over (hm : Move.Regular ⟨sys, c⟩) (hunbroken : l.Unbroken)
    (hdated : sys.site.isDated = true) (hstate : (x.step sys.site).1.state? = none) :
    ∃ o, Move.HandsOver ⟨sys, c⟩ x .softFailed o := by
  cases hp : (x.step sys.site).1 with
  | done result =>
    obtain ⟨k, o, record, hphase⟩ := h.fails.of_done (hm.prompt x h.execution) h.job hp
    obtain rfl := hm.records x h.execution k .softFailed o record _ hphase
    exact ⟨o, h.acts _, k, hphase⟩
  | crash =>
    have hbreaks := (x.step_eq_crash_iff sys.site).mp hp
    exact absurd hbreaks (Execution.not_breaksDown (hunbroken.execution x h.phase) hdated)
  | _ => simp [hp, Progress.state?] at hstate

/-- A loop on the way to a soft failure goes on, or hands it over and is heard. -/
theorem move (hm : Move.Regular ⟨sys, a⟩) (hi : Issued start history sys) (hunbroken : l.Unbroken)
    (hdated : sys.site.isDated = true) (hw : sys.site.store.Willing)
    (he : sys.site.store.entry? id = some e) (hv : e.job.version = version)
    (hr : e.job.status = .running) (hspared : e.job.cancelRequested = false) :
    (∃ c' l' x', (sys.move a).Tries c' l' x' id version) ∨
      ∃ o, Move.HandsOver ⟨sys, a⟩ x .softFailed o ∧
        Move.published ⟨sys, a⟩ = [Execution.event x.job o .softFailed] := by
  have hkept : ∀ k, x.token? = some k → (sys.move a).site.tokens.isAbandoned k = false :=
    fun k hk => hi.unabandoned_move hm.mem h.mem h.execution hk (h.id ▸ he)
      (hv.trans h.version.symm) hr hspared (h.unabandoned k hk)
  by_cases hmoves : a.id = c.id
  · obtain rfl := Ensemble.eq_of_id_eq hm.sound.nodup hm.mem h.mem hmoves
    cases hstate : (x.step sys.site).1.state? with
    | some x' =>
      obtain ⟨c', l', htries⟩ := h.goes_on hm hi hstate hkept
      exact .inl ⟨c', l', x', htries⟩
    | none =>
      obtain ⟨o, hover⟩ := h.hands_over hm hunbroken hdated hstate
      exact .inr ⟨o, hover, hover.taken hdated hw (h.id ▸ he) (hv.trans h.version.symm) hr⟩
  · obtain ⟨d, hd, -, hdtask⟩ := hm.sound.exists_move_of_ne (a := a) h.mem
      (fun heq => hmoves heq.symm) (by rw [h.task]; rfl)
    exact .inl ⟨d, l, x, hd, hdtask.trans h.task, h.phase, h.id, h.version,
      (sys.setAlike_move a).registry ▸ h.job, h.fails, hkept⟩

end Ensemble.Tries

/-! ## Counting soft failures -/

/-- How many soft failures were told of a job. -/
def failures (history : List Move) (id : Int) : Nat :=
  (history.flatMap Move.published).countP (·.isSoftFailure id)

theorem failures_append (history : List Move) (m : Move) (id : Int) :
    failures (history ++ [m]) id =
      failures history id + m.published.countP (·.isSoftFailure id) := by
  rw [failures, List.flatMap_append, List.countP_append, List.flatMap_singleton, ← failures]

/-- What is told of others counts for nothing. -/
theorem failures_append_of_spares
    (h : ∀ told ∈ m.published, told.isFinal = true → told.job? ≠ some id) :
    failures (history ++ [m]) id = failures history id := by
  rw [failures_append, List.countP_eq_zero.mpr, Nat.add_zero]
  intro told hmem hsoft
  obtain ⟨hfinal, hjob⟩ := Event.isFinal_of_isSoftFailure hsoft
  exact h told hmem hfinal hjob

theorem failures_append_of_softFailed {o : Outcome}
    (h : m.published = [Execution.event job o .softFailed]) :
    failures (history ++ [m]) job.id = failures history job.id + 1 := by
  have hsoft : (Execution.event job o .softFailed).isSoftFailure job.id = true := by
    simp [Execution.event, Event.isSoftFailure]
  rw [failures_append, h, List.countP_singleton, if_pos hsoft]

theorem exists_told_of_softFailed {o : Outcome}
    (h : m.published = [Execution.event job o .softFailed]) :
    ∃ told ∈ m.published, told.isFinal = true ∧ told.job? = some job.id :=
  ⟨_, h ▸ List.mem_singleton.mpr rfl, rfl, rfl⟩

theorem executions_append_of_spares (h : ∀ job, m.given? = some job → job.id ≠ id) :
    executions (history ++ [m]) (·.id = id) = executions history (·.id = id) := by
  rw [executions_append]
  cases hgiven : m.given? with
  | none => rfl
  | some job =>
    rw [Option.any_some, decide_eq_false (h job hgiven)]
    rfl

theorem executions_append_of_given (h : m.given? = some job) :
    executions (history ++ [m]) (·.id = job.id) = executions history (·.id = job.id) + 1 := by
  rw [executions_append, h, Option.any_some, decide_eq_true rfl]
  rfl

/-! ## How worn a job is -/

/-- How many retries are left to an entry. -/
def Ensemble.spare (sys : Ensemble) (e : Entry) : Nat :=
  (sys.site.store.maxRetries - e.retries).toNat

/-- How many retries a job has spent since its entry was another one: one with each soft failure, and
some more tries have not come to an end. -/
structure Spent (mid : Ensemble) (e now : Entry) (history : List Move) (more : Nat) : Prop where
  retries : now.retries = e.retries + failures history now.job.id
  given : executions history (·.id = now.job.id) = failures history now.job.id + more
  spare : failures history now.job.id ≤ mid.spare e

/-- What a job that fails softly is like since its entry was another one: it waits, or a loop tries
it under a lease that has only just been given a sign of life, or its retries are used up. -/
inductive Wear (mid : Ensemble) (e now : Entry) (history : List Move) (sys : Ensemble) : Prop
  | waits (hstatus : now.job.status = .created) (hspent : Spent mid e now history 0)
  | runs {c : Activity} {l : PollLoop} {x : Execution} (hstatus : now.job.status = .running)
      (hbeat : now.job.beat = mid.site.now) (htries : sys.Tries c l x now.job.id now.job.version)
      (hspent : Spent mid e now history 1)
  | ended (hstatus : now.job.status = .failed)
      (hgiven : executions history (·.id = now.job.id) = mid.spare e + 1)
      (hfailures : failures history now.job.id = mid.spare e + 1)

/-- What has become of an entry whose job fails softly. -/
structure Worn (mid : Ensemble) (e now : Entry) (history : List Move) (sys : Ensemble) : Prop where
  entry : sys.site.store.entry? now.job.id = some now
  id : now.job.id = e.job.id
  queue : now.job.queue = e.job.queue
  fails : now.job.FailsSoftly mid.site.registry
  wear : Wear mid e now history sys

/-- Whether the store does as it is asked by loops at once, and there is a date for it. -/
structure Ensemble.Faultless (sys : Ensemble) : Prop where
  willing : sys.site.store.Willing
  swift : sys.site.Swift
  dated : sys.site.isDated = true

variable {now now' : Entry} {n : Nat}

namespace Spent

theorem spares (h : Spent mid e now history n) (hid : now'.job.id = now.job.id)
    (hretries : now'.retries = now.retries)
    (hgiven : ∀ job, m.given? = some job → job.id ≠ now.job.id)
    (htold : ∀ told ∈ m.published, told.isFinal = true → told.job? ≠ some now.job.id) :
    Spent mid e now' (history ++ [m]) n := by
  constructor
  · rw [hid, hretries, failures_append_of_spares htold]
    exact h.retries
  · rw [hid, failures_append_of_spares htold, executions_append_of_spares hgiven]
    exact h.given
  · rw [hid, failures_append_of_spares htold]
    exact h.spare

/-- Another try begins. -/
theorem begins (h : Spent mid e now history n) (hid : now'.job.id = now.job.id)
    (hretries : now'.retries = now.retries) (hgiven : m.given? = some job)
    (hjob : job.id = now.job.id)
    (htold : ∀ told ∈ m.published, told.isFinal = true → told.job? ≠ some now.job.id) :
    Spent mid e now' (history ++ [m]) (n + 1) := by
  have hexecutions : executions (history ++ [m]) (·.id = now.job.id) =
      executions history (·.id = now.job.id) + 1 :=
    hjob ▸ executions_append_of_given hgiven
  constructor
  · rw [hid, hretries, failures_append_of_spares htold]
    exact h.retries
  · rw [hid, failures_append_of_spares htold, hexecutions, h.given, Nat.add_assoc]
  · rw [hid, failures_append_of_spares htold]
    exact h.spare

end Spent

theorem Worn.keep (h : Worn mid e now history sys)
    (he : (sys.move a).site.store.entry? now.job.id = some now')
    (hqueue : now'.job.queue = now.job.queue)
    (hcancel : now'.job.cancelRequested = now.job.cancelRequested)
    (hdefinition : now'.job.definition = now.job.definition)
    (hwear : Wear mid e now' (history ++ [⟨sys, a⟩]) (sys.move a)) :
    Worn mid e now' (history ++ [⟨sys, a⟩]) (sys.move a) := by
  have hid : now'.job.id = now.job.id := Store.id_of_entry? he
  exact ⟨hid ▸ he, hid.trans h.id, hqueue.trans h.queue, h.fails.congr hcancel hqueue hdefinition,
    hwear⟩

namespace Stretch

variable (h : Stretch start mid history sys) (hm : Move.Regular ⟨sys, a⟩)
  (hworn : Worn mid e now history sys)

include h hm hworn

/-- A job that waits goes on waiting, or is given to a loop. -/
theorem worn_of_waits (hstatus : now.job.status = .created) (hspent : Spent mid e now history 0) :
    ∃ now', Worn mid e now' (history ++ [⟨sys, a⟩]) (sys.move a) := by
  cases hm.effect.touches hworn.entry with
  | spares hafter hnone htold =>
    exact ⟨now, hworn.keep hafter rfl rfl rfl
      (.waits hstatus (hspent.spares rfl rfl hnone htold))⟩
  | @leases request hel htimeout hjob hafter htold =>
    have hfails : now.job.FailsSoftly sys.site.registry := h.setAlike.registry ▸ hworn.fails
    obtain ⟨c, l, x, htries⟩ := Ensemble.Tries.of_given hm hjob (hfails.congr rfl rfl rfl)
    refine ⟨_, hworn.keep hafter rfl rfl rfl (.runs rfl h.now_eq htries ?_)⟩
    exact hspent.begins rfl rfl hjob rfl htold
  | beats hr => exact absurd (hstatus.symm.trans hr) (by simp)
  | settles _ _ _ hr => exact absurd (hstatus.symm.trans hr) (by simp)

omit h in
/-- A job that is over stays so. -/
theorem worn_of_ended (hstatus : now.job.status = .failed)
    (hgiven : executions history (·.id = now.job.id) = mid.spare e + 1)
    (hfailures : failures history now.job.id = mid.spare e + 1) :
    ∃ now', Worn mid e now' (history ++ [⟨sys, a⟩]) (sys.move a) := by
  cases hm.effect.touches hworn.entry with
  | spares hafter hnone htold =>
    refine ⟨now, hworn.keep hafter rfl rfl rfl (.ended hstatus ?_ ?_)⟩
    · rw [executions_append_of_spares hnone, hgiven]
    · rw [failures_append_of_spares htold, hfailures]
  | leases hel =>
    rcases Store.isOffered_iff.mp (Store.isOffered_of_isEligible rfl hel) with hcreated | ⟨hr, -⟩
    · exact absurd (hstatus.symm.trans hcreated) (by simp)
    · exact absurd (hstatus.symm.trans hr) (by simp)
  | beats hr => exact absurd (hstatus.symm.trans hr) (by simp)
  | settles _ _ _ hr => exact absurd (hstatus.symm.trans hr) (by simp)

omit hm in
/-- The soft failure of a job that runs puts it back or, with no retries left, ends it. -/
theorem worn_of_settles {o : Outcome} (hspent : Spent mid e now history 1)
    (hid : x.job.id = now.job.id) (hgiven : Move.given? ⟨sys, a⟩ = none)
    (hafter : (sys.move a).site.store.entry? now.job.id = some (Store.finalized
      sys.site.store.maxRetries (Execution.finalRecord x.job o .softFailed) false sys.site.now now))
    (htold : Move.published ⟨sys, a⟩ = [Execution.event x.job o .softFailed]) :
    ∃ now', Worn mid e now' (history ++ [⟨sys, a⟩]) (sys.move a) := by
  have hfailures : failures (history ++ [⟨sys, a⟩]) now.job.id = failures history now.job.id + 1 :=
    hid ▸ failures_append_of_softFailed htold
  have hexecutions : executions (history ++ [⟨sys, a⟩]) (·.id = now.job.id) =
      failures history now.job.id + 1 := by
    rw [executions_append_of_spares (by simp [hgiven]), hspent.given]
  have hspare := hspent.spare
  have hretries := hspent.retries
  rw [h.ruledAlike.maxRetries] at hafter
  unfold Store.finalized Store.isRequeued at hafter
  by_cases hleft : (now.retries : Int) < mid.site.store.maxRetries
  · have hmore : failures history now.job.id + 1 ≤ mid.spare e := by
      simp only [Ensemble.spare]
      omega
    rw [if_pos (by simp [Execution.finalRecord, Disposition.status, hleft])] at hafter
    refine ⟨_, hworn.keep hafter rfl rfl rfl (.waits rfl ⟨?_, ?_, ?_⟩)⟩
    · exact (congrArg (· + 1) hretries).trans (congrArg (e.retries + ·) hfailures.symm)
    · exact hexecutions.trans hfailures.symm
    · exact hfailures ▸ hmore
  · have hnone : failures history now.job.id = mid.spare e := by
      simp only [Ensemble.spare] at hspare ⊢
      omega
    rw [if_neg (by simp [hleft])] at hafter
    refine ⟨_, hworn.keep hafter rfl rfl rfl (.ended rfl ?_ ?_)⟩
    · exact hexecutions.trans (congrArg (· + 1) hnone)
    · exact hfailures.trans (congrArg (· + 1) hnone)

/-- A job that runs goes on running, or its soft failure is taken. -/
theorem worn_of_runs (hfaultless : mid.Faultless) (hstatus : now.job.status = .running)
    (hbeat : now.job.beat = mid.site.now) (htries : sys.Tries c l x now.job.id now.job.version)
    (hspent : Spent mid e now history 1) :
    ∃ now', Worn mid e now' (history ++ [⟨sys, a⟩]) (sys.move a) := by
  obtain ⟨before, hbefore⟩ := h.whole
  have hunbroken : l.Unbroken :=
    (hbefore.busy_free h.opening h.handlers (h.swift hfaultless.swift) c htries.mem l htries.task
      (by simp [PollLoop.Busy, htries.phase])).2
  have hgoes := htries.move hm (hbefore.issued h.opening) hunbroken
    (h.isDated_eq.trans hfaultless.dated) (hfaultless.willing.of_ruledAlike h.ruledAlike) hworn.entry rfl hstatus hworn.fails.spared
  cases hm.effect.touches hworn.entry with
  | spares hafter hnone htold =>
    rcases hgoes with ⟨c', l', x', htries'⟩ | ⟨o, -, hpublished⟩
    · exact ⟨now, hworn.keep hafter rfl rfl rfl
        (.runs hstatus hbeat htries' (hspent.spares rfl rfl hnone htold))⟩
    · obtain ⟨told, hmem, hfinal, hjob⟩ := exists_told_of_softFailed hpublished
      exact absurd (hjob.trans (congrArg some htries.id)) (htold told hmem hfinal)
  | leases hel htimeout =>
    -- Silence has to last longer than the timeout, even if that is zero.
    have hfresh : now.job.isOffered sys.site.timing.leaseTimeout sys.site.now = false :=
      Store.isOffered_of_beat hstatus (hbeat.trans h.now_eq.symm)
    exact absurd (hfresh.symm.trans (Store.isOffered_of_isEligible htimeout hel)) (by simp)
  | beats _ hgiven hafter htold =>
    rcases hgoes with ⟨c', l', x', htries'⟩ | ⟨o, -, hpublished⟩
    · exact ⟨_, hworn.keep hafter rfl rfl rfl
        (.runs hstatus h.now_eq htries' (hspent.spares rfl rfl (by simp [hgiven]) htold))⟩
    · obtain ⟨told, hmem, hfinal, hjob⟩ := exists_told_of_softFailed hpublished
      exact absurd (hjob.trans (congrArg some htries.id)) (htold told hmem hfinal)
  | @settles y d o hover hid hv _ hgiven hafter htold =>
    -- No two tasks execute a job under one lease, so the result is that of the loop that tries.
    have happart := (hbefore.leasesApart h.opening h.store h.plans).apart a hm.mem c htries.mem y x
      (Task.execution?_of_acting? hover.acts) htries.execution (hid.trans htries.id.symm)
      (hv.symm.trans htries.version.symm)
    subst happart
    obtain rfl : y = x := Option.some.inj (hover.acts.symm.trans (htries.acts _))
    obtain ⟨k, hphase⟩ := hover.phase
    obtain rfl : d = .softFailed := by
      have hfails := htries.fails
      simpa only [Execution.FailsSoftly, hphase] using hfails
    exact h.worn_of_settles hworn hspent hid hgiven hafter htold

/-- Whatever a move does, a job that fails softly waits, is tried or has no retries left. -/
theorem worn_move (hfaultless : mid.Faultless) :
    ∃ now', Worn mid e now' (history ++ [⟨sys, a⟩]) (sys.move a) := by
  cases hworn.wear with
  | waits hstatus hspent => exact h.worn_of_waits hm hworn hstatus hspent
  | runs hstatus hbeat htries hspent =>
    exact h.worn_of_runs hm hworn hfaultless hstatus hbeat htries hspent
  | ended hstatus hgiven hfailures => exact worn_of_ended hm hworn hstatus hgiven hfailures

omit hm hworn in
/-- What becomes of a job that waits and fails softly. -/
theorem worn (hfaultless : mid.Faultless) (he : mid.site.store.entry? e.job.id = some e)
    (hcreated : e.job.status = .created) (hfails : e.job.FailsSoftly mid.site.registry) :
    ∃ now, Worn mid e now history sys := by
  refine h.induction (P := fun history sys => ∃ now, Worn mid e now history sys) ?_ ?_ ?_
  · exact ⟨e, he, rfl, rfl, hfails, .waits hcreated ⟨rfl, rfl, Nat.zero_le _⟩⟩
  · rintro history sys a h ⟨now, hworn⟩ hm
    exact h.worn_move hm hworn hfaultless
  · rintro history sys next ⟨now, hworn⟩ hp
    have hsite := hp.site_of_still
    refine ⟨now, hsite ▸ hworn.entry, hworn.id, hworn.queue, hworn.fails, ?_⟩
    cases hworn.wear with
    | waits hstatus hspent => exact .waits hstatus hspent
    | runs hstatus hbeat htries hspent =>
      obtain ⟨d, hd, -, htask, -⟩ := hp.exists_activity htries.mem
      exact .runs hstatus hbeat ⟨hd, htask.trans htries.task, htries.phase, htries.id,
        htries.version, hsite ▸ htries.job, htries.fails, hsite ▸ htries.unabandoned⟩ hspent
    | ended hstatus hgiven hfailures => exact .ended hstatus hgiven hfailures

end Stretch

/-! ## Busy iterations -/

/-- Whether a task other than that of a number still executes a job under the lease in force. -/
def Ensemble.HeldElsewhere (sys : Ensemble) (id : TaskId) (job : Int) : Prop :=
  ∃ c ∈ sys.activities, c.id ≠ id ∧ ∃ x, c.task.execution? = some x ∧ x.job.id = job ∧
    sys.site.store.isHeld x.job = true

namespace Stretch

variable (h : Stretch start mid (before ++ m :: after) sys)

include h

/-- A stretch up to one of its moves. -/
theorem up_to : Stretch start mid before m.sys ∧ Stretch start mid (before ++ [m]) m.after ∧
    m.Regular := by
  obtain ⟨hbefore, hmover, hfree, -⟩ := h.moves.split
  have hearlier : Stretch start mid before m.sys :=
    { h with moves := hbefore, calm := fun n hn => h.calm n (List.mem_append_left _ hn) }
  have hcalm : m.Calm := h.calm m (List.mem_append_right _ List.mem_cons_self)
  exact ⟨hearlier, hearlier.move hmover hfree hcalm, hearlier.regular hmover hcalm⟩

/-- A willing store has no job of its queue waiting where a loop comes to rest. -/
theorem emptied (hw : mid.site.store.Willing) (hrests : m.Rests l) : mid.site.isDated = true ∧
    ∀ e ∈ m.after.site.store.entries, e.job.queue = l.queue → e.job.status ≠ .created := by
  obtain ⟨hearlier, -, hregular⟩ := h.up_to
  have hpool : m.site.isCancelled l.pool = false := by
    have hcalm := hregular.calm
    simp only [Move.Calm, hrests.1] at hcalm
    exact hcalm
  obtain ⟨hdated, hnone⟩ := hrests.emptied (hw.of_ruledAlike hearlier.ruledAlike) hpool
  exact ⟨hearlier.isDated_eq.symm.trans hdated, hnone⟩

/-- A job that fails softly has used up its retries where a loop of its queue comes to rest. -/
theorem exhausted (hw : mid.site.store.Willing) (hswift : mid.site.Swift) (hrests : m.Rests l)
    (he : mid.site.store.entry? e.job.id = some e) (hqueue : e.job.queue = l.queue)
    (hcreated : e.job.status = .created) (hfails : e.job.FailsSoftly mid.site.registry)
    (hheld : ¬ m.after.HeldElsewhere m.mover.id e.job.id) :
    executions (before ++ [m]) (·.id = e.job.id) = mid.spare e + 1 ∧
      failures (before ++ [m]) e.job.id = mid.spare e + 1 ∧
      ∃ now, m.after.site.store.entry? e.job.id = some now ∧ now.job.status = .failed := by
  obtain ⟨hdated, hnone⟩ := h.emptied hw hrests
  obtain ⟨-, hupto, hregular⟩ := h.up_to
  obtain ⟨now, hworn⟩ := hupto.worn ⟨hw, hswift, hdated⟩ he hcreated hfails
  rw [← hworn.id] at hheld ⊢
  cases hworn.wear with
  | waits hstatus =>
    exact absurd hstatus (hnone now (List.mem_of_find?_eq_some hworn.entry)
      (hworn.queue.trans hqueue))
  | @runs c l₁ x hstatus _ htries =>
    have hmine : c.id = m.mover.id := by
      by_contra hother
      exact hheld ⟨c, htries.mem, hother, x, htries.execution, htries.id,
        Store.isHeld_of_entry? (htries.id ▸ hworn.entry) htries.version.symm hstatus⟩
    -- The loop that rests executes nothing.
    obtain ⟨ht, l', hstate, hidle⟩ := hrests
    obtain ⟨d, hd, hdid, hdtask⟩ := hregular.sound.exists_move_of_state? hregular.mem
      (ht ▸ Task.state?_loop hstate) rfl
    obtain rfl := Ensemble.eq_of_id_eq hupto.sound.nodup htries.mem hd (hmine.trans hdid.symm)
    obtain rfl := Task.loop.inj (htries.task.symm.trans hdtask)
    exact absurd (htries.phase.symm.trans hidle) (by simp)
  | ended hstatus hgiven hfailures => exact ⟨hgiven, hfailures, now, hworn.entry, hstatus⟩

end Stretch

/-- That the busy iterations of a loop come to an end, in a stretch. -/
structure BusyIterationsEnd (start mid : Ensemble) (b : Activity) (l : PollLoop)
    (history : List Move) (sys : Ensemble) : Prop where
  /-- Only so many jobs of its queue are given to it, or to others. -/
  executed : executions history (·.queue = l.queue) ≤ mid.leasesLeft l.queue
  /-- It makes only so many moves before it rests. -/
  bounded : (∀ m ∈ history, m.mover.id = b.id → ∀ l', ¬ m.Rests l') →
    movesOf history b.id ≤ mid.workLeft l
  /-- It can go on until it rests. -/
  reaches : mid.site.Swift → mid.site.isDated = true →
    (∀ m ∈ history, m.mover.id = b.id → ∀ l', ¬ m.Rests l') →
    ∃ c ∈ sys.activities, c.id = b.id ∧ c.isFree sys.site = true ∧
      (sys.site.isCancelled l.pool = false → ∃ more next,
        Stretch start mid (history ++ more) next ∧ (∀ m ∈ more, m.mover.id = b.id) ∧
          ∃ m ∈ more.getLast?, ∃ l', m.Rests l')
  /-- Where it rests, no job of its queue waits. -/
  emptied : mid.site.store.Willing → ∀ before m after, history = before ++ m :: after →
    m.mover.id = b.id → ∀ l', m.Rests l' →
    ∀ e ∈ m.after.site.store.entries, e.job.queue = l.queue → e.job.status ≠ .created
  /-- Each job of its queue that waited and that fails softly has been executed then once and once
  more for each retry that was left, and is over, unless others are still at it. -/
  exhausted : mid.site.store.Willing → mid.site.Swift → ∀ before m after,
    history = before ++ m :: after → m.mover.id = b.id → ∀ l', m.Rests l' →
    ∀ e ∈ mid.site.store.entries, e.job.queue = l.queue → e.job.status = .created →
    e.job.FailsSoftly mid.site.registry → ¬ m.after.HeldElsewhere b.id e.job.id →
    (executions (before ++ [m]) (·.id = e.job.id) : Int) =
        max 0 (mid.site.store.maxRetries - e.retries) + 1 ∧
      failures (before ++ [m]) e.job.id = executions (before ++ [m]) (·.id = e.job.id) ∧
      ∃ now, m.after.site.store.entry? e.job.id = some now ∧ now.job.status = .failed

/-- Whatever the order in which tasks move, while time stands still: the busy iterations of a loop
come to an end, because each job that is given to a loop uses up a lease that was left. No job of
its queue is left waiting, and those that fail softly have used up their retries. -/
theorem busy_iterations_end (h : Stretch start mid history sys) (hb : b ∈ mid.activities)
    (ht : b.task = .loop l) (hbusy : l.Busy) : BusyIterationsEnd start mid b l history sys := by
  have hqueue : ∀ before m after, history = before ++ m :: after → m.mover.id = b.id →
      ∀ l', m.Rests l' → l'.queue = l.queue := by
    rintro before m after rfl hid l' hrests
    obtain ⟨hbefore, hmover, -, -⟩ := h.moves.split
    have hsound : mid.Sound := h.past.choose_spec.sound h.opening.toSound
    obtain ⟨l'', hl'', hsame⟩ := hbefore.sameLoop hsound hb ht m.mover hmover hid
    obtain rfl := Task.loop.inj (hl''.symm.trans hrests.1)
    exact hsame.queue
  constructor
  case executed => exact Nat.le_trans (Nat.le_add_right _ _) (h.executions_add_le l.queue)
  case bounded =>
    intro hrest
    cases h.staysBusy hb ht hbusy hrest with
    | there _ _ _ _ _ hwork => exact Nat.le_trans (Nat.le_add_right _ _) hwork
    | gone _ _ _ hwork => exact hwork
  case reaches =>
    intro hswift hdated hrest
    obtain ⟨c, hc, hid, hfree, l', ht', hsame, hbusy', -⟩ :=
      h.goes_on hb ht hbusy hrest hswift hdated
    refine ⟨c, hc, hid, hfree, fun hpool => ?_⟩
    exact hid ▸ h.reaches_rest hc ht' hbusy' (hsame.pool ▸ hpool) hswift hdated
  case emptied =>
    rintro hw before m after rfl hid l' hrests e he hjob
    exact (h.emptied hw hrests).2 e he (hjob.trans (hqueue before m after rfl hid l' hrests).symm)
  case exhausted =>
    rintro hw hswift before m after rfl hid l' hrests e he hjob hcreated hfails hheld
    have hentry : mid.site.store.entry? e.job.id = some e :=
      Store.Sound.entry?_of_mem (h.past.choose_spec.store_sound h.store) he
    obtain ⟨hexecuted, hfailures, hover⟩ := h.exhausted hw hswift hrests hentry
      (hjob.trans (hqueue before m after rfl hid l' hrests).symm) hcreated hfails (hid ▸ hheld)
    refine ⟨?_, hfailures.trans hexecuted.symm, hover⟩
    rw [hexecuted, Ensemble.spare]
    omega

/-- A handler that looks at its job and then fails softly, whenever it is invoked. -/
def stubborn : Handler :=
  .scripted 0 "stubborn" [⟨[.act (.get 1)], .returns (.error (.softFailed .null false))⟩]

/-- A loop that looks for expired leases all the time, and for which leases expire at once. -/
def impatient : Ensemble :=
  .pair { Timing.default with leaseTimeout := 0, scanInterval := 0 } stubborn

theorem turn_stubborn (n : Nat) :
    stubborn.turn n = ⟨[.act (.get 1)], .returns (.error (.softFailed .null false))⟩ := by
  cases n <;> rfl

theorem prompt_stubborn : stubborn.Prompt := by
  intro n step hstep
  rw [turn_stubborn] at hstep
  obtain rfl := List.mem_singleton.mp hstep
  exact ⟨by simp, fun op hasks => by cases hasks⟩

/-- The loop comes to the top after its delay. -/
def impatientTurns : List Turn := [.go 0, .go 1, .pass 2000, .go 1]

theorem stretch_impatient :
    let mid := (impatient.follow anytime impatientTurns).2
    let turns := List.replicate 80 (.go 1)
    Stretch impatient mid (mid.follow still turns).1 (mid.follow still turns).2 := by
  intro mid turns
  refine ⟨Ensemble.opening_pair _ _, Store.sound_empty _, ?_, ?_, ?_, ?_, ?_⟩
  · intro entry hentry
    obtain rfl := List.mem_singleton.mp hentry
    exact prompt_stubborn
  · intro b hb r hr
    rcases Ensemble.task_of_mem_pair _ hb with ht | ⟨l, ht, -⟩ <;>
      exact absurd (ht.symm.trans hr) (by simp)
  · exact ⟨_, Ensemble.interleaving_follow anytime impatientTurns impatient⟩
  · exact Ensemble.interleaving_follow still turns mid
  · decide +kernel

/-- The loop that a task is. -/
def Task.loop? : Task → Option PollLoop
  | .loop l => some l
  | _ => none

theorem Task.of_loop? {t : Task} {l : PollLoop} (h : t.loop? = some l) : t = .loop l := by
  cases t with
  | loop l' => rw [Option.some.inj h]
  | _ => exact absurd h (by simp [loop?])

/-- The job that waits for the loop. -/
def awaited : Entry := ⟨{ Job.new 1 .exports Site.start with definition := some "" }, 0⟩

theorem failsSoftly_awaited : awaited.job.FailsSoftly impatient.site.registry := by
  refine ⟨rfl, stubborn, ?_, fun n => ⟨.null, false, by rw [turn_stubborn]⟩⟩
  have hkind : awaited.job.kind? = none := by decide +kernel
  rw [Registry.handler?, hkind]
  rfl

theorem swift_impatient : impatient.site.Swift := by
  have hfaults : impatient.site.faults = .none := rfl
  constructor
  · intro call n
    rw [hfaults]
    cases call <;> rfl
  · intro call
    rw [hfaults]
    cases call <;> rfl

/-- The store puts a job back three times, so this one is executed four times. -/
theorem busy_iterations_end_impatient :
    let mid := (impatient.follow anytime impatientTurns).2
    let turns := List.replicate 80 (.go 1)
    let history := (mid.follow still turns).1
    ∃ b ∈ mid.activities, ∃ l, b.task = .loop l ∧ l.Busy ∧
      BusyIterationsEnd impatient mid b l history (mid.follow still turns).2 ∧
      ∃ before m l', history = before ++ [m] ∧ m.mover.id = b.id ∧ m.Rests l' ∧
        (executions history (·.id = 1) : Int) = max 0 (3 - 0) + 1 := by
  intro mid turns history
  have hloop : mid.activities.any (fun b => b.id == 1 &&
      b.task.loop?.any fun l => l.queue == .exports && l.isTop) = true := by
    decide +kernel
  have hlast : history.getLast?.any (fun m => m.mover.id == 1 &&
      (m.mover.task.loop?.any fun l => (l.step m.site).1.state?.any (·.isIdle)) &&
      m.after.activities.all fun c => c.id == 1 || c.task.execution?.isNone) = true := by
    decide +kernel
  obtain ⟨b, hb, hbusy⟩ := List.any_eq_true.mp hloop
  rw [Bool.and_eq_true, beq_iff_eq] at hbusy
  obtain ⟨hbid, hbusy⟩ := hbusy
  obtain ⟨l, hl, hbusy⟩ := (Option.any_eq_true _ _).mp hbusy
  rw [Bool.and_eq_true, beq_iff_eq] at hbusy
  obtain ⟨hqueue, htop⟩ := hbusy
  obtain ⟨m, hm, hmove⟩ := (Option.any_eq_true _ _).mp hlast
  rw [Bool.and_eq_true, Bool.and_eq_true, beq_iff_eq] at hmove
  obtain ⟨⟨hmid, hidle⟩, hfree⟩ := hmove
  obtain ⟨l', hl', hidle⟩ := (Option.any_eq_true _ _).mp hidle
  obtain ⟨l'', hstate, hidle⟩ := (Option.any_eq_true _ _).mp hidle
  obtain ⟨before, hhistory⟩ := List.getLast?_eq_some_iff.mp hm
  have htop := PollLoop.isTop_iff.mp htop
  have hidle := PollLoop.isIdle_iff.mp hidle
  have hrests : m.Rests l' := ⟨Task.of_loop? hl', l'', hstate, hidle⟩
  have hends : BusyIterationsEnd impatient mid b l history (mid.follow still turns).2 :=
    busy_iterations_end stretch_impatient hb (Task.of_loop? hl) (by simp [PollLoop.Busy, htop])
  have hset : impatient.site.SetAlike mid.site :=
    (Ensemble.interleaving_follow anytime impatientTurns impatient).setAlike
  have hswift : mid.site.Swift := hset.swift_iff.mpr swift_impatient
  have hheld : ¬ m.after.HeldElsewhere b.id awaited.job.id := by
    rintro ⟨c, hc, hne, x, hx, -⟩
    have hquiet := List.all_eq_true.mp hfree c hc
    rw [hx] at hquiet
    simp [← hbid, hne] at hquiet
  have hfails : awaited.job.FailsSoftly mid.site.registry := by
    rw [hset.registry]
    exact failsSoftly_awaited
  obtain ⟨hexecuted, -⟩ := hends.exhausted ⟨by decide +kernel, by decide +kernel, by decide +kernel⟩
    hswift before m [] hhistory (hmid.trans hbid.symm) l' hrests awaited (by decide +kernel)
    hqueue.symm rfl hfails hheld
  rw [← hhistory] at hexecuted
  have hmax : mid.site.store.maxRetries = 3 := by decide +kernel
  rw [hmax] at hexecuted
  exact ⟨b, hb, l, Task.of_loop? hl, by simp [PollLoop.Busy, htop], hends, before, m, l', hhistory,
    hmid.trans hbid.symm, hrests, hexecuted⟩

end Host

end LeasedWork
