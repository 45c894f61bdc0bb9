import LeasedWork.Proofs.Store.Verdict

/-!
# The lifecycle of a job

A job waits, runs under one lease after the other, may be put back to wait, and is over in the end.
Handing a job out and putting it back are the store's own doing and are not asked of the moves that
workers may request, so that nothing leaves a terminal status is not written down in one place: it
has to be seen operation by operation, and from there for every history.
-/
namespace LeasedWork

open Time (Instant)

/-- Whether an answer neither hands out the job of a number nor takes a result of it. -/
def Operation.Spares (op : Operation) (answer : Answer) (id : Int) : Prop :=
  ∀ version, answer.grant? ≠ some (id, version) ∧ op.acceptance? answer ≠ some (id, version)

/-- How an operation at a time, with its answer, may bring the job of a number on in a store that
puts a job back so often. -/
inductive Lifecycle (maxRetries : Int) (now : Instant) (id : Int) :
    Operation → Answer → Option Entry → Option Entry → Prop
  | absent {op : Operation} {answer : Answer} (spared : op.Spares answer id) :
    Lifecycle maxRetries now id op answer none none
  | stays {op : Operation} {answer : Answer} {e e' : Entry} (spared : op.Spares answer id)
      (status : e'.job.status = e.job.status) (version : e'.job.version = e.job.version)
      (worker : e'.job.worker = e.job.worker) (retries : e'.retries = e.retries) :
    Lifecycle maxRetries now id op answer (some e) (some e')
  | queued {queue : Queue} {definition : String} {group : Option Int} {e' : Entry}
      (status : e'.job.status = .created) (version : e'.job.version = 0)
      (retries : e'.retries = 0) :
    Lifecycle maxRetries now id (.enqueue queue definition group) (.number id) none (some e')
  /-- A waiting job is handed out. -/
  | leased {request : LeaseRequest} {e e' : Entry} (expired : request.expired = false)
      (before : e.job.status = .created) (after : e'.job.status = .running)
      (version : e'.job.version = e.job.version + 1) (retries : e'.retries = e.retries) :
    Lifecycle maxRetries now id (.dequeue request false) (.lease (.ok (some e'.job))) (some e)
      (some e')
  /-- A job whose lease has expired is handed on. -/
  | reclaimed {request : LeaseRequest} {e e' : Entry} (expired : request.expired = true)
      (before : e.job.status = .running) (after : e'.job.status = .running)
      (version : e'.job.version = e.job.version + 1) (retries : e'.retries = e.retries) :
    Lifecycle maxRetries now id (.dequeue request false) (.lease (.ok (some e'.job))) (some e)
      (some e')
  /-- A soft failure is taken, and there are retries left. -/
  | requeued {record : Job} {e e' : Entry} (number : record.id = id)
      (lease : e.job.version = record.version) (failed : record.status = .failed)
      (left : (e.retries : Int) < maxRetries) (before : e.job.status = .running)
      (after : e'.job.status = .created) (version : e'.job.version = e.job.version)
      (worker : e'.job.worker = none) (retries : e'.retries = e.retries + 1) :
    Lifecycle maxRetries now id (.complete record false) (.settlement (.ok .requeued)) (some e)
      (some e')
  /-- A result is taken for good. -/
  | ended {record : Job} {force : Bool} {e e' : Entry} (number : record.id = id)
      (lease : e.job.version = record.version) (terminal : record.status.isTerminal = true)
      (spent : record.status = .failed → force = false → maxRetries ≤ e.retries)
      (before : e.job.status = .running) (after : e'.job.status = record.status)
      (version : e'.job.version = e.job.version) (since : e'.job.ended = some now)
      (retries : e'.retries = e.retries) :
    Lifecycle maxRetries now id (.complete record force) (.settlement (.ok .ended)) (some e)
      (some e')

namespace Store

variable {s : Store} {id : Int} {e e' : Entry} {now : Instant} {op : Operation} {answer : Answer}
  {maxRetries : Int}

theorem lifecycle_refl (hspared : op.Spares answer id) (found : Option Entry) :
    Lifecycle maxRetries now id op answer found found := by
  cases found with
  | none => exact .absent hspared
  | some e => exact .stays hspared rfl rfl rfl rfl

/-- The status in which a job may be handed out. -/
theorem status_of_isEligible {request : LeaseRequest} {job : Job}
    (h : isEligible request now job = true) :
    job.status = if request.expired then .running else .created := by
  unfold isEligible at h
  cases hexpired : request.expired <;> simp_all

theorem lifecycle_finalized {record : Job} {force : Bool} (hid : record.id = id)
    (hv : e.job.version = record.version) (ht : record.status.isTerminal = true)
    (hr : e.job.status = .running) :
    Lifecycle maxRetries now id (.complete record force)
      (.settlement (.ok (settlementOf maxRetries record force e))) (some e)
      (some (finalized maxRetries record force now e)) := by
  unfold finalized settlementOf
  by_cases hq : isRequeued maxRetries record.status force e.retries = true
  · have hcause := hq
    simp only [isRequeued, Bool.and_eq_true, decide_eq_true_eq, Bool.not_eq_true'] at hcause
    obtain ⟨⟨hfailed, rfl⟩, hleft⟩ := hcause
    rw [if_pos hq, if_pos hq]
    exact .requeued hid hv hfailed hleft hr rfl rfl rfl rfl
  · rw [if_neg hq, if_neg hq]
    refine .ended hid hv ht (fun hfailed hforce => ?_) hr rfl rfl rfl rfl
    simp only [isRequeued, hfailed, hforce, decide_true, Bool.not_false, Bool.and_self,
      Bool.true_and, decide_eq_true_eq] at hq
    omega

/-- An operation whose answer is no lease and takes no result spares every job. -/
theorem spares_of_none (hgrant : answer.grant? = none) (htaken : op.acceptance? answer = none)
    (id : Int) : op.Spares answer id :=
  fun _ => ⟨by simp [hgrant], by simp [htaken]⟩

theorem lifecycle_enqueue (queue : Queue) (definition : String) (group : Option Int) (id : Int) :
    Lifecycle maxRetries now id (.enqueue queue definition group)
      (s.perform now (.enqueue queue definition group)).1 (s.entry? id) <|
      entry? (s.perform now (.enqueue queue definition group)).2 id := by
  have hspared : (Operation.enqueue queue definition group).Spares
      (s.perform now (.enqueue queue definition group)).1 id := spares_of_none rfl rfl id
  have hafter : entry? (s.perform now (.enqueue queue definition group)).2 id =
      (s.entry? id).or (if s.lastId + 1 = id then
        some (Store.queued (s.lastId + 1) queue definition group now) else none) :=
    entry?_enqueue s queue definition group now id
  rw [hafter]
  cases h : s.entry? id with
  | some e =>
    rw [Option.some_or]
    exact lifecycle_refl hspared (some e)
  | none =>
    rw [Option.none_or]
    by_cases hid : s.lastId + 1 = id
    · rw [if_pos hid, ← hid]
      exact .queued rfl rfl rfl
    · rw [if_neg hid]
      exact .absent hspared

theorem lifecycle_dequeue (hs : s.Sound) (request : LeaseRequest) (cancelled : Bool) (id : Int) :
    Lifecycle maxRetries now id (.dequeue request cancelled)
      (s.perform now (.dequeue request cancelled)).1 (s.entry? id) <|
      entry? (s.perform now (.dequeue request cancelled)).2 id := by
  rcases hs.dequeue_cases request cancelled now with ⟨ht, hno⟩ | ⟨e, he, rfl, hel, hans, ht⟩
  · have hgrant : (s.perform now (.dequeue request cancelled)).1.grant? = none := by
      simp only [perform, Answer.grant?]
      split
      · rename_i job hanswer
        exact absurd (Answer.lease.inj hanswer) (hno job)
      · rfl
    have hafter : entry? (s.perform now (.dequeue request cancelled)).2 id = s.entry? id := by
      simp only [perform, ht]
      rfl
    rw [hafter]
    exact lifecycle_refl (spares_of_none hgrant rfl id) _
  · have hanswer : (s.perform now (.dequeue request false)).1 =
        .lease (.ok (some (leasedEntry request now e).job)) := by
      simp only [perform, hans]
      rfl
    have hafter : entry? (s.perform now (.dequeue request false)).2 id =
        if id = e.job.id then (s.entry? e.job.id).map (leasedEntry request now)
        else s.entry? id := by
      simp only [perform, ht]
      exact Store.entry?_modify s.countDequeue (keepsNumber_leasedEntry request now) e.job.id id
    rw [hanswer, hafter]
    by_cases hid : id = e.job.id
    · rw [if_pos hid, hid, he]
      have hstatus := status_of_isEligible hel
      cases hexpired : request.expired with
      | false =>
        rw [hexpired] at hstatus
        exact .leased hexpired hstatus rfl rfl rfl
      | true =>
        rw [hexpired] at hstatus
        exact .reclaimed hexpired hstatus rfl rfl rfl
    · rw [if_neg hid]
      refine lifecycle_refl (fun version => ⟨fun h => ?_, by simp [Operation.acceptance?]⟩) _
      simp only [Answer.grant?, Option.some.injEq, Prod.mk.injEq] at h
      exact hid h.1.symm

theorem lifecycle_complete (record : Job) (force : Bool) (id : Int) :
    Lifecycle s.maxRetries now id (.complete record force)
      (s.perform now (.complete record force)).1 (s.entry? id) <|
      entry? (s.perform now (.complete record force)).2 id := by
  rcases complete_cases s record force now with
    ⟨ht, refusal, hans⟩ | ⟨e, he, hv, hr, hterm, hans, ht⟩
  · have hanswer : (s.perform now (.complete record force)).1 = .settlement (.error refusal) := by
      simp only [perform, hans]
    have hafter : entry? (s.perform now (.complete record force)).2 id = s.entry? id := by
      simp only [perform, ht]
      rfl
    rw [hanswer, hafter]
    exact lifecycle_refl (spares_of_none rfl rfl id) _
  · have hanswer : (s.perform now (.complete record force)).1 =
        .settlement (.ok (settlementOf s.maxRetries record force e)) := by
      simp only [perform, hans]
    have hafter : entry? (s.perform now (.complete record force)).2 id =
        if id = record.id then (s.entry? record.id).map (finalized s.maxRetries record force now)
        else s.entry? id := by
      simp only [perform, ht]
      exact Store.entry?_modify (s.noteComplete record force) (keepsNumber_finalized _ _ _ _)
        record.id id
    rw [hanswer, hafter]
    by_cases hid : id = record.id
    · subst hid
      rw [if_pos rfl, he]
      exact lifecycle_finalized rfl hv hterm hr
    · rw [if_neg hid]
      refine lifecycle_refl (fun version => ⟨by simp [Answer.grant?], fun h => ?_⟩) _
      simp only [Operation.acceptance?, Option.some.injEq, Prod.mk.injEq] at h
      exact hid h.1.symm

/-- Whatever is done to a job but handing it out and taking a result of it leaves it as far as it
has come. -/
theorem Touch.stays (h : Touch maxRetries now e op e')
    (hdequeue : ∀ request, op ≠ .dequeue request false)
    (hcomplete : ∀ record force, op ≠ .complete record force)
    (hspared : op.Spares answer id) :
    Lifecycle maxRetries now id op answer (some e) (some e') := by
  cases h with
  | leased => exact absurd rfl (hdequeue _)
  | finalized => exact absurd rfl (hcomplete _ _)
  | beaten => exact .stays hspared rfl rfl rfl rfl
  | cancelled => exact .stays hspared rfl rfl rfl rfl
  | aged => exact .stays hspared rfl rfl rfl rfl

theorem Sound.lifecycle_of_spares (hs : s.Sound)
    (hdequeue : ∀ request, op ≠ .dequeue request false)
    (hcomplete : ∀ record force, op ≠ .complete record force)
    (henqueue : ∀ queue definition group, op ≠ .enqueue queue definition group)
    (hspared : op.Spares answer id) :
    Lifecycle s.maxRetries now id op answer (s.entry? id) <| entry? (s.perform now op).2 id := by
  rcases hs.perform_cases now op with ⟨ht, -⟩ | ⟨a, change, ha, hc, htouch, ht, -⟩ | ⟨q, d, g, hop⟩
  · rw [Store.entry?_congr ht]
    exact lifecycle_refl hspared _
  · rw [Store.entry?_congr ht, Store.entry?_modify s hc]
    by_cases hid : id = a.job.id
    · rw [if_pos hid, hid, ha]
      exact htouch.stays hdequeue hcomplete (hid ▸ hspared)
    · rw [if_neg hid]
      exact lifecycle_refl hspared _
  · exact absurd hop (henqueue q d g)

/-- Every operation takes every job along its lifecycle, or leaves it where it is. -/
theorem Sound.lifecycle_perform (hs : s.Sound) (now : Instant) (op : Operation) (id : Int) :
    Lifecycle s.maxRetries now id op (s.perform now op).1 (s.entry? id) <|
      entry? (s.perform now op).2 id := by
  cases op with
  | enqueue queue definition group => exact lifecycle_enqueue queue definition group id
  | dequeue request cancelled => exact lifecycle_dequeue hs request cancelled id
  | complete record force => exact lifecycle_complete record force id
  | age k seconds =>
    have hgrant : (s.perform now (.age k seconds)).1.grant? = none := by
      simp only [perform]
      split <;> rfl
    exact hs.lifecycle_of_spares (by simp) (by simp) (by simp) (spares_of_none hgrant rfl id)
  | _ => exact hs.lifecycle_of_spares (by simp) (by simp) (by simp) (spares_of_none rfl rfl id)

/-! ## Jobs that are over -/

/-- An entry with another last sign of life. -/
def seenAt (beat : Instant) (e : Entry) : Entry := { e with job := { e.job with beat := beat } }

/-- All that can be done to a job that is over is to make its last sign of life older. -/
theorem Touch.aged_of_terminal (h : Touch maxRetries now e op e')
    (ht : e.job.status.isTerminal = true) :
    ∃ seconds beat, op = .age e.job.id seconds ∧ e' = seenAt beat e := by
  cases h with
  | @leased request hel =>
    rw [not_terminal_of_isEligible hel] at ht
    exact absurd ht (by simp)
  | beaten _ _ hr => exact absurd hr (Status.ne_running_of_isTerminal ht)
  | finalized _ _ hr => exact absurd hr (Status.ne_running_of_isTerminal ht)
  | cancelled hc =>
    rw [hc] at ht
    exact absurd ht (by simp)
  | @aged seconds beat => exact ⟨seconds, beat, rfl, rfl⟩

theorem Sound.perform_of_terminal (hs : s.Sound) (he : s.entry? id = some e)
    (ht : e.job.status.isTerminal = true) (now : Instant) (op : Operation) :
    entry? (s.perform now op).2 id = some e ∨
      ∃ seconds beat, op = .age id seconds ∧
        entry? (s.perform now op).2 id = some (seenAt beat e) := by
  obtain ⟨e', he', rfl | htouch⟩ := hs.entry?_perform he now op
  · exact .inl he'
  · obtain ⟨seconds, beat, hop, rfl⟩ := htouch.aged_of_terminal ht
    exact .inr ⟨seconds, beat, Store.id_of_entry? he ▸ hop, he'⟩

/-- A job that is over stays as it is but for its last sign of life, whatever is done. -/
theorem Sound.performAll_of_terminal (hs : s.Sound) (he : s.entry? id = some e)
    (ht : e.job.status.isTerminal = true) (more : List (Instant × Operation)) :
    ∃ beat, entry? (Store.performAll more s).2 id = some (seenAt beat e) := by
  induction more generalizing s e with
  | nil => exact ⟨e.job.beat, he⟩
  | cons op rest ih =>
    have hs' := sound_perform hs op.1 op.2
    rcases hs.perform_of_terminal he ht op.1 op.2 with he' | ⟨-, beat, -, he'⟩
    · exact ih hs' he' ht
    · obtain ⟨later, hlater⟩ := ih hs' he' ht
      exact ⟨later, hlater⟩

/-- What a store answers, and does, about a job that is over. -/
structure Closed (s : Store) (id : Int) : Prop where
  withheld : ∀ request cancelled now job,
    (s.dequeue request cancelled now).1 = .ok (some job) → job.id ≠ id
  lost : ∀ record now, record.id = id → (s.heartbeat record now).1 =
    if s.failHeartbeat then .error (.injected .heartbeat) else .ok true
  refused : ∀ record force now, record.id = id →
    ∃ refusal, (s.complete record force now).1 = .error refusal
  late : (s.requestCancel id).1 = false
  kept : ∀ now op, entry? (s.perform now op).2 id = s.entry? id ∨
    ∃ seconds beat, op = .age id seconds ∧
      entry? (s.perform now op).2 id = (s.entry? id).map (seenAt beat)

theorem Sound.closed_of_terminal (hs : s.Sound) (he : s.entry? id = some e)
    (ht : e.job.status.isTerminal = true) : s.Closed id where
  withheld := by
    intro request cancelled now job hanswer hid
    rcases hs.dequeue_cases request cancelled now with ⟨-, hno⟩ | ⟨a, ha, -, hel, hleased, -⟩
    · exact hno job hanswer
    · rw [hleased] at hanswer
      obtain rfl := Option.some.inj (Except.ok.inj hanswer)
      have hsame : a = e := Option.some.inj (ha.symm.trans (hid ▸ he))
      rw [hsame] at hel
      rw [not_terminal_of_isEligible hel] at ht
      exact absurd ht (by simp)
  lost := by
    intro record now hid
    have hover : e.job.status ≠ .running := Status.ne_running_of_isTerminal ht
    unfold Store.heartbeat
    rw [hid, he]
    cases s.failHeartbeat with
    | true => rfl
    | false => simp [hover]
  refused := by
    intro record force now hid
    rcases complete_cases s record force now with ⟨-, hrefused⟩ | ⟨a, ha, -, hr, -⟩
    · exact hrefused
    · obtain rfl := Option.some.inj (he.symm.trans (hid ▸ ha))
      exact absurd hr (Status.ne_running_of_isTerminal ht)
  late := by simp only [Store.requestCancel, he, ht, if_true]
  kept := by
    intro now op
    rw [he]
    exact hs.perform_of_terminal he ht now op

/-- In every history each operation takes each job along its lifecycle or leaves it where it is, and
once a job is over, nothing but its last sign of life ever changes: nobody is given the job again,
heartbeats tell their holder to stop, and results and requests for it are turned away. -/
theorem lifecycle_of_history (maxRetries : Int) (history : List (Instant × Operation)) (id : Int) :
    let s := afterHistory maxRetries history
    (∀ now op, Lifecycle maxRetries now id op (s.perform now op).1 (s.entry? id) <|
      entry? (s.perform now op).2 id) ∧
    ∀ e, s.entry? id = some e → e.job.status.isTerminal = true →
      ∀ more : List (Instant × Operation),
        (∃ beat, entry? (afterHistory maxRetries (history ++ more)) id = some (seenAt beat e)) ∧
        (afterHistory maxRetries (history ++ more)).Closed id := by
  have hs := sound_afterHistory maxRetries history
  refine ⟨fun now op => ?_, fun e he ht more => ?_⟩
  · have hstep := hs.lifecycle_perform now op id
    rwa [maxRetries_afterHistory] at hstep
  · have hsm := sound_performAll hs more
    obtain ⟨beat, hlater⟩ := hs.performAll_of_terminal he ht more
    rw [afterHistory_append]
    exact ⟨⟨beat, hlater⟩, hsm.closed_of_terminal hlater ht⟩

/-- A job fails softly, is put back, and is completed under its next lease. -/
def secondTry : List (Instant × Operation) :=
  let now : Instant := ⟨1704067200, 0⟩
  let record : Job := Job.new 1 .exports now
  [(now, .enqueue .exports "" none), (now, .dequeue ⟨.exports, "a", 600, none, false⟩ false),
    (now, .complete { record with version := 1, status := .failed } false),
    (now, .dequeue ⟨.exports, "b", 600, none, false⟩ false),
    (now, .complete { record with version := 2, status := .completed } true)]

theorem lifecycle_of_secondTry :
    let now : Instant := ⟨1704067200, 0⟩
    let more : List (Instant × Operation) := [(now, .age 1 700), (now, .requestCancel 1)]
    ((afterHistory 1 secondTry).job? 1).map (fun job => (job.status, job.version)) =
        some (.completed, 2) ∧
      ∀ request job, ((afterHistory 1 (secondTry ++ more)).dequeue request false now).1 =
        .ok (some job) → job.id ≠ 1 := by
  refine ⟨by decide, ?_⟩
  intro request job
  have hclosed := (lifecycle_of_history 1 secondTry 1).2 _ rfl (by decide)
  exact (hclosed [_, _]).2.withheld request false _ job

end Store

end LeasedWork
