import LeasedWork.Proofs.Store.Lifecycle

/-!
# The retry budget

How often a job was put back is counted beside its record, across all its leases. The count follows
the soft failures that were taken, one for one, until as many were taken as there are retries; the
next one ends the job. Nothing else is charged, so a job is put back no more often than there are
retries, and never if their number is negative.
-/
namespace LeasedWork

open Time (Instant)

/-- The result of the job of a number that an operation was answered by taking: with which status
and force it was handed over, and what became of it. -/
def Operation.taken? (op : Operation) (answer : Answer) (id : Int) :
    Option (Status × Bool × Settlement) :=
  match op, answer with
  | .complete record force, .settlement (.ok settlement) =>
    if record.id = id then some (record.status, force, settlement) else none
  | _, _ => none

/-- Whether a soft failure of the job of a number was taken. -/
def Operation.failsSoftly (op : Operation) (answer : Answer) (id : Int) : Bool :=
  (op.taken? answer id).any fun taken => taken.1 = .failed && !taken.2.1

/-- Whether the job of a number was put back. -/
def Operation.putsBack (op : Operation) (answer : Answer) (id : Int) : Bool :=
  (op.taken? answer id).any fun taken => taken.2.2 = .requeued

variable {id : Int} {now : Instant} {op : Operation} {answer : Answer} {maxRetries : Int}
  {found found' : Option Entry} {failures requeued : Nat}

theorem Operation.Spares.taken? (h : op.Spares answer id) : op.taken? answer id = none := by
  unfold Operation.taken?
  split
  · rename_i record force settlement
    have hne : record.id ≠ id := by
      intro hid
      exact (h record.version).2 (by rw [Operation.acceptance?, hid])
    rw [if_neg hne]
  · rfl

theorem Operation.taken?_complete (record : Job) (force : Bool) (settlement : Settlement) :
    (Operation.complete record force).taken? (.settlement (.ok settlement)) record.id =
      some (record.status, force, settlement) := by
  simp only [Operation.taken?, if_true]

/-- What is stored of a job of which so many soft failures were taken, and which was put back so
often. -/
def Charged (maxRetries : Int) (failures requeued : Nat) : Option Entry → Prop
  | none => failures = 0 ∧ requeued = 0
  | some e => e.retries = requeued ∧ requeued = min failures maxRetries.toNat ∧
      (e.job.status.isTerminal = false → failures ≤ maxRetries.toNat)

/-- A job in the same state of life, with as many retries, is charged with the same. -/
theorem Charged.of_open {e e' : Entry} (h : Charged maxRetries failures requeued (some e))
    (hretries : e'.retries = e.retries)
    (hopen : e'.job.status.isTerminal = false → e.job.status.isTerminal = false) :
    Charged maxRetries failures requeued (some e') := by
  obtain ⟨hcount, hmin, hleft⟩ := h
  exact ⟨hretries.trans hcount, hmin, fun hopen' => hleft (hopen hopen')⟩

theorem Charged.requeued_le (h : Charged maxRetries failures requeued found) :
    (requeued : Int) ≤ max 0 maxRetries := by
  cases found with
  | none =>
    obtain ⟨-, rfl⟩ := h
    omega
  | some e =>
    obtain ⟨-, hmin, -⟩ := h
    omega

/-- Each step of the life of a job is charged for as what it is. -/
theorem Lifecycle.charged (h : Lifecycle maxRetries now id op answer found found')
    (hc : Charged maxRetries failures requeued found) :
    Charged maxRetries (failures + (op.failsSoftly answer id).toNat)
      (requeued + (op.putsBack answer id).toNat) found' := by
  unfold Operation.failsSoftly Operation.putsBack
  cases h with
  | absent hspared =>
    rw [hspared.taken?]
    exact hc
  | stays hspared hstatus _ _ hretries =>
    rw [hspared.taken?]
    exact hc.of_open hretries (fun hopen => hstatus ▸ hopen)
  | queued _ _ hretries =>
    obtain ⟨rfl, rfl⟩ := hc
    exact ⟨hretries, by simp [Operation.taken?], by simp [Operation.taken?]⟩
  | leased _ hbefore _ _ hretries =>
    exact hc.of_open hretries (fun _ => by rw [hbefore]; rfl)
  | reclaimed _ hbefore _ _ hretries =>
    exact hc.of_open hretries (fun _ => by rw [hbefore]; rfl)
  | @requeued record e e' hid _ hfailed hlt hbefore _ _ _ hretries =>
    obtain ⟨hcount, hmin, hleft⟩ := hc
    have hle := hleft (by rw [hbefore]; rfl)
    subst hid
    rw [Operation.taken?_complete, hfailed]
    change e'.retries = requeued + 1 ∧ requeued + 1 = min (failures + 1) maxRetries.toNat ∧
      (_ → failures + 1 ≤ maxRetries.toNat)
    exact ⟨by omega, by omega, fun _ => by omega⟩
  | @ended record force e e' hid _ hterm hspent hbefore hafter _ _ hretries =>
    obtain ⟨hcount, hmin, hleft⟩ := hc
    have hle := hleft (by rw [hbefore]; rfl)
    have hover : e'.job.status.isTerminal = true := by rw [hafter, hterm]
    subst hid
    rw [Operation.taken?_complete]
    refine ⟨hretries.trans hcount, ?_, fun hopen => absurd (hover.symm.trans hopen) (by simp)⟩
    cases hsoft : decide (record.status = .failed) && !force with
    | false => simpa [hsoft] using hmin
    | true =>
      -- a soft failure that ends the job came when no retry was left
      simp only [Bool.and_eq_true, decide_eq_true_eq, Bool.not_eq_true'] at hsoft
      have hnone := hspent hsoft.1 hsoft.2
      simp only [Option.any_some, hsoft, decide_true, Bool.not_false, Bool.and_true,
        Bool.toNat_true]
      change requeued = min (failures + 1) maxRetries.toNat
      omega

/-- What becomes of a job whose result is taken. -/
theorem Lifecycle.of_taken {record : Job} {force : Bool} {settlement : Settlement}
    (h : Lifecycle maxRetries now record.id (.complete record force)
      (.settlement (.ok settlement)) found found') :
    ∃ e e', found = some e ∧ found' = some e' ∧ e.job.status.isTerminal = false ∧
      (settlement = .requeued ∧ (record.status = .failed ∧ force = false ∧
          (e.retries : Int) < maxRetries) ∧
          e'.job.status = .created ∧ e'.job.worker = none ∨
        settlement = .ended ∧ ¬ (record.status = .failed ∧ force = false ∧
            (e.retries : Int) < maxRetries) ∧
          e'.job.status = record.status ∧ record.status.isTerminal = true ∧
          e'.job.ended = some now) := by
  cases h with
  | absent hspared => exact absurd rfl (hspared record.version).2
  | stays hspared => exact absurd rfl (hspared record.version).2
  | @requeued record e e' _ _ hfailed hlt hbefore hafter _ hworker _ =>
    exact ⟨e, e', rfl, rfl, by rw [hbefore]; rfl,
      .inl ⟨rfl, ⟨hfailed, rfl, hlt⟩, hafter, hworker⟩⟩
  | @ended record force e e' _ _ hterm hspent hbefore hafter _ hended _ =>
    refine ⟨e, e', rfl, rfl, by rw [hbefore]; rfl, .inr ⟨rfl, ?_, hafter, hterm, hended⟩⟩
    rintro ⟨hfailed, hforce, hlt⟩
    have hspent := hspent hfailed hforce
    omega

/-- Only a soft failure that is taken uses up a retry. -/
theorem Lifecycle.retries_eq {e : Entry}
    (h : Lifecycle maxRetries now id op answer (some e) found')
    (hsoft : op.failsSoftly answer id = false) :
    ∃ e', found' = some e' ∧ e'.retries = e.retries := by
  cases h with
  | @requeued record _ e' hid _ hfailed =>
    subst hid
    rw [Operation.failsSoftly, Operation.taken?_complete, hfailed] at hsoft
    exact absurd hsoft (by decide)
  | stays _ _ _ _ hretries => exact ⟨_, rfl, hretries⟩
  | leased _ _ _ _ hretries => exact ⟨_, rfl, hretries⟩
  | reclaimed _ _ _ _ hretries => exact ⟨_, rfl, hretries⟩
  | ended _ _ _ _ _ _ _ _ hretries => exact ⟨_, rfl, hretries⟩

namespace Store

variable {s : Store}

/-- How many soft failures of a job were taken in a history with its answers. -/
def softFailures (history : List (Instant × Operation)) (answers : List Answer) (id : Int) : Nat :=
  (history.zip answers).countP fun p => p.1.2.failsSoftly p.2 id

/-- How often a job was put back in a history with its answers. -/
def requeues (history : List (Instant × Operation)) (answers : List Answer) (id : Int) : Nat :=
  (history.zip answers).countP fun p => p.1.2.putsBack p.2 id

theorem softFailures_cons (op : Instant × Operation) (rest : List (Instant × Operation)) (s : Store)
    (id : Int) : softFailures (op :: rest) (performAll (op :: rest) s).1 id =
      (op.2.failsSoftly (s.perform op.1 op.2).1 id).toNat +
        softFailures rest (performAll rest (s.perform op.1 op.2).2).1 id := by
  simp only [softFailures, performAll, List.zip_cons_cons, List.countP_cons]
  cases op.2.failsSoftly (s.perform op.1 op.2).1 id
  · exact Nat.add_comm _ _
  · exact Nat.add_comm _ _

theorem requeues_cons (op : Instant × Operation) (rest : List (Instant × Operation)) (s : Store)
    (id : Int) : requeues (op :: rest) (performAll (op :: rest) s).1 id =
      (op.2.putsBack (s.perform op.1 op.2).1 id).toNat +
        requeues rest (performAll rest (s.perform op.1 op.2).2).1 id := by
  simp only [requeues, performAll, List.zip_cons_cons, List.countP_cons]
  cases op.2.putsBack (s.perform op.1 op.2).1 id
  · exact Nat.add_comm _ _
  · exact Nat.add_comm _ _

theorem Sound.charged_performAll (hs : s.Sound) (history : List (Instant × Operation))
    (hc : Charged s.maxRetries failures requeued (s.entry? id)) :
    Charged s.maxRetries (failures + softFailures history (Store.performAll history s).1 id)
      (requeued + requeues history (Store.performAll history s).1 id) <|
      entry? (Store.performAll history s).2 id := by
  induction history generalizing s failures requeued with
  | nil => exact hc
  | cons op rest ih =>
    have hstep := (hs.lifecycle_perform op.1 op.2 id).charged hc
    rw [← maxRetries_perform s op.1 op.2] at hstep
    have hrest := ih (sound_perform hs op.1 op.2) hstep
    rw [maxRetries_perform] at hrest
    rw [softFailures_cons, requeues_cons, ← Nat.add_assoc, ← Nat.add_assoc]
    exact hrest

theorem charged_afterHistory (maxRetries : Int) (history : List (Instant × Operation)) (id : Int) :
    Charged maxRetries (softFailures history (performAll history (empty maxRetries)).1 id)
      (requeues history (performAll history (empty maxRetries)).1 id) <|
      entry? (afterHistory maxRetries history) id := by
  have hnone : Charged maxRetries 0 0 <| entry? (empty maxRetries) id := ⟨rfl, rfl⟩
  have hafter := (sound_empty maxRetries).charged_performAll history hnone
  rwa [Nat.zero_add, Nat.zero_add] at hafter

/-- In every history, with whatever number of retries: a result that is taken ends its job at once,
unless it is a soft failure and no more of them were taken of the job, this one among them, than
there are retries; then the job waits again, without a worker. Nothing but a soft failure that is
taken uses up a retry, and so no job is put back more often than there are retries. -/
theorem retry_budget (maxRetries : Int) (history : List (Instant × Operation)) :
    let answers := (performAll history (empty maxRetries)).1
    let s := afterHistory maxRetries history
    (∀ (record : Job) (force : Bool) (now : Instant) (settlement : Settlement),
      (s.complete record force now).1 = .ok settlement →
      ∃ job, job? (s.complete record force now).2 record.id = some job ∧
        if record.status = .failed ∧ force = false ∧
            (softFailures history answers record.id + 1 : Int) ≤ maxRetries then
          settlement = .requeued ∧ job.status = .created ∧ job.worker = none
        else
          settlement = .ended ∧ job.status = record.status ∧ job.status.isTerminal = true ∧
            job.ended = some now) ∧
    (∀ (id : Int) (e : Entry), s.entry? id = some e → ∀ (now : Instant) (op : Operation),
      op.failsSoftly (s.perform now op).1 id = false →
      ∃ e', entry? (s.perform now op).2 id = some e' ∧ e'.retries = e.retries) ∧
    ∀ id, (requeues history answers id : Int) ≤ max 0 maxRetries := by
  have hs := sound_afterHistory maxRetries history
  have hm := maxRetries_afterHistory maxRetries history
  refine ⟨fun record force now settlement hanswer => ?_,
    fun id e he now op hsoft => ?_, fun id => ?_⟩
  · have hstep := hs.lifecycle_perform now (.complete record force) record.id
    have htaken : ((afterHistory maxRetries history).perform now (.complete record force)).1 =
        .settlement (.ok settlement) := by
      simp only [perform, hanswer]
    rw [htaken, hm] at hstep
    obtain ⟨e, e', he, he', hopen, hcases⟩ := hstep.of_taken
    have hcharged := charged_afterHistory maxRetries history record.id
    rw [he] at hcharged
    obtain ⟨hcount, hmin, hleft⟩ := hcharged
    have hle := hleft hopen
    have hlast : (e.retries : Int) < maxRetries ↔ (softFailures history
        (performAll history (empty maxRetries)).1 record.id + 1 : Int) ≤ maxRetries := by
      omega
    rw [hlast] at hcases
    refine ⟨e'.job, congrArg (Option.map fun e : Entry => e.job) he', ?_⟩
    rcases hcases with ⟨hput, hcond, hcreated, hworker⟩ | ⟨hput, hcond, hstatus, hterm, hended⟩
    · rw [if_pos hcond]
      exact ⟨hput, hcreated, hworker⟩
    · rw [if_neg hcond]
      exact ⟨hput, hstatus, hstatus ▸ hterm, hended⟩
  · have hstep := hs.lifecycle_perform now op id
    rw [he] at hstep
    exact hstep.retries_eq hsoft
  · exact (charged_afterHistory maxRetries history id).requeued_le

/-- A job with one retry uses it up; then its holder is too late with a second soft failure, falls
silent, and is relieved by another worker. -/
def lastTry : List (Instant × Operation) :=
  let now : Instant := ⟨1704067200, 0⟩
  let record : Job := { Job.new 1 .exports now with status := .failed }
  [(now, .enqueue .exports "" none), (now, .dequeue ⟨.exports, "a", 600, none, false⟩ false),
    (now, .complete { record with version := 1 } false),
    (now, .dequeue ⟨.exports, "b", 600, none, false⟩ false),
    (now, .complete { record with version := 1 } false), (now, .age 1 700),
    (now, .dequeue ⟨.exports, "c", 600, none, true⟩ false)]

theorem retry_budget_spent :
    let now : Instant := ⟨1704067200, 0⟩
    let record : Job := { Job.new 1 .exports now with status := .failed, version := 3 }
    let s := afterHistory 1 lastTry
    softFailures lastTry (performAll lastTry (empty 1)).1 1 = 1 ∧
      (s.complete record false now).1 = .ok .ended ∧
      ∃ job, job? (s.complete record false now).2 1 = some job ∧ job.status = .failed ∧
        job.ended = some now := by
  have hanswer : ((afterHistory 1 lastTry).complete
      { Job.new 1 .exports ⟨1704067200, 0⟩ with status := .failed, version := 3 } false
      ⟨1704067200, 0⟩).1 = .ok .ended := rfl
  have hcount : softFailures lastTry (performAll lastTry (empty 1)).1 1 = 1 := by decide
  obtain ⟨job, hjob, hcase⟩ := (retry_budget 1 lastTry).1 _ false _ _ hanswer
  rw [if_neg (by decide)] at hcase
  exact ⟨hcount, hanswer, job, hjob, hcase.2.1, hcase.2.2.2⟩

end Store

end LeasedWork
