import LeasedWork.Proofs.Store.Touch
import Mathlib.Algebra.GroupWithZero.Nat

/-!
# How many leases are left

While time stands still and nothing is queued, a job can be handed out only so often: once because
it waits or because its lease has expired, and once more for each time that a soft failure can put
it back. Handing a job out uses one of these leases up, because a lease is not expired at the time
at which it begins, whatever the timeout. Nothing that a worker does makes new ones.
-/
namespace LeasedWork

open Time (Instant)

/-- Whether a job is one to be handed out at a time, to somebody who looks for one like it: it
waits, or its lease has expired. -/
def Job.isOffered (timeout : Nat) (now : Instant) (job : Job) : Bool :=
  [false, true].any fun expired => Store.isEligible ⟨job.queue, "", timeout, none, expired⟩ now job

/-- How often a job can still be handed out at a time, if nothing is done but what workers do. -/
def Entry.leasesLeft (maxRetries : Int) (timeout : Nat) (now : Instant) (e : Entry) : Nat :=
  if e.job.status.isTerminal then 0
  else (maxRetries - e.retries).toNat + (e.job.isOffered timeout now).toNat

/-- How often jobs of a queue can still be handed out at a time. -/
def Store.leasesLeft (queue : Queue) (timeout : Nat) (now : Instant) (s : Store) : Nat :=
  (s.entries.map fun e =>
    if e.job.queue = queue then e.leasesLeft s.maxRetries timeout now else 0).sum

namespace Store

variable {s t : Store} {e : Entry} {timeout : Nat} {now : Instant} {request : LeaseRequest}

/-! ## Jobs to be handed out -/

theorem isOffered_iff {job : Job} : job.isOffered timeout now = true ↔
    job.status = .created ∨ job.status = .running ∧
      (min timeout Instant.longestSpan * Time.nanosPerSecond : Int) <
        now.nanos - job.beat.nanos := by
  simp [Job.isOffered, isEligible]

theorem isOffered_of_isEligible {job : Job} (htimeout : request.timeout = timeout)
    (h : isEligible request now job = true) : job.isOffered timeout now = true := by
  rw [isOffered_iff]
  simp only [isEligible, Bool.and_eq_true] at h
  have heligible := h.2
  split at heligible
  · right
    simpa [htimeout] using heligible
  · left
    simpa using heligible

/-- A job whose last sign of life is present is not one to be handed out, even if leases expire at
once. -/
theorem isOffered_of_beat {job : Job} (hstatus : job.status = .running) (hbeat : job.beat = now) :
    job.isOffered timeout now = false := by
  have hspan : (0 : Int) ≤ min timeout Instant.longestSpan * Time.nanosPerSecond :=
    Int.mul_nonneg (Int.natCast_nonneg _) (Int.natCast_nonneg _)
  rw [Bool.eq_false_iff, Ne, isOffered_iff, hbeat]
  rintro (hcreated | ⟨-, hexpired⟩)
  · rw [hstatus] at hcreated
    exact absurd hcreated (by decide)
  · omega

/-! ## What workers do to the leases that are left -/

/-- A lease uses one up. -/
theorem leasesLeft_leasedEntry (maxRetries : Int) (htimeout : request.timeout = timeout)
    (h : isEligible request now e.job = true) :
    (leasedEntry request now e).leasesLeft maxRetries timeout now + 1 =
      e.leasesLeft maxRetries timeout now := by
  have hoffered := isOffered_of_isEligible htimeout h
  have hterminal : e.job.status.isTerminal = false := by
    rcases isOffered_iff.mp hoffered with hstatus | ⟨hstatus, -⟩ <;> rw [hstatus] <;> rfl
  have hleased : (leasedEntry request now e).job.isOffered timeout now = false :=
    isOffered_of_beat rfl rfl
  have hrunning : (leasedEntry request now e).job.status.isTerminal = false := rfl
  have hretries : (leasedEntry request now e).retries = e.retries := rfl
  simp [Entry.leasesLeft, hterminal, hrunning, hoffered, hleased, hretries]

/-- A heartbeat can only keep a lease from expiring. -/
theorem leasesLeft_beaten (maxRetries : Int) (timeout : Nat) (hr : e.job.status = .running) :
    Entry.leasesLeft maxRetries timeout now { e with job := { e.job with beat := now } } ≤
      e.leasesLeft maxRetries timeout now := by
  have hbeaten : Job.isOffered timeout now { e.job with beat := now } = false :=
    isOffered_of_beat hr rfl
  simp only [Entry.leasesLeft, hbeaten, Bool.toNat_false, Nat.add_zero]
  split
  · exact Nat.le_refl _
  · exact Nat.le_add_right _ _

/-- A result that puts its job back uses up the retry for which it can be handed out again. -/
theorem leasesLeft_finalized (maxRetries : Int) (timeout : Nat) {record : Job} {force : Bool}
    (hr : e.job.status = .running) (ht : record.status.isTerminal = true) :
    (finalized maxRetries record force now e).leasesLeft maxRetries timeout now ≤
      e.leasesLeft maxRetries timeout now := by
  have hrunning : e.job.status.isTerminal = false := by rw [hr]; rfl
  unfold finalized
  split
  · rename_i hrequeued
    simp only [isRequeued, Bool.and_eq_true, decide_eq_true_eq] at hrequeued
    have hcreated : (requeued record.result e).job.status.isTerminal = false := rfl
    have hoffered : (requeued record.result e).job.isOffered timeout now = true :=
      isOffered_iff.mpr (.inl rfl)
    have hretries : (requeued record.result e).retries = e.retries + 1 := rfl
    simp only [Entry.leasesLeft, hrunning, hcreated, hoffered, hretries, Bool.false_eq_true,
      if_false, Bool.toNat_true]
    omega
  · have hover : (settled record force now e).job.status.isTerminal = true := ht
    simp [Entry.leasesLeft, hover]

/-! ## Sums over the store -/

theorem sum_modifyFirst {p : Entry → Bool} {entries : List Entry} (h : entries.find? p = some e)
    (change : Entry → Entry) (f : Entry → Nat) :
    ((modifyFirst p change entries).map f).sum + f e = (entries.map f).sum + f (change e) := by
  induction entries with
  | nil => simp at h
  | cons a rest ih =>
    by_cases ha : p a = true
    · rw [List.find?_cons_of_pos ha] at h
      obtain rfl := Option.some.inj h
      simp only [modifyFirst, ha, if_true, List.map_cons, List.sum_cons]
      omega
    · rw [List.find?_cons_of_neg ha] at h
      simp only [modifyFirst, ha, if_false, List.map_cons, List.sum_cons, Bool.false_eq_true]
      have hrest := ih h
      omega

theorem leasesLeft_congr (hentries : t.entries = s.entries) (hmax : t.maxRetries = s.maxRetries)
    (queue : Queue) :
    t.leasesLeft queue timeout now = s.leasesLeft queue timeout now := by
  rw [leasesLeft, leasesLeft, hentries, hmax]

/-- A change that uses up some of the leases that are left for an entry uses them up for its
queue. -/
theorem leasesLeft_modify {change : Entry → Entry} (he : s.entry? e.job.id = some e)
    (hqueue : (change e).job.queue = e.job.queue)
    (hentries : t.entries = (s.modify e.job.id change).entries) (hmax : t.maxRetries = s.maxRetries)
    {n : Nat} (h : (change e).leasesLeft s.maxRetries timeout now + n ≤
      e.leasesLeft s.maxRetries timeout now) (queue : Queue) :
    t.leasesLeft queue timeout now + (if e.job.queue = queue then n else 0) ≤
      s.leasesLeft queue timeout now := by
  have hsum := sum_modifyFirst he change fun a =>
    if a.job.queue = queue then a.leasesLeft s.maxRetries timeout now else 0
  rw [hqueue] at hsum
  rw [leasesLeft, leasesLeft, hentries, hmax, modify]
  split at hsum <;> rename_i hq
  · simp only [if_pos hq] at hsum ⊢
    omega
  · simp only [if_neg hq] at hsum ⊢
    omega

end Store

end LeasedWork
