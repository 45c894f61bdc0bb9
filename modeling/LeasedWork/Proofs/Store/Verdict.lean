import LeasedWork.Proofs.Store.Exclusivity

/-!
# Verdicts

The verdict on a job is what its terminal status came with: the version, the status and the result.
Only a result that is handed over makes a verdict, and once there is one nothing changes it.
-/
namespace LeasedWork

open Time (Instant)

/-- How a job ended, and under which lease. -/
structure Verdict where
  version : Int
  status : Status
  result : Option String
  deriving DecidableEq, Inhabited, Repr

/-- The verdict on the job of an entry, if it is over. -/
def Entry.verdict? (e : Entry) : Option Verdict :=
  if e.job.status.isTerminal then some ⟨e.job.version, e.job.status, e.job.result⟩ else none

namespace Store

/-- The verdict on the job of a number, if it is over. -/
def verdict? (s : Store) (id : Int) : Option Verdict := (s.entry? id).bind Entry.verdict?

variable {s t : Store} {id : Int} {e e' : Entry} {v : Verdict} {now : Instant} {op : Operation}

theorem verdict?_of_running (h : e.job.status = .running) : e.verdict? = none := by
  simp [Entry.verdict?, h, Status.isTerminal]

theorem verdict?_eq_of_entries (h : t.entries = s.entries) (id : Int) :
    t.verdict? id = s.verdict? id := by
  rw [verdict?, entry?_congr h, verdict?]

/-- A job whose status is terminal has a verdict. -/
theorem exists_verdict? {status : Status} (h : (s.job? id).map (·.status) = some status)
    (ht : status.isTerminal = true) : ∃ v, s.verdict? id = some v := by
  obtain ⟨job, hjob, rfl⟩ := Option.map_eq_some_iff.mp h
  obtain ⟨e, he, rfl⟩ := Option.map_eq_some_iff.mp hjob
  exact ⟨_, by rw [verdict?, he, Option.bind_some, Entry.verdict?, if_pos ht]⟩

theorem verdict?_of_status (h : (s.job? id).map (·.status) = some .running) :
    s.verdict? id = none := by
  obtain ⟨job, hjob, hr⟩ := Option.map_eq_some_iff.mp h
  obtain ⟨e, he, rfl⟩ := Option.map_eq_some_iff.mp hjob
  rw [verdict?, he, Option.bind_some, verdict?_of_running hr]

theorem not_terminal_of_isEligible {request : LeaseRequest} {job : Job}
    (h : isEligible request now job = true) : job.status.isTerminal = false := by
  unfold isEligible at h
  cases hs : job.status <;> simp_all [Status.isTerminal]

/-- Whatever is done to a job but handing over its result leaves the verdict alone. -/
theorem Touch.verdict?_eq {maxRetries : Int} (h : Touch maxRetries now e op e')
    (hop : ∀ record force, op ≠ .complete record force) : e'.verdict? = e.verdict? := by
  cases h with
  | @leased request hel =>
    have hnone : e.verdict? = none := by
      rw [Entry.verdict?, not_terminal_of_isEligible hel]
      rfl
    have hrunning : (leasedEntry request now e).job.status = .running := rfl
    rw [hnone, verdict?_of_running hrunning]
  | beaten => rfl
  | finalized => exact absurd rfl (hop _ _)
  | cancelled => rfl
  | aged => rfl

/-- A job that is over cannot have a result handed over. -/
theorem Touch.verdict?_of_some {maxRetries : Int} (h : Touch maxRetries now e op e')
    (hv : e.verdict? = some v) : e'.verdict? = some v := by
  cases h with
  | finalized _ _ hr => simp [verdict?_of_running hr] at hv
  | leased hel =>
    rw [Entry.verdict?, not_terminal_of_isEligible hel] at hv
    simp at hv
  | beaten => exact hv
  | cancelled => exact hv
  | aged => exact hv

/-- Every operation but one leaves all verdicts alone. -/
theorem Sound.verdict?_perform (hs : s.Sound) (now : Instant)
    (hop : ∀ record force, op ≠ .complete record force) (id : Int) :
    verdict? (s.perform now op).2 id = s.verdict? id := by
  rcases hs.perform_cases now op with ⟨ht, -⟩ | ⟨a, change, ha, hc, htouch, ht, -⟩ | ⟨q, d, g, rfl⟩
  · exact verdict?_eq_of_entries ht id
  · rw [verdict?_eq_of_entries ht, verdict?, entry?_modify s hc, verdict?]
    by_cases hid : id = a.job.id
    · simp [hid, ha, htouch.verdict?_eq hop]
    · simp [hid]
  · rw [perform, verdict?, entry?_enqueue, verdict?]
    cases s.entry? id with
    | some e => rfl
    | none =>
      rw [Option.none_or]
      split <;> rfl

/-- A verdict is never changed. -/
theorem Sound.verdict?_perform_of_some (hs : s.Sound) (now : Instant) (op : Operation)
    (hv : s.verdict? id = some v) : verdict? (s.perform now op).2 id = some v := by
  obtain ⟨e, he, hev⟩ := Option.bind_eq_some_iff.mp hv
  obtain ⟨e', he', rfl | htouch⟩ := hs.entry?_perform he now op
  · rw [verdict?, he', Option.bind_some, hev]
  · rw [verdict?, he', Option.bind_some, htouch.verdict?_of_some hev]

/-- A result that is handed over makes a verdict on its job, or puts the job back to wait. -/
theorem finalized_verdict? (maxRetries : Int) (record : Job) (force : Bool)
    (ht : record.status.isTerminal = true) (now : Instant) (e : Entry) :
    (finalized maxRetries record force now e).job.status = .created ∧
        record.status = .failed ∧ force = false ∧
        (finalized maxRetries record force now e).verdict? = none ∨
      (finalized maxRetries record force now e).job.status = record.status ∧
        (finalized maxRetries record force now e).verdict? =
          some ⟨e.job.version, record.status, record.result⟩ := by
  unfold finalized
  split
  · rename_i hr
    simp only [isRequeued, Bool.and_eq_true, decide_eq_true_eq, Bool.not_eq_true'] at hr
    exact .inl ⟨rfl, hr.1.1, hr.1.2, rfl⟩
  · exact .inr ⟨rfl, by simp [Entry.verdict?, settled, ht]⟩

/-! ## Jobs that were begun -/

/-- Whether the job of a number has left its first status, at a version. -/
def Begun (s : Store) (id version : Int) : Prop :=
  ∃ e, s.entry? id = some e ∧ e.job.status ≠ .created ∧ e.job.version = version

theorem begun_congr {version : Int} (h : t.entries = s.entries) :
    t.Begun id version ↔ s.Begun id version := by
  rw [Begun, entry?_congr h, Begun]

theorem Touch.begun {maxRetries : Int} (h : Touch maxRetries now e op e')
    (hop : ∀ request, op ≠ .dequeue request false) (hc : e'.job.status ≠ .created) :
    e.job.status ≠ .created ∧ e'.job.version = e.job.version := by
  cases h with
  | leased => exact absurd rfl (hop _)
  | beaten _ _ hr => exact ⟨by simp [hr], rfl⟩
  | finalized _ _ hr => exact ⟨by simp [hr], finalized_version _ _ _ _ _⟩
  | cancelled => exact ⟨hc, rfl⟩
  | aged => exact ⟨hc, rfl⟩

/-- Only a call for a job begins one. -/
theorem Sound.begun_of_perform (hs : s.Sound) {version : Int}
    (hop : ∀ request, op ≠ .dequeue request false)
    (h : Begun (s.perform now op).2 id version) : s.Begun id version := by
  obtain ⟨e', he', hc, hv⟩ := h
  rcases hs.perform_cases now op with ⟨ht, -⟩ | ⟨a, change, ha, hchange, htouch, ht, -⟩ |
    ⟨q, d, g, rfl⟩
  · exact ⟨e', entry?_congr ht id ▸ he', hc, hv⟩
  · rw [Store.entry?_congr ht, Store.entry?_modify s hchange] at he'
    by_cases hid : id = a.job.id
    · rw [if_pos hid, ha, Option.map_some, Option.some.injEq] at he'
      subst he'
      obtain ⟨hcreated, hversion⟩ := htouch.begun hop hc
      exact ⟨a, hid ▸ ha, hcreated, hversion ▸ hv⟩
    · rw [if_neg hid] at he'
      exact ⟨e', he', hc, hv⟩
  · rw [perform, entry?_enqueue] at he'
    rcases Option.or_eq_some_iff.mp he' with he' | ⟨-, hnew⟩
    · exact ⟨e', he', hc, hv⟩
    · split at hnew
      · obtain rfl := Option.some.inj hnew
        exact absurd rfl hc
      · exact absurd hnew (by simp)

/-- A job that is begun by a call for a job is the one that the call is answered with. -/
theorem Sound.begun_of_dequeue (hs : s.Sound) {request : LeaseRequest} {version : Int}
    (h : Begun (s.dequeue request false now).2 id version) :
    s.Begun id version ∨ ∃ job, (s.dequeue request false now).1 = .ok (some job) ∧
      job.id = id ∧ job.version = version := by
  rcases hs.dequeue_cases request false now with ⟨ht, -⟩ | ⟨a, ha, -, -, hanswer, ht⟩
  · rw [ht] at h
    exact .inl h
  · obtain ⟨e', he', hc, hv⟩ := h
    rw [ht, entry?_modify _ (keepsNumber_leasedEntry request now)] at he'
    have hcounted : s.countDequeue.entry? a.job.id = some a := ha
    by_cases hid : id = a.job.id
    · rw [if_pos hid, hcounted, Option.map_some, Option.some.injEq] at he'
      subst he'
      exact .inr ⟨_, hanswer, hid.symm, hv⟩
    · rw [if_neg hid] at he'
      exact .inl ⟨e', he', hc, hv⟩

/-- A job that is handed out is stored at its version. -/
theorem Sound.version_of_dequeue (hs : s.Sound) {request : LeaseRequest} {cancelled : Bool}
    {job : Job} (h : (s.dequeue request cancelled now).1 = .ok (some job)) :
    ∃ e, entry? (s.dequeue request cancelled now).2 job.id = some e ∧
      e.job.version = job.version := by
  have hgrant : (s.perform now (.dequeue request cancelled)).1.grant? =
      some (job.id, job.version) := by
    simp only [perform, h, Answer.grant?]
  obtain ⟨-, e', -, -, he', hv⟩ := hs.version_of_grant? hgrant
  exact ⟨e', he', hv⟩

end Store

end LeasedWork
