import LeasedWork.Proofs.Store.Exclusivity

/-!
# Leases in force

A lease is in force while its job runs under its version. What can end that is a result handed over
under it, or a call for expired leases that finds its last sign of life too old. Everything else
leaves it as it was, or refreshes it.
-/
namespace LeasedWork.Store

open Time (Instant)

variable {s t : Store} {id version : Int} {beat now : Instant} {op : Operation}

/-- Whether a job runs under a version, with its last sign of life at a time. -/
def Holds (s : Store) (id version : Int) (beat : Instant) : Prop :=
  ∃ e, s.entry? id = some e ∧ e.job.version = version ∧ e.job.status = .running ∧ e.job.beat = beat

theorem holds_congr (h : t.entries = s.entries) :
    t.Holds id version beat ↔ s.Holds id version beat := by
  rw [Holds, entry?_congr h, Holds]

theorem entries_dequeue_of_failing (s : Store) (h : s.failDequeue = true) (request : LeaseRequest)
    (cancelled : Bool) (now : Instant) :
    (s.dequeue request cancelled now).2.entries = s.entries := by
  unfold dequeue
  cases cancelled with
  | true => rfl
  | false =>
    simp only [h, Bool.false_eq_true, if_false, if_true]
    rfl

/-- A running job is not eligible before its last sign of life is older than the timeout. -/
theorem not_isEligible_of_running {request : LeaseRequest} {job : Job} (hr : job.status = .running)
    (h : request.expired = true → now.nanos - job.beat.nanos ≤
      (min request.timeout Instant.longestSpan * Time.nanosPerSecond : Int)) :
    isEligible request now job = false := by
  unfold isEligible
  cases hexpired : request.expired with
  | false => simp [hr]
  | true =>
    have hyoung := Int.not_lt.mpr (h hexpired)
    rw [if_pos rfl, decide_eq_false hyoung, Bool.and_false, Bool.and_false]

/-- A call for a job passes by a lease that has not expired. -/
theorem Sound.holds_dequeue (hs : s.Sound) {request : LeaseRequest}
    (hyoung : s.failDequeue = false → request.expired = true → now.nanos - beat.nanos ≤
      (min request.timeout Instant.longestSpan * Time.nanosPerSecond : Int))
    (h : s.Holds id version beat) : Holds (s.dequeue request false now).2 id version beat := by
  cases hfail : s.failDequeue with
  | true => exact (holds_congr (s.entries_dequeue_of_failing hfail _ _ _)).mpr h
  | false =>
    obtain ⟨e, he, hv, hr, rfl⟩ := h
    rcases hs.dequeue_cases request false now with ⟨ht, -⟩ | ⟨a, ha, -, hel, -, ht⟩
    · rw [ht]
      exact ⟨e, he, hv, hr, rfl⟩
    · rw [ht]
      have hne : id ≠ a.job.id := by
        rintro rfl
        obtain rfl := Option.some.inj (he.symm.trans ha)
        rw [not_isEligible_of_running hr (hyoung hfail)] at hel
        exact absurd hel (by simp)
      refine ⟨e, ?_, hv, hr, rfl⟩
      rw [Store.entry?_modify _ (keepsNumber_leasedEntry request now), if_neg hne]
      exact he

/-- A job that is handed out is held from then on. -/
theorem Sound.holds_of_dequeue (hs : s.Sound) {request : LeaseRequest} {cancelled : Bool} {job : Job}
    (h : (s.dequeue request cancelled now).1 = .ok (some job)) :
    Holds (s.dequeue request cancelled now).2 job.id job.version now ∧
      ∃ e, s.entry? job.id = some e ∧ e.job.version < job.version := by
  rcases hs.dequeue_cases request cancelled now with ⟨-, hno⟩ | ⟨e, he, -, -, hanswer, ht⟩
  · exact absurd h (hno job)
  · rw [hanswer] at h
    obtain rfl := Option.some.inj (Except.ok.inj h)
    have hcounted : s.countDequeue.entry? e.job.id = some e := he
    refine ⟨⟨leasedEntry request now e, ?_, rfl, rfl, rfl⟩, e, he, ?_⟩
    · rw [ht]
      exact entry?_modify_self (keepsNumber_leasedEntry request now) hcounted
    · simp only [leased]
      omega

/-- A lease outlasts every operation but the ones that may end it; a heartbeat refreshes it. -/
theorem Sound.holds_perform (hs : s.Sound) (now : Instant)
    (hdequeue : ∀ request, op ≠ .dequeue request false)
    (hcomplete : ∀ record force, op = .complete record force → record.id ≠ id)
    (hage : ∀ other seconds, op ≠ .age other seconds) (h : s.Holds id version beat) :
    Holds (s.perform now op).2 id version beat ∨ Holds (s.perform now op).2 id version now := by
  obtain ⟨e, he, hv, hr, hbeat⟩ := h
  obtain ⟨e', he', rfl | htouch⟩ := hs.entry?_perform he now op
  · exact .inl ⟨e', he', hv, hr, hbeat⟩
  · cases htouch with
    | leased => exact absurd rfl (hdequeue _)
    | beaten => exact .inr ⟨_, he', hv, hr, rfl⟩
    | finalized hid => exact absurd (hid.trans (Store.id_of_entry? he)) (hcomplete _ _ rfl)
    | cancelled => exact .inl ⟨_, he', hv, hr, hbeat⟩
    | aged => exact absurd rfl (hage _ _)

/-- A heartbeat under a lease in force refreshes it. -/
theorem holds_heartbeat {record : Job} (hfail : s.failHeartbeat = false)
    (h : s.Holds record.id record.version beat) :
    Holds (s.heartbeat record now).2 record.id record.version now := by
  obtain ⟨e, he, hv, hr, -⟩ := h
  have hcounted : Store.entry? (s.noteBeat record.id) record.id = some e := he
  have hkeeps : KeepsNumber fun a : Entry => { a with job := { a.job with beat := now } } :=
    fun _ => rfl
  have hbeat : (s.heartbeat record now).2 = (s.noteBeat record.id).modify record.id fun a =>
      { a with job := { a.job with beat := now } } := by
    simp [heartbeat, hfail, he, hv, hr]
  rw [hbeat]
  exact ⟨_, entry?_modify_self hkeeps hcounted, hv, hr, rfl⟩

/-- The version of a job stays, unless the job is called for. -/
theorem Sound.version_perform (hs : s.Sound) (now : Instant)
    (hdequeue : ∀ request, op ≠ .dequeue request false) {e : Entry} (he : s.entry? id = some e) :
    ∃ e', entry? (s.perform now op).2 id = some e' ∧ e'.job.version = e.job.version := by
  obtain ⟨e', he', rfl | htouch⟩ := hs.entry?_perform he now op
  · exact ⟨e', he', rfl⟩
  · refine ⟨e', he', ?_⟩
    cases htouch with
    | leased => exact absurd rfl (hdequeue _)
    | finalized => exact finalized_version _ _ _ _ _
    | _ => rfl

/-- A result is not turned away for its version while its lease is in force. -/
theorem complete_ne_versionConflict {record : Job} (force : Bool)
    (h : s.Holds record.id record.version beat) (other expected actual : Int) :
    (s.complete record force now).1 ≠ .error (.versionConflict other expected actual) := by
  obtain ⟨e, he, hv, -⟩ := h
  unfold complete
  split
  · simp
  · split
    · simp
    · simp only [he, hv, ne_eq, not_true_eq_false, if_false]
      split
      · simp
      · split <;> simp

/-- Heartbeats go on being answered, unless somebody makes them fail. -/
theorem Sound.failHeartbeat_perform (hs : s.Sound) (hop : op ≠ .setFailing .heartbeat true)
    (h : s.failHeartbeat = false) : (s.perform now op).2.failHeartbeat = false := by
  cases op with
  | dequeue request cancelled =>
    rcases hs.dequeue_cases request cancelled now with ⟨ht, -⟩ | ⟨e, -, -, -, -, ht⟩
    · simp only [perform, ht]
      exact h
    · simp only [perform, ht]
      exact h
  | heartbeat record =>
    rcases heartbeat_cases s record now with ⟨ht, -⟩ | ⟨e, -, -, -, -, ht⟩
    · simp only [perform, ht]
      exact h
    · simp only [perform, ht]
      exact h
  | complete record force =>
    rcases complete_cases s record force now with ⟨ht, -⟩ | ⟨e, -, -, -, -, -, ht⟩
    · simp only [perform, ht]
      exact h
    · simp only [perform, ht]
      exact h
  | requestCancel id =>
    simp only [perform, requestCancel]
    split
    · split <;> exact h
    · exact h
  | age id seconds =>
    simp only [perform, age]
    cases s.entry? id with
    | none => exact h
    | some e => cases hb : e.job.beat.earlier seconds <;> simpa [hb, Except.map, modify] using h
  | setFailing call value =>
    cases call with
    | heartbeat =>
      cases value with
      | true => exact absurd rfl hop
      | false => rfl
    | _ => exact h
  | _ => exact h

end LeasedWork.Store
