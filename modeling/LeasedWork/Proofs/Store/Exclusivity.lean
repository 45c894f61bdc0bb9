import LeasedWork.Proofs.Store.Touch

/-!
# A lease has one holder

Only a call for a job raises the version of its entry, so a lease is named by number and version.
The order below is what carries the rest: an entry never goes back to an earlier version, and once
it has stopped running at a version it does not run at that version again. Hence nobody is given a
lease twice, no result is taken twice under one lease, and a lease that was handed on is dead.
-/
namespace LeasedWork

open Time (Instant)

/-- Whether the second entry may come later than the first one under the same number. -/
def Entry.LeadsTo (e e' : Entry) : Prop :=
  e.job.version < e'.job.version ∨
    e'.job.version = e.job.version ∧ (e'.job.status = .running → e.job.status = .running)

theorem Entry.LeadsTo.refl (e : Entry) : e.LeadsTo e := .inr ⟨rfl, id⟩

theorem Entry.LeadsTo.trans {a b c : Entry} (hab : a.LeadsTo b) (hbc : b.LeadsTo c) :
    a.LeadsTo c := by
  rcases hab with hab | ⟨hab, hrun⟩ <;> rcases hbc with hbc | ⟨hbc, hrun'⟩
  · exact .inl (by omega)
  · exact .inl (by omega)
  · exact .inl (by omega)
  · exact .inr ⟨by omega, fun h => hrun (hrun' h)⟩

theorem Entry.LeadsTo.version_le {e e' : Entry} (h : e.LeadsTo e') :
    e.job.version ≤ e'.job.version := by
  rcases h with h | ⟨h, -⟩ <;> omega

/-- The lease that an answer hands out, by number and version. -/
def Answer.grant? : Answer → Option (Int × Int)
  | .lease (.ok (some job)) => some (job.id, job.version)
  | _ => none

/-- The lease under which an operation's result is taken, by number and version. -/
def Operation.acceptance? : Operation → Answer → Option (Int × Int)
  | .complete record _, .settlement (.ok _) => some (record.id, record.version)
  | _, _ => none

namespace Store

variable {s : Store} {id : Int} {e e' : Entry} {now : Instant}

theorem finalized_version (maxRetries : Int) (record : Job) (force : Bool) (now : Instant)
    (e : Entry) : (finalized maxRetries record force now e).job.version = e.job.version := by
  unfold finalized
  split <;> rfl

/-- Whatever becomes of a job that is finalized, it does not run on. -/
theorem finalized_status_ne (maxRetries : Int) {record : Job} (ht : record.status.isTerminal = true)
    (force : Bool) (now : Instant) (e : Entry) :
    (finalized maxRetries record force now e).job.status ≠ .running := by
  unfold finalized
  split
  · simp [requeued]
  · intro h
    have hr : record.status = .running := h
    rw [hr] at ht
    exact absurd ht (by decide)

theorem Touch.leadsTo {maxRetries : Int} {op : Operation} (h : Touch maxRetries now e op e') :
    e.LeadsTo e' := by
  cases h with
  | leased => exact .inl (by simp only [leasedEntry, Store.leased]; omega)
  | @finalized record force _ _ _ ht =>
    exact .inr ⟨finalized_version _ _ _ _ _, fun hr =>
      absurd hr (finalized_status_ne _ ht _ _ _)⟩
  | beaten _ _ hr => exact .inr ⟨rfl, fun _ => hr⟩
  | cancelled => exact .inr ⟨rfl, fun hr => hr⟩
  | aged => exact .inr ⟨rfl, fun hr => hr⟩

theorem Sound.leadsTo_perform (hs : s.Sound) (h : s.entry? id = some e) (now : Instant)
    (op : Operation) : ∃ e', entry? (s.perform now op).2 id = some e' ∧ e.LeadsTo e' := by
  obtain ⟨e', he', rfl | ht⟩ := hs.entry?_perform h now op
  · exact ⟨e', he', .refl e'⟩
  · exact ⟨e', he', ht.leadsTo⟩

theorem Sound.leadsTo_performAll (hs : s.Sound) (h : s.entry? id = some e)
    (history : List (Instant × Operation)) :
    ∃ e', entry? (performAll history s).2 id = some e' ∧ e.LeadsTo e' := by
  induction history generalizing s e with
  | nil => exact ⟨e, h, .refl e⟩
  | cons op rest ih =>
    obtain ⟨a, ha, hea⟩ := hs.leadsTo_perform h op.1 op.2
    obtain ⟨e', he', hae⟩ := ih (sound_perform hs op.1 op.2) ha
    exact ⟨e', he', hea.trans hae⟩

/-! ## Leases and results -/

/-- The leases that answers hand out, in order. -/
def grants (answers : List Answer) : List (Int × Int) := answers.filterMap Answer.grant?

/-- The leases under which results were taken in a history with its answers, in order. -/
def acceptances (history : List (Instant × Operation)) (answers : List Answer) :
    List (Int × Int) :=
  (history.zip answers).filterMap fun p => p.1.2.acceptance? p.2

/-- A lease that is handed out has the next version of its entry. -/
theorem Sound.version_of_grant? (hs : s.Sound) {op : Operation} {lease : Int × Int}
    (h : (s.perform now op).1.grant? = some lease) :
    ∃ e e', s.entry? lease.1 = some e ∧ e.job.version < lease.2 ∧
      entry? (s.perform now op).2 lease.1 = some e' ∧ e'.job.version = lease.2 := by
  cases op with
  | dequeue request cancelled =>
    rcases hs.dequeue_cases request cancelled now with ⟨-, hno⟩ | ⟨e, he, -, -, hans, ht⟩
    · simp only [perform] at h
      cases hans : (s.dequeue request cancelled now).1 with
      | error refusal => simp [hans, Answer.grant?] at h
      | ok found =>
        cases found with
        | none => simp [hans, Answer.grant?] at h
        | some job => exact absurd hans (hno job)
    · simp only [perform, hans, Answer.grant?, Option.some.injEq] at h
      subst h
      refine ⟨e, leasedEntry request now e, he, by simp only [leased]; omega, ?_, rfl⟩
      have hcounted : s.countDequeue.entry? e.job.id = some e := he
      simp only [perform, ht]
      exact entry?_modify_self (keepsNumber_leasedEntry request now) hcounted
  | age id seconds =>
    simp only [perform] at h
    split at h <;> simp [Answer.grant?] at h
  | _ => simp [perform, Answer.grant?] at h

theorem grants_cons (op : Instant × Operation) (rest : List (Instant × Operation)) (s : Store) :
    grants (performAll (op :: rest) s).1 = (s.perform op.1 op.2).1.grant?.toList ++
      grants (performAll rest (s.perform op.1 op.2).2).1 := by
  simp only [grants, performAll, List.filterMap_cons]
  cases (s.perform op.1 op.2).1.grant? <;> rfl

/-- The leases handed out from now on have later versions than what is stored now. -/
theorem Sound.version_lt_of_mem_grants (hs : s.Sound) (history : List (Instant × Operation))
    {lease : Int × Int} (h : lease ∈ grants (Store.performAll history s).1)
    (he : s.entry? lease.1 = some e) : e.job.version < lease.2 := by
  induction history generalizing s e with
  | nil => simp [Store.performAll, grants] at h
  | cons op rest ih =>
    rw [grants_cons, List.mem_append] at h
    rcases h with h | h
    · obtain ⟨a, -, ha, hlt, -⟩ := hs.version_of_grant? (Option.mem_toList.mp h)
      rwa [Option.some.inj (he.symm.trans ha)]
    · obtain ⟨a, ha, hea⟩ := hs.leadsTo_perform he op.1 op.2
      have hlt := ih (sound_perform hs op.1 op.2) h ha
      have hle := hea.version_le
      omega

/-- Nobody is given a lease that was given out before. -/
theorem Sound.nodup_grants (hs : s.Sound) (history : List (Instant × Operation)) :
    (grants (Store.performAll history s).1).Nodup := by
  induction history generalizing s with
  | nil => simp [Store.performAll, grants]
  | cons op rest ih =>
    rw [grants_cons]
    cases hg : (s.perform op.1 op.2).1.grant? with
    | none => simpa using ih (sound_perform hs op.1 op.2)
    | some lease =>
      obtain ⟨-, e', -, -, he', hv⟩ := hs.version_of_grant? hg
      rw [Option.toList_some, List.singleton_append, List.nodup_cons]
      refine ⟨fun hmem => ?_, ih (sound_perform hs op.1 op.2)⟩
      have hlt := (sound_perform hs op.1 op.2).version_lt_of_mem_grants rest hmem he'
      omega

/-- What is stored is at least as late as any lease that was handed out. -/
theorem Sound.le_version_of_mem_grants (hs : s.Sound) (history : List (Instant × Operation))
    {lease : Int × Int} (h : lease ∈ grants (Store.performAll history s).1) :
    ∃ e, entry? (Store.performAll history s).2 lease.1 = some e ∧ lease.2 ≤ e.job.version := by
  induction history generalizing s with
  | nil => simp [Store.performAll, grants] at h
  | cons op rest ih =>
    rw [grants_cons, List.mem_append] at h
    rcases h with h | h
    · obtain ⟨-, a, -, -, ha, hv⟩ := hs.version_of_grant? (Option.mem_toList.mp h)
      obtain ⟨e, he, hae⟩ := (sound_perform hs op.1 op.2).leadsTo_performAll ha rest
      exact ⟨e, he, hv ▸ hae.version_le⟩
    · exact ih (sound_perform hs op.1 op.2) h

theorem acceptances_cons (op : Instant × Operation) (rest : List (Instant × Operation)) (s : Store) :
    acceptances (op :: rest) (performAll (op :: rest) s).1 =
      (op.2.acceptance? (s.perform op.1 op.2).1).toList ++
        acceptances rest (performAll rest (s.perform op.1 op.2).2).1 := by
  simp only [acceptances, performAll, List.zip_cons_cons, List.filterMap_cons]
  cases op.2.acceptance? (s.perform op.1 op.2).1 <;> rfl

/-- A result is taken of a running job at its version, which does not run on. -/
theorem lease_of_acceptance? {op : Operation} {lease : Int × Int}
    (h : op.acceptance? (s.perform now op).1 = some lease) :
    ∃ e e', s.entry? lease.1 = some e ∧ e.job.version = lease.2 ∧ e.job.status = .running ∧
      entry? (s.perform now op).2 lease.1 = some e' ∧ e'.job.version = lease.2 ∧
      e'.job.status ≠ .running := by
  cases op with
  | complete record force =>
    rcases complete_cases s record force now with
      ⟨-, refusal, hans⟩ | ⟨e, he, hv, hr, ht, hans, hs⟩
    · simp [perform, hans, Operation.acceptance?] at h
    · simp only [perform, hans, Operation.acceptance?, Option.some.injEq] at h
      subst h
      have hnoted : entry? (s.noteComplete record force) record.id = some e := he
      refine ⟨e, finalized s.maxRetries record force now e, he, hv, hr, ?_, ?_, ?_⟩
      · simp only [perform, hs]
        exact entry?_modify_self (keepsNumber_finalized _ _ _ _) hnoted
      · rw [finalized_version, hv]
      · exact finalized_status_ne _ ht _ _ _
  | _ => simp [Operation.acceptance?] at h

/-- A result can only be taken under a lease that is in force or still to come. -/
theorem Sound.lease_of_mem_acceptances (hs : s.Sound) (history : List (Instant × Operation))
    {lease : Int × Int} (h : lease ∈ acceptances history (Store.performAll history s).1)
    (he : s.entry? lease.1 = some e) :
    e.job.version < lease.2 ∨ e.job.version = lease.2 ∧ e.job.status = .running := by
  induction history generalizing s e with
  | nil => simp [acceptances] at h
  | cons op rest ih =>
    rw [acceptances_cons, List.mem_append] at h
    rcases h with h | h
    · obtain ⟨a, -, ha, hv, hr, -⟩ := lease_of_acceptance? (Option.mem_toList.mp h)
      obtain rfl := Option.some.inj (he.symm.trans ha)
      exact .inr ⟨hv, hr⟩
    · obtain ⟨a, ha, hea⟩ := hs.leadsTo_perform he op.1 op.2
      have hlater := ih (sound_perform hs op.1 op.2) h ha
      rcases hea with hea | ⟨hea, hrun⟩
      · exact .inl (by omega)
      · rcases hlater with hlt | ⟨heq, hr⟩
        · exact .inl (by omega)
        · exact .inr ⟨by omega, hrun hr⟩

theorem Sound.nodup_acceptances (hs : s.Sound) (history : List (Instant × Operation)) :
    (acceptances history (Store.performAll history s).1).Nodup := by
  induction history generalizing s with
  | nil => simp [acceptances]
  | cons op rest ih =>
    rw [acceptances_cons]
    cases ha : op.2.acceptance? (s.perform op.1 op.2).1 with
    | none => simpa using ih (sound_perform hs op.1 op.2)
    | some lease =>
      obtain ⟨-, e', -, -, -, he', hv, hr⟩ := lease_of_acceptance? ha
      rw [Option.toList_some, List.singleton_append, List.nodup_cons]
      refine ⟨fun hmem => ?_, ih (sound_perform hs op.1 op.2)⟩
      rcases (sound_perform hs op.1 op.2).lease_of_mem_acceptances rest hmem he' with hlt | ⟨-, hrun⟩
      · omega
      · exact hr hrun

/-! ## Leases that were handed on -/

/-- Nothing is left to do under a lease whose job has gone on to a later version. -/
theorem stale_calls {record : Job} (he : s.entry? record.id = some e)
    (hv : record.version < e.job.version) (now : Instant) (force : Bool) :
    ((s.heartbeat record now).1 = .ok true ∨
      ∃ refusal, (s.heartbeat record now).1 = .error refusal) ∧
    (s.heartbeat record now).2.entries = s.entries ∧
    (∃ refusal, (s.complete record force now).1 = .error refusal) ∧
    (s.complete record force now).2.entries = s.entries := by
  have hne : ∀ a, s.entry? record.id = some a → a.job.version ≠ record.version := by
    intro a ha
    obtain rfl := Option.some.inj (he.symm.trans ha)
    omega
  rcases heartbeat_cases s record now with ⟨hbeat, hans⟩ | ⟨a, ha, hav, -⟩
  · rcases complete_cases s record force now with ⟨hcomplete, hrefused⟩ | ⟨a, ha, hav, -⟩
    · exact ⟨hans, by rw [hbeat]; rfl, hrefused, by rw [hcomplete]; rfl⟩
    · exact absurd hav (hne a ha)
  · exact absurd hav (hne a ha)

/-- In every history, whoever calls and in whatever order, each lease is handed out once, at most
one result is taken under it, and once the job was handed out at a later version, calls under the
earlier one are turned away and change no job. -/
theorem lease_exclusive (maxRetries : Int) (history : List (Instant × Operation)) :
    let answers := (performAll history (empty maxRetries)).1
    let s := afterHistory maxRetries history
    (grants answers).Nodup ∧ (acceptances history answers).Nodup ∧
    ∀ lease ∈ grants answers, ∀ record : Job, record.id = lease.1 → record.version < lease.2 →
      ∀ (now : Instant) (force : Bool),
        ((s.heartbeat record now).1 = .ok true ∨
          ∃ refusal, (s.heartbeat record now).1 = .error refusal) ∧
        (s.heartbeat record now).2.entries = s.entries ∧
        (∃ refusal, (s.complete record force now).1 = .error refusal) ∧
        (s.complete record force now).2.entries = s.entries := by
  have hs := sound_empty maxRetries
  refine ⟨hs.nodup_grants history, hs.nodup_acceptances history, ?_⟩
  intro lease hlease record hid hv now force
  obtain ⟨e, he, hle⟩ := hs.le_version_of_mem_grants history hlease
  exact stale_calls (hid ▸ he) (by omega) now force

/-- A job is leased, its holder falls silent, and another worker takes the job over. -/
def takeover : List (Instant × Operation) :=
  let now : Instant := ⟨1704067200, 0⟩
  [(now, .enqueue .exports "" none), (now, .dequeue ⟨.exports, "a", 600, none, false⟩ false),
    (now, .age 1 700), (now, .dequeue ⟨.exports, "b", 600, none, true⟩ false)]

theorem lease_exclusive_takeover :
    let stale := { Job.new 1 .exports ⟨1704067200, 0⟩ with version := 1, status := .completed }
    (1, 2) ∈ grants (performAll takeover (empty 3)).1 ∧ stale.version < 2 ∧
      ∃ refusal, ((afterHistory 3 takeover).complete stale true ⟨1704067200, 0⟩).1 =
        .error refusal := by
  refine ⟨by decide, by decide, ?_⟩
  exact ((lease_exclusive 3 takeover).2.2 (1, 2) (by decide) _ rfl (by decide) _ true).2.2.1

end Store

end LeasedWork
