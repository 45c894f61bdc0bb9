import LeasedWork.Proofs.Store.Entries

/-!
# What operations do to entries

Each call of the store is taken apart once: either it leaves every entry as it was, or it changes
one entry in a way that its answer tells. A history is then a sequence of touches, and what touches
keep is kept by every history.
-/
namespace LeasedWork.Store

open Time (Instant)

variable {s : Store} {id : Int} {e e' : Entry} {now : Instant}

/-! ## The calls of workers -/

/-- An entry under a new lease. -/
def leasedEntry (request : LeaseRequest) (now : Instant) (e : Entry) : Entry :=
  { e with job := leased request.worker now e.job }

theorem keepsNumber_leasedEntry (request : LeaseRequest) (now : Instant) :
    KeepsNumber (leasedEntry request now) := fun _ => rfl

/-- A call for a job only counts, or leases an eligible job and answers with it. -/
theorem Sound.dequeue_cases (hs : s.Sound) (request : LeaseRequest) (cancelled : Bool)
    (now : Instant) :
    ((s.dequeue request cancelled now).2 = s.countDequeue ∧
      ∀ job, (s.dequeue request cancelled now).1 ≠ .ok (some job)) ∨
    ∃ e, s.entry? e.job.id = some e ∧ cancelled = false ∧
      isEligible request now e.job = true ∧
      (s.dequeue request cancelled now).1 = .ok (some (leased request.worker now e.job)) ∧
      (s.dequeue request cancelled now).2 =
        s.countDequeue.modify e.job.id (leasedEntry request now) := by
  unfold dequeue
  cases cancelled with
  | true => simp
  | false =>
    by_cases hf : s.failDequeue = true
    · simp [hf]
    · cases hfind : s.entries.find? fun e => isEligible request now e.job with
      | none => simp [hf]
      | some e =>
        have he : s.entry? e.job.id = some e := hs.entry?_of_mem (List.mem_of_find?_eq_some hfind)
        have hcounted : s.countDequeue.entry? e.job.id = some e := he
        have hel : isEligible request now e.job = true := by simpa using List.find?_some hfind
        refine .inr ⟨e, he, rfl, hel, ?_⟩
        simp only [hf, Bool.false_eq_true, if_false]
        exact ⟨trivial, modify_congr hcounted rfl⟩

/-- A heartbeat only counts, or finds its lease in force and refreshes it. -/
theorem heartbeat_cases (s : Store) (record : Job) (now : Instant) :
    ((s.heartbeat record now).2 = s.noteBeat record.id ∧
      ((s.heartbeat record now).1 = .ok true ∨
        ∃ refusal, (s.heartbeat record now).1 = .error refusal)) ∨
    ∃ e, s.entry? record.id = some e ∧ e.job.version = record.version ∧
      e.job.status = .running ∧ (s.heartbeat record now).1 = .ok e.job.cancelRequested ∧
      (s.heartbeat record now).2 = (s.noteBeat record.id).modify record.id fun a =>
        { a with job := { a.job with beat := now } } := by
  unfold heartbeat
  by_cases hf : s.failHeartbeat = true
  · simp [hf]
  · cases hfind : s.entry? record.id with
    | none => simp [hf]
    | some e =>
      by_cases hl : e.job.version ≠ record.version ∨ e.job.status ≠ .running
      · simp [hf, hl]
      · simp only [ne_eq, not_or, Decidable.not_not] at hl
        exact .inr ⟨e, rfl, hl.1, hl.2, by simp [hf, hl]⟩

/-- The entry that a finalization leaves. -/
def finalized (maxRetries : Int) (record : Job) (force : Bool) (now : Instant) (e : Entry) : Entry :=
  if isRequeued maxRetries record.status force e.retries then requeued record.result e
  else settled record force now e

/-- What becomes of the job whose finalization is taken. -/
def settlementOf (maxRetries : Int) (record : Job) (force : Bool) (e : Entry) : Settlement :=
  if isRequeued maxRetries record.status force e.retries then .requeued else .ended

/-- A finalization is only noted, or finds its lease in force and finalizes it. -/
theorem complete_cases (s : Store) (record : Job) (force : Bool) (now : Instant) :
    ((s.complete record force now).2 = s.noteComplete record force ∧
      ∃ refusal, (s.complete record force now).1 = .error refusal) ∨
    ∃ e, s.entry? record.id = some e ∧ e.job.version = record.version ∧
      e.job.status = .running ∧ record.status.isTerminal = true ∧
      (s.complete record force now).1 = .ok (settlementOf s.maxRetries record force e) ∧
      (s.complete record force now).2 = (s.noteComplete record force).modify record.id
        (finalized s.maxRetries record force now) := by
  by_cases hf : s.failComplete = true
  · simp [complete, hf]
  by_cases ht : record.status.isTerminal = true
  · cases hfind : s.entry? record.id with
    | none => simp [complete, hf, ht, hfind]
    | some e =>
      by_cases hv : e.job.version = record.version
      · by_cases hm : e.job.status.canBecome record.status = true
        · have hrun : e.job.status = .running := (Status.canBecome_terminal ht).mp hm
          have hlogged : entry? (s.noteComplete record force) record.id = some e := hfind
          refine .inr ⟨e, rfl, hv, hrun, ht, ?_⟩
          by_cases hr : isRequeued s.maxRetries record.status force e.retries = true
          · have hans : s.complete record force now = (.ok .requeued,
                (s.noteComplete record force).modify record.id (requeued record.result)) := by
              simp [complete, hf, ht, hfind, hv, hm, hr]
            rw [hans]
            exact ⟨by simp [settlementOf, hr], modify_congr hlogged (by simp [finalized, hr])⟩
          · have hans : s.complete record force now = (.ok .ended,
                (s.noteComplete record force).modify record.id (settled record force now)) := by
              simp [complete, hf, ht, hfind, hv, hm, hr]
            rw [hans]
            exact ⟨by simp [settlementOf, hr], modify_congr hlogged (by simp [finalized, hr])⟩
        · simp [complete, hf, ht, hfind, hv, hm]
      · simp [complete, hf, ht, hfind, hv]
  · simp [complete, hf, ht]

/-! ## Touches -/

/-- How an operation at a time may change an entry of a store with so many retries. -/
inductive Touch (maxRetries : Int) (now : Instant) (e : Entry) : Operation → Entry → Prop
  | leased {request : LeaseRequest} (h : isEligible request now e.job = true) :
    Touch maxRetries now e (.dequeue request false) (leasedEntry request now e)
  | beaten {record : Job} (hid : record.id = e.job.id) (hv : e.job.version = record.version)
      (hr : e.job.status = .running) :
    Touch maxRetries now e (.heartbeat record) { e with job := { e.job with beat := now } }
  | finalized {record : Job} {force : Bool} (hid : record.id = e.job.id)
      (hv : e.job.version = record.version) (hr : e.job.status = .running)
      (ht : record.status.isTerminal = true) :
    Touch maxRetries now e (.complete record force) (finalized maxRetries record force now e)
  | cancelled (h : e.job.status.isTerminal = false) :
    Touch maxRetries now e (.requestCancel e.job.id)
      { e with job := { e.job with cancelRequested := true } }
  | aged {seconds : Int} {beat : Instant} (h : e.job.beat.earlier seconds = .ok beat) :
    Touch maxRetries now e (.age e.job.id seconds) { e with job := { e.job with beat := beat } }

theorem keepsNumber_finalized (maxRetries : Int) (record : Job) (force : Bool) (now : Instant) :
    KeepsNumber (finalized maxRetries record force now) := by
  intro e
  unfold finalized
  split <;> rfl

/-- An operation leaves all entries, touches one, or adds one. -/
theorem Sound.perform_cases (hs : s.Sound) (now : Instant) (op : Operation) :
    ((s.perform now op).2.entries = s.entries ∧ (s.perform now op).2.lastId = s.lastId) ∨
    (∃ e change, s.entry? e.job.id = some e ∧ KeepsNumber change ∧
      Touch s.maxRetries now e op (change e) ∧
      (s.perform now op).2.entries = (s.modify e.job.id change).entries ∧
      (s.perform now op).2.lastId = s.lastId) ∨
    ∃ queue definition group, op = .enqueue queue definition group := by
  cases op with
  | enqueue queue definition group => exact .inr (.inr ⟨queue, definition, group, rfl⟩)
  | dequeue request cancelled =>
    rcases hs.dequeue_cases request cancelled now with ⟨ht, -⟩ | ⟨e, he, rfl, hel, -, ht⟩
    · exact .inl (by simp only [perform, ht]; exact ⟨rfl, rfl⟩)
    · refine .inr (.inl ⟨e, leasedEntry request now, he, fun _ => rfl, .leased hel, ?_⟩)
      simp only [perform, ht]
      exact ⟨rfl, rfl⟩
  | heartbeat record =>
    rcases heartbeat_cases s record now with ⟨ht, -⟩ | ⟨e, he, hv, hr, -, ht⟩
    · exact .inl (by simp only [perform, ht]; exact ⟨rfl, rfl⟩)
    · have hid := id_of_entry? he
      refine .inr (.inl ⟨e, fun a => { a with job := { a.job with beat := now } }, hid ▸ he,
        fun _ => rfl, .beaten hid.symm hv hr, ?_⟩)
      simp only [perform, ht, hid]
      exact ⟨rfl, rfl⟩
  | complete record force =>
    rcases complete_cases s record force now with ⟨ht, -⟩ | ⟨e, he, hv, hr, hterm, -, ht⟩
    · exact .inl (by simp only [perform, ht]; exact ⟨rfl, rfl⟩)
    · have hid := id_of_entry? he
      refine .inr (.inl ⟨e, finalized s.maxRetries record force now, hid ▸ he,
        keepsNumber_finalized _ _ _ _, .finalized hid.symm hv hr hterm, ?_⟩)
      simp only [perform, ht, hid]
      exact ⟨rfl, rfl⟩
  | requestCancel id =>
    cases he : s.entry? id with
    | none => exact .inl (by simp [perform, requestCancel, he])
    | some e =>
      obtain rfl := id_of_entry? he
      cases ht : e.job.status.isTerminal with
      | true => exact .inl (by simp [perform, requestCancel, he, ht])
      | false =>
        refine .inr (.inl ⟨e, fun a => { a with job := { a.job with cancelRequested := true } }, he,
          fun _ => rfl, .cancelled ht, ?_⟩)
        simp [perform, requestCancel, he, ht, modify]
  | age id seconds =>
    cases he : s.entry? id with
    | none => exact .inl (by simp [perform, age, he])
    | some e =>
      obtain rfl := id_of_entry? he
      cases hb : e.job.beat.earlier seconds with
      | error fault => exact .inl (by simp [perform, age, he, hb, Except.map])
      | ok beat =>
        refine .inr (.inl ⟨e, fun a => { a with job := { a.job with beat := beat } }, he,
          fun _ => rfl, .aged hb, ?_⟩)
        simp [perform, age, he, hb, Except.map, modify]
  | setFailing call value => exact .inl (by cases call <;> exact ⟨rfl, rfl⟩)
  | setInitialized value => exact .inl ⟨rfl, rfl⟩

/-- A new entry for a job that is queued at a time. -/
def queued (id : Int) (queue : Queue) (definition : String) (group : Option Int) (now : Instant) :
    Entry :=
  ⟨{ Job.new id queue now with definition := some definition, group := group }, 0⟩

/-- A job that is queued comes behind all others. -/
theorem entry?_enqueue (s : Store) (queue : Queue) (definition : String) (group : Option Int)
    (now : Instant) (id : Int) :
    entry? (s.enqueue queue definition group now).2 id = (s.entry? id).or
      (if s.lastId + 1 = id then some (queued (s.lastId + 1) queue definition group now)
        else none) := by
  have hentries : (s.enqueue queue definition group now).2.entries =
      s.entries ++ [queued (s.lastId + 1) queue definition group now] := rfl
  rw [Store.entry?, hentries, List.find?_append, ← entry?]
  by_cases h : s.lastId + 1 = id <;> simp [queued, Job.new, h]

theorem entry?_congr {t : Store} (h : t.entries = s.entries) (id : Int) :
    t.entry? id = s.entry? id := by
  rw [Store.entry?, h, Store.entry?]

/-- An entry that is there stays, as it was or touched by the operation. -/
theorem Sound.entry?_perform (hs : s.Sound) (h : s.entry? id = some e) (now : Instant)
    (op : Operation) : ∃ e', entry? (s.perform now op).2 id = some e' ∧
      (e' = e ∨ Touch s.maxRetries now e op e') := by
  rcases hs.perform_cases now op with ⟨ht, -⟩ | ⟨a, change, ha, hc, htouch, ht, -⟩ | ⟨q, d, g, rfl⟩
  · exact ⟨e, by rw [Store.entry?_congr ht, h], .inl rfl⟩
  · rw [Store.entry?_congr ht, Store.entry?_modify s hc]
    by_cases hid : id = a.job.id
    · obtain rfl : a = e := Option.some.inj (ha.symm.trans (hid ▸ h))
      exact ⟨change a, by simp [hid, ha], .inr htouch⟩
    · exact ⟨e, by simp [hid, h], .inl rfl⟩
  · exact ⟨e, by rw [perform, entry?_enqueue, h, Option.some_or], .inl rfl⟩

theorem sound_perform (hs : s.Sound) (now : Instant) (op : Operation) :
    (s.perform now op).2.Sound := by
  rcases hs.perform_cases now op with ⟨ht, hl⟩ | ⟨a, change, ha, hc, -, ht, hl⟩ | ⟨q, d, g, rfl⟩
  · exact ⟨by rw [ids, ht]; exact hs.ordered, by rw [ids, ht, hl]; exact hs.bounded⟩
  · have hids : (s.perform now op).2.ids = s.ids := by
      rw [ids, ht]; exact ids_modify s hc a.job.id
    exact ⟨hids ▸ hs.ordered, by rw [hids, hl]; exact hs.bounded⟩
  · have hids : (s.perform now (.enqueue q d g)).2.ids = s.ids ++ [s.lastId + 1] := by
      simp [ids, perform, enqueue, Job.new]
    constructor
    · rw [hids, List.pairwise_append]
      refine ⟨hs.ordered, List.pairwise_singleton _ _, fun id hid k hk => ?_⟩
      have := hs.bounded id hid
      rw [List.mem_singleton.mp hk]
      omega
    · intro id hid
      change id ≤ s.lastId + 1
      rcases List.mem_append.mp (hids ▸ hid) with hid | hid
      · have := hs.bounded id hid
        omega
      · exact Int.le_of_eq (List.mem_singleton.mp hid)

theorem sound_performAll (hs : s.Sound) (history : List (Instant × Operation)) :
    (performAll history s).2.Sound := by
  induction history generalizing s with
  | nil => exact hs
  | cons op rest ih => exact ih (sound_perform hs op.1 op.2)

/-! ## Histories -/

theorem maxRetries_perform (s : Store) (now : Instant) (op : Operation) :
    (s.perform now op).2.maxRetries = s.maxRetries := by
  cases op with
  | dequeue request cancelled =>
    simp only [perform, dequeue]
    split
    · rfl
    · split
      · rfl
      · split <;> rfl
  | heartbeat record =>
    rcases heartbeat_cases s record now with ⟨ht, -⟩ | ⟨e, -, -, -, -, ht⟩
    · simp only [perform, ht]
      rfl
    · simp only [perform, ht]
      rfl
  | complete record force =>
    rcases complete_cases s record force now with ⟨ht, -⟩ | ⟨e, -, -, -, -, -, ht⟩
    · simp only [perform, ht]
      rfl
    · simp only [perform, ht]
      rfl
  | requestCancel k =>
    simp only [perform, requestCancel]
    split
    · split <;> rfl
    · rfl
  | age k seconds =>
    simp only [perform, age]
    cases s.entry? k with
    | none => rfl
    | some e => cases hb : e.job.beat.earlier seconds <;> simp [hb, Except.map, modify]
  | setFailing call value => cases call <;> rfl
  | _ => rfl

theorem maxRetries_performAll (history : List (Instant × Operation)) (s : Store) :
    (performAll history s).2.maxRetries = s.maxRetries := by
  induction history generalizing s with
  | nil => rfl
  | cons op rest ih => exact (ih _).trans (maxRetries_perform s op.1 op.2)

theorem maxRetries_afterHistory (maxRetries : Int) (history : List (Instant × Operation)) :
    (afterHistory maxRetries history).maxRetries = maxRetries :=
  maxRetries_performAll history (empty maxRetries)

theorem sound_afterHistory (maxRetries : Int) (history : List (Instant × Operation)) :
    (afterHistory maxRetries history).Sound :=
  sound_performAll (sound_empty maxRetries) history

/-- A history that goes on takes up where it stopped. -/
theorem afterHistory_append (maxRetries : Int) (history more : List (Instant × Operation)) :
    afterHistory maxRetries (history ++ more) =
      (performAll more (afterHistory maxRetries history)).2 := by
  simp only [afterHistory, performAll_append]

end LeasedWork.Store
