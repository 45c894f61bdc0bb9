import LeasedWork.Proofs.Store.Exclusivity

/-!
# Calls that come to nothing

The store takes note of a call before it looks at anything else, and writes to a job only after its
last check. So a call that is turned away has been counted, and that is all: the jobs are as they
were, and whatever is asked of the store later is answered as if the call had not been made.
-/
namespace LeasedWork

open Time (Instant)

namespace Operation

/-- Whether an operation, asked of a store and answered, came to nothing: there was no job to hand
out, the lease was lost, the job was over, no date could be named, or the store refused. -/
def isTurnedAway (op : Operation) (s : Store) (answer : Answer) : Bool :=
  match op, answer with
  | .dequeue _ _, .lease (.error _) | .dequeue _ _, .lease (.ok none) => true
  | .heartbeat _, .beat (.error _) => true
  | .heartbeat record, .beat (.ok abandon) => abandon && !s.isHeld record
  | .complete _ _, .settlement (.error _) => true
  | .requestCancel _, .accepted yes => !yes
  | .age _ _, .noDate => true
  | _, _ => false

def isDequeue : Operation → Bool
  | .dequeue _ _ => true
  | _ => false

/-- Whether an operation is a heartbeat for the job of a number. -/
def beatsFor (id : Int) : Operation → Bool
  | .heartbeat record => record.id = id
  | _ => false

/-- What is logged of an operation that hands over a result. -/
def completeCall? : Operation → Option CompleteCall
  | .complete record force => some ⟨record.id, record.status, record.result, force⟩
  | _ => none

end Operation

namespace Store

variable {s t : Store} {now : Instant} {op : Operation}

/-- The store that has taken note of an operation and done nothing about it. -/
def noted (s : Store) : Operation → Store
  | .dequeue _ _ => s.countDequeue
  | .heartbeat record => s.noteBeat record.id
  | .complete record force => s.noteComplete record force
  | _ => s

theorem tallied_noted (s : Store) (op : Operation) : Tallied s (s.noted op) := by
  cases op <;> exact tallied_counts s _ _ _

/-! ## What is counted -/

/-- Whether the second store has, since it was the first, counted and logged the calls of a history
and no others. -/
structure Counted (history : List (Instant × Operation)) (s t : Store) : Prop where
  dequeues : t.dequeues = s.dequeues + history.countP (·.2.isDequeue)
  beats : ∀ id, t.beatCount id = s.beatCount id + history.countP (·.2.beatsFor id)
  calls : t.completeCalls = s.completeCalls ++ history.filterMap (·.2.completeCall?)

theorem Counted.refl (s : Store) : Counted [] s s :=
  ⟨rfl, fun _ => rfl, (List.append_nil _).symm⟩

theorem Counted.trans {history more : List (Instant × Operation)} {u : Store}
    (h : Counted history s t) (h' : Counted more t u) : Counted (history ++ more) s u where
  dequeues := by rw [h'.dequeues, h.dequeues, List.countP_append, Nat.add_assoc]
  beats id := by rw [h'.beats, h.beats, List.countP_append, Nat.add_assoc]
  calls := by rw [h'.calls, h.calls, List.filterMap_append, List.append_assoc]

theorem lookup_countBeat (id k : Int) (beats : List (Int × Nat)) :
    ((countBeat id beats).lookup k).getD 0 = (beats.lookup k).getD 0 + if id = k then 1 else 0 := by
  induction beats with
  | nil =>
    by_cases h : id = k
    · simp [countBeat, h]
    · simp [countBeat, List.lookup_cons, h, Ne.symm h, beq_false_of_ne]
  | cons beat rest ih =>
    obtain ⟨key, n⟩ := beat
    by_cases hkey : key = id
    · subst hkey
      by_cases hk : key = k
      · simp [countBeat, hk]
      · simp [countBeat, List.lookup_cons, hk, beq_false_of_ne (Ne.symm hk)]
    · by_cases hk : key = k
      · subst hk
        simp [countBeat, hkey, Ne.symm hkey]
      · simp [countBeat, List.lookup_cons, hkey, beq_false_of_ne (Ne.symm hk), ih]

theorem beatCount_noteBeat (s : Store) (id k : Int) :
    (s.noteBeat id).beatCount k = s.beatCount k + if id = k then 1 else 0 :=
  lookup_countBeat id k s.beats

theorem counted_noted (s : Store) (now : Instant) (op : Operation) :
    Counted [(now, op)] s (s.noted op) := by
  cases op with
  | heartbeat record =>
    refine ⟨rfl, fun id => ?_, (List.append_nil _).symm⟩
    by_cases h : record.id = id <;> simp [noted, beatCount_noteBeat, Operation.beatsFor, h]
  | dequeue | complete => exact ⟨rfl, fun _ => rfl, by simp [noted, Operation.completeCall?]; rfl⟩
  | _ => exact ⟨rfl, fun _ => rfl, (List.append_nil _).symm⟩

/-- Two stores that count and log the same. -/
theorem Counted.congr {history : List (Instant × Operation)} {u : Store} (h : Counted history s t)
    (hdequeues : u.dequeues = t.dequeues) (hbeats : u.beats = t.beats)
    (hcalls : u.completeCalls = t.completeCalls) : Counted history s u where
  dequeues := hdequeues.trans h.dequeues
  beats id := by rw [beatCount, hbeats, ← beatCount, h.beats]
  calls := hcalls.trans h.calls

/-- A call is counted whatever comes of it. -/
theorem counted_perform (s : Store) (now : Instant) (op : Operation) :
    Counted [(now, op)] s (s.perform now op).2 := by
  have hnoted := counted_noted s now op
  cases op with
  | dequeue request cancelled =>
    simp only [perform, dequeue]
    split
    · exact hnoted
    · split
      · exact hnoted
      · split <;> exact hnoted.congr rfl rfl rfl
  | heartbeat record =>
    rcases heartbeat_cases s record now with ⟨ht, -⟩ | ⟨e, -, -, -, -, ht⟩
    · simp only [perform, ht]
      exact hnoted
    · simp only [perform, ht]
      exact hnoted.congr rfl rfl rfl
  | complete record force =>
    rcases complete_cases s record force now with ⟨ht, -⟩ | ⟨e, -, -, -, -, -, ht⟩
    · simp only [perform, ht]
      exact hnoted
    · simp only [perform, ht]
      exact hnoted.congr rfl rfl rfl
  | requestCancel id =>
    simp only [perform, requestCancel]
    split
    · split <;> exact hnoted.congr rfl rfl rfl
    · exact hnoted
  | age id seconds =>
    simp only [perform, age]
    cases s.entry? id with
    | none => exact hnoted
    | some e =>
      cases hb : e.job.beat.earlier seconds with
      | error fault =>
        simp only [hb, Except.map]
        exact hnoted
      | ok beat =>
        simp only [hb, Except.map]
        exact hnoted.congr rfl rfl rfl
  | setFailing call value => cases call <;> exact hnoted.congr rfl rfl rfl
  | _ => exact hnoted.congr rfl rfl rfl

theorem counted_performAll (history : List (Instant × Operation)) (s : Store) :
    Counted history s (performAll history s).2 := by
  induction history generalizing s with
  | nil => exact .refl s
  | cons op rest ih => exact (counted_perform s op.1 op.2).trans (ih (s.perform op.1 op.2).2)

/-! ## What is turned away -/

theorem dequeue_of_no_lease {request : LeaseRequest} {cancelled : Bool}
    (h : ∀ job, (s.dequeue request cancelled now).1 ≠ .ok (some job)) :
    (s.dequeue request cancelled now).2 = s.countDequeue := by
  unfold dequeue at h ⊢
  cases cancelled with
  | true => rfl
  | false =>
    cases hf : s.failDequeue with
    | true => simp
    | false =>
      cases hfind : s.entries.find? fun e => isEligible request now e.job with
      | none => simp
      | some e =>
        rw [hfind, hf] at h
        exact absurd rfl (h _)

/-- A lease that is in force is not lost. -/
theorem isHeld_of_entry? {record : Job} {e : Entry} (he : s.entry? record.id = some e)
    (hv : e.job.version = record.version) (hr : e.job.status = .running) :
    s.isHeld record = true := by
  simp [isHeld, he, hv, hr]

/-- An operation that is turned away is taken note of, and that is all. -/
theorem perform_of_isTurnedAway (h : op.isTurnedAway s (s.perform now op).1 = true) :
    (s.perform now op).2 = s.noted op := by
  cases op with
  | dequeue request cancelled =>
    refine dequeue_of_no_lease fun job hjob => ?_
    simp [perform, hjob, Operation.isTurnedAway] at h
  | heartbeat record =>
    rcases heartbeat_cases s record now with ⟨ht, -⟩ | ⟨e, he, hv, hr, hans, -⟩
    · exact ht
    · simp [perform, hans, Operation.isTurnedAway, isHeld_of_entry? he hv hr] at h
  | complete record force =>
    rcases complete_cases s record force now with ⟨ht, -⟩ | ⟨e, -, -, -, -, hans, -⟩
    · exact ht
    · simp [perform, hans, Operation.isTurnedAway] at h
  | requestCancel id =>
    cases he : s.entry? id with
    | none => simp [perform, requestCancel, he, noted]
    | some e =>
      cases hterm : e.job.status.isTerminal with
      | true => simp [perform, requestCancel, he, hterm, noted]
      | false => simp [perform, requestCancel, he, hterm, Operation.isTurnedAway] at h
  | age id seconds =>
    simp only [perform] at h ⊢
    split at h
    · simp [Operation.isTurnedAway] at h
    · rfl
  | _ => simp [Operation.isTurnedAway] at h

/-- Stores that differ in what they count answer every history alike, and differ in no more
afterwards. -/
theorem Tallied.performAll (h : Tallied s t) (history : List (Instant × Operation)) :
    (Store.performAll history t).1 = (Store.performAll history s).1 ∧
      Tallied (Store.performAll history s).2 (Store.performAll history t).2 := by
  induction history generalizing s t with
  | nil => exact ⟨rfl, h⟩
  | cons op rest ih =>
    obtain ⟨hanswer, hnext⟩ := h.perform op.1 op.2
    obtain ⟨hanswers, hlast⟩ := ih hnext
    refine ⟨?_, hlast⟩
    simp only [Store.performAll]
    rw [hanswer, hanswers]

/-- In every history, whatever is asked next and turned away leaves every job, every count of
retries and the numbers given out as they were. The call is counted, and nothing that is asked
later is answered, done or counted any differently because of it. -/
theorem turned_away_changes_nothing (maxRetries : Int) (history : List (Instant × Operation))
    (now : Instant) (op : Operation)
    (h : op.isTurnedAway (afterHistory maxRetries history)
      ((afterHistory maxRetries history).perform now op).1 = true) :
    let s := afterHistory maxRetries history
    let t := (s.perform now op).2
    t.entries = s.entries ∧ t.lastId = s.lastId ∧ Tallied s t ∧ Counted [(now, op)] s t ∧
      ∀ more, (performAll more t).1 = (performAll more s).1 ∧
        Tallied (performAll more s).2 (performAll more t).2 ∧
        Counted more s (performAll more s).2 ∧ Counted more t (performAll more t).2 := by
  intro s t
  have ht : t = s.noted op := perform_of_isTurnedAway h
  have htallied : Tallied s t := by
    rw [ht]
    exact tallied_noted s op
  refine ⟨htallied.entries, htallied.lastId, htallied, counted_perform s now op, fun more => ?_⟩
  obtain ⟨hanswers, hlast⟩ := htallied.performAll more
  exact ⟨hanswers, hlast, counted_performAll more s, counted_performAll more t⟩

/-- The holder of a lease that was handed on comes too late with its result, and the new holder
does not notice. -/
theorem turned_away_takeover :
    let now : Instant := ⟨1704067200, 0⟩
    let stale := { Job.new 1 .exports now with version := 1, status := .completed }
    let held := { Job.new 1 .exports now with version := 2, status := .completed }
    let s := afterHistory 3 takeover
    let t := (s.perform now (.complete stale true)).2
    (Operation.complete stale true).isTurnedAway s (s.perform now (.complete stale true)).1 = true ∧
      t.entries = s.entries ∧ t.completeCalls.length = s.completeCalls.length + 1 ∧
      ((performAll [(now, .complete held true)] t).2.job? 1).map (·.status) = some .completed := by
  intro now stale held s t
  have hturned : (Operation.complete stale true).isTurnedAway s
      (s.perform now (.complete stale true)).1 = true := by decide
  obtain ⟨hentries, -, -, hcounted, -⟩ :=
    turned_away_changes_nothing 3 takeover now (.complete stale true) hturned
  refine ⟨hturned, hentries, ?_, by decide⟩
  rw [hcounted.calls, List.length_append]
  rfl

end Store

end LeasedWork
