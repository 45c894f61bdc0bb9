import LeasedWork.Proofs.Store.RetryBudget

/-!
# The record of a job and its history

What is stored of a job can be told from the history of the store: when and as what it was queued,
how often and when it was handed out, how often it was put back, and which result of it was taken
last. The clauses hang together, as each operation relies on what earlier ones have written, so they
are one statement, kept by every operation.
-/
namespace LeasedWork

open Time (Instant)

/-- Whether an answer gives a number to a new job. -/
def Answer.gives (answer : Answer) (id : Int) : Bool :=
  match answer with
  | .number given => given = id
  | _ => false

/-- Whether an answer hands out the job of a number. -/
def Answer.handsOut (answer : Answer) (id : Int) : Bool :=
  answer.grant?.any fun lease => lease.1 = id

/-- The result that an operation was answered by taking for the job of a number. -/
def Operation.result? (op : Operation) (answer : Answer) (id : Int) : Option (Option String) :=
  match op, answer with
  | .complete record _, .settlement (.ok _) => if record.id = id then some record.result else none
  | _, _ => none

/-! ## What a history tells of a job -/

section

variable (past : List ((Instant × Operation) × Answer)) (id : Int)

/-- The operations that gave the number to a new job, with their times. -/
def queuings : List (Instant × Operation) := (past.filter fun p => p.2.gives id).map (·.1)

/-- When the job was handed out, the first time first. -/
def leaseTimes : List Instant := (past.filter fun p => p.2.handsOut id).map (·.1.1)

/-- The results that were taken of the job, the last one last. -/
def results : List (Option String) := past.filterMap fun p => p.1.2.result? p.2 id

end

variable {past : List ((Instant × Operation) × Answer)} {id : Int} {now : Instant} {op : Operation}
  {answer : Answer} {e e' : Entry} {maxRetries : Int}

section

variable {p : (Instant × Operation) × Answer}

theorem queuings_concat (h : p.2.gives id = false) :
    queuings (past ++ [p]) id = queuings past id := by
  simp [queuings, h]

theorem leaseTimes_concat (h : p.2.handsOut id = false) :
    leaseTimes (past ++ [p]) id = leaseTimes past id := by
  simp [leaseTimes, h]

theorem leaseTimes_concat_of_handsOut (h : p.2.handsOut id = true) :
    leaseTimes (past ++ [p]) id = leaseTimes past id ++ [p.1.1] := by
  simp [leaseTimes, h]

theorem results_concat (h : p.1.2.result? p.2 id = none) :
    results (past ++ [p]) id = results past id := by
  simp [results, h]

theorem results_concat_of_result {result : Option String} (h : p.1.2.result? p.2 id = some result) :
    results (past ++ [p]) id = results past id ++ [result] := by
  simp [results, h]

end

theorem exists_of_mem_queuings {queuing : Instant × Operation} (h : queuing ∈ queuings past id) :
    ∃ p ∈ past, p.1 = queuing := by
  obtain ⟨p, hp, rfl⟩ := List.mem_map.mp h
  exact ⟨p, (List.mem_filter.mp hp).1, rfl⟩

theorem exists_of_mem_leaseTimes {t : Instant} (h : t ∈ leaseTimes past id) :
    ∃ p ∈ past, p.1.1 = t := by
  obtain ⟨p, hp, rfl⟩ := List.mem_map.mp h
  exact ⟨p, (List.mem_filter.mp hp).1, rfl⟩

theorem Operation.Spares.handsOut (h : op.Spares answer id) : answer.handsOut id = false := by
  unfold Answer.handsOut
  cases hgrant : answer.grant? with
  | none => rfl
  | some lease =>
    have hne : lease.1 ≠ id := by
      rintro rfl
      exact (h lease.2).1 hgrant
    simp [hne]

theorem Operation.Spares.result? (h : op.Spares answer id) : op.result? answer id = none := by
  unfold Operation.result?
  split
  · rename_i record force settlement
    have hne : record.id ≠ id := by
      rintro rfl
      exact (h record.version).2 rfl
    rw [if_neg hne]
  · rfl

/-! ## What an operation writes -/

/-- What an operation at a time, with its answer, may write to the entry of a number. -/
inductive Writes (now : Instant) (id : Int) : Operation → Answer → Entry → Entry → Prop
  /-- Nothing but a sign of life and a request for cancellation. -/
  | marks {op : Operation} {answer : Answer} {e : Entry} (spared : op.Spares answer id)
      (beat : Instant) (cancelRequested : Bool) :
    Writes now id op answer e
      { e with job := { e.job with beat := beat, cancelRequested := cancelRequested } }
  | leases {request : LeaseRequest} {e : Entry} (number : e.job.id = id)
      (before : e.job.status.isTerminal = false) :
    Writes now id (.dequeue request false)
      (.lease (.ok (some (Store.leasedEntry request now e).job))) e
      (Store.leasedEntry request now e)
  | putsBack {record : Job} {e : Entry} (number : record.id = id)
      (before : e.job.status = .running) :
    Writes now id (.complete record false) (.settlement (.ok .requeued)) e
      (Store.requeued record.result e)
  | ends {record : Job} {force : Bool} {e : Entry} (number : record.id = id)
      (before : e.job.status = .running) (terminal : record.status.isTerminal = true) :
    Writes now id (.complete record force) (.settlement (.ok .ended)) e
      (Store.settled record force now e)

namespace Store

variable {s : Store}

/-- Where an operation leaves the entry as it is, it spares the job. -/
theorem spares_of_lifecycle_self
    (h : Lifecycle maxRetries now id op answer (some e) (some e)) : op.Spares answer id := by
  cases h with
  | stays hspared => exact hspared
  | leased _ _ _ hversion => omega
  | reclaimed _ _ _ hversion => omega
  | requeued _ _ _ _ hbefore hafter =>
    rw [hbefore] at hafter
    exact absurd hafter (by decide)
  | ended _ _ hterm _ hbefore hafter =>
    rw [← hafter, hbefore] at hterm
    exact absurd hterm (by decide)

/-- A touch and the stage of life that the answer tells come down to what is written. -/
theorem Touch.writes (h : Touch maxRetries now e op e') (hid : e.job.id = id)
    (hlife : Lifecycle maxRetries now id op answer (some e) (some e')) :
    Writes now id op answer e e' := by
  cases h with
  | leased hel =>
    have hopen := not_terminal_of_isEligible hel
    cases hlife with
    | stays _ _ hversion =>
      simp only [leasedEntry, Store.leased] at hversion
      omega
    | leased => exact .leases hid hopen
    | reclaimed => exact .leases hid hopen
  | @finalized record force _ _ hr ht =>
    cases hlife with
    | stays _ hstatus =>
      exact absurd (hstatus.trans hr) (finalized_status_ne maxRetries ht force now e)
    | requeued hnumber _ hfailed hleft =>
      have hput : isRequeued maxRetries record.status false e.retries = true := by
        simp [isRequeued, hfailed, hleft]
      rw [Store.finalized, if_pos hput]
      exact .putsBack hnumber hr
    | ended hnumber _ _ hspent =>
      have hput : ¬ isRequeued maxRetries record.status force e.retries = true := by
        simp only [isRequeued, Bool.and_eq_true, decide_eq_true_eq, Bool.not_eq_true']
        rintro ⟨⟨hfailed, hforce⟩, hleft⟩
        have hspent := hspent hfailed hforce
        omega
      rw [Store.finalized, if_neg hput]
      exact .ends hnumber hr ht
  | beaten =>
    cases hlife with
    | stays hspared => exact .marks hspared now e.job.cancelRequested
  | cancelled =>
    cases hlife with
    | stays hspared => exact .marks hspared e.job.beat true
  | aged =>
    cases hlife with
    | stays hspared => exact .marks hspared _ e.job.cancelRequested

/-- An entry that is there stays, with what the operation wrote to it. -/
theorem Sound.writes_perform (hs : s.Sound) (he : s.entry? id = some e) (now : Instant)
    (op : Operation) : ∃ e', entry? (s.perform now op).2 id = some e' ∧
      Writes now id op (s.perform now op).1 e e' := by
  obtain ⟨e', he', hcase⟩ := hs.entry?_perform he now op
  have hlife := hs.lifecycle_perform now op id
  rw [he, he'] at hlife
  refine ⟨e', he', ?_⟩
  rcases hcase with rfl | htouch
  · exact .marks (spares_of_lifecycle_self hlife) e'.job.beat e'.job.cancelRequested
  · exact htouch.writes (Store.id_of_entry? he) hlife

/-- The number that is given to a new job is the next one. -/
theorem enqueue_of_gives (h : (s.perform now op).1.gives id = true) :
    (∃ queue definition group, op = .enqueue queue definition group) ∧ id = s.lastId + 1 := by
  cases op with
  | enqueue queue definition group =>
    exact ⟨⟨queue, definition, group, rfl⟩, (of_decide_eq_true h).symm⟩
  | age k seconds =>
    simp only [perform] at h
    split at h <;> exact absurd h Bool.false_ne_true
  | _ => exact absurd h Bool.false_ne_true

/-- A number that a job has is not given to another one. -/
theorem Sound.gives_perform (hs : s.Sound) (he : s.entry? id = some e) (now : Instant)
    (op : Operation) : (s.perform now op).1.gives id = false := by
  have hmem : e.job.id ∈ s.ids := List.mem_map_of_mem (List.mem_of_find?_eq_some he)
  have hle := hs.bounded _ hmem
  rw [Store.id_of_entry? he] at hle
  cases hgives : (s.perform now op).1.gives id with
  | false => rfl
  | true =>
    have hnext := (enqueue_of_gives hgives).2
    omega

/-- A number that no job has, and that is not given to any, is still free. -/
theorem absent_of_lifecycle {found : Option Entry}
    (h : Lifecycle maxRetries now id op answer none found) (hgives : answer.gives id = false) :
    op.Spares answer id ∧ found = none := by
  cases h with
  | absent hspared => exact ⟨hspared, rfl⟩
  | queued => simp [Answer.gives] at hgives

end Store

/-! ## What is stored of a job -/

/-- What is stored of the job of a number after a history with its answers. -/
structure Recorded (past : List ((Instant × Operation) × Answer)) (id : Int) (e : Entry) :
    Prop where
  number : e.job.id = id
  queued : ∃ definition, e.job.definition = some definition ∧
    queuings past id = [(e.job.created, .enqueue e.job.queue definition e.job.group)]
  priority : e.job.priority = 0
  version : e.job.version = (leaseTimes past id).length
  started : e.job.started = (leaseTimes past id).head?
  worker : e.job.worker = none ↔ e.job.status = .created
  ended : e.job.ended.isSome ↔ e.job.status.isTerminal = true
  created_le : ∀ t ∈ e.job.started, e.job.created.nanos ≤ t.nanos
  started_le : ∀ u ∈ e.job.ended, ∃ t ∈ e.job.started, t.nanos ≤ u.nanos
  result : e.job.result = (results past id).getLast?.join
  retries_le : e.retries ≤ e.job.version
  /-- The lease that a job has had last is charged for when the job is put back, not before. -/
  retries_lt : e.job.status ≠ .created → e.retries < e.job.version
  waiting : e.job.status = .created → (e.job.version = 0 ↔ e.retries = 0)

/-- What a history with its answers tells of the job of a number, if anything is stored of it. -/
def Told (past : List ((Instant × Operation) × Answer)) (id : Int) : Option Entry → Prop
  | none => queuings past id = [] ∧ leaseTimes past id = [] ∧ results past id = []
  | some e => Recorded past id e

namespace Recorded

theorem created_mem (h : Recorded past id e) : ∃ p ∈ past, p.1.1 = e.job.created := by
  obtain ⟨definition, -, hqueued⟩ := h.queued
  obtain ⟨p, hp, heq⟩ := exists_of_mem_queuings (hqueued ▸ List.mem_cons_self)
  exact ⟨p, hp, congrArg Prod.fst heq⟩

theorem started_mem (h : Recorded past id e) {t : Instant} (ht : t ∈ e.job.started) :
    ∃ p ∈ past, p.1.1 = t := by
  rw [h.started] at ht
  exact exists_of_mem_leaseTimes (List.mem_of_mem_head? ht)

/-- A job has been started just if it was handed out before. -/
theorem started_isSome_iff (h : Recorded past id e) : e.job.started.isSome ↔ 0 < e.job.version := by
  rw [h.started, h.version]
  cases leaseTimes past id with
  | nil => simp
  | cons t rest => simp

theorem marked (h : Recorded past id e) (hspared : op.Spares answer id)
    (hgives : answer.gives id = false) (beat : Instant) (cancelRequested : Bool) :
    Recorded (past ++ [((now, op), answer)]) id
      { e with job := { e.job with beat := beat, cancelRequested := cancelRequested } } :=
  { h with
    queued := by
      rw [queuings_concat hgives]
      exact h.queued
    version := by
      rw [leaseTimes_concat hspared.handsOut]
      exact h.version
    started := by
      rw [leaseTimes_concat hspared.handsOut]
      exact h.started
    result := by
      rw [results_concat hspared.result?]
      exact h.result }

/-- A job that is not over has no date of its end. -/
theorem ended_eq_none (h : Recorded past id e) (hopen : e.job.status.isTerminal = false) :
    e.job.ended = none := by
  rw [← Option.not_isSome_iff_eq_none, h.ended, hopen]
  exact Bool.false_ne_true

theorem leased (h : Recorded past id e) (hpast : ∀ p ∈ past, p.1.1.nanos ≤ now.nanos)
    (hopen : e.job.status.isTerminal = false) (request : LeaseRequest) :
    Recorded (past ++ [((now, .dequeue request false),
      .lease (.ok (some (Store.leasedEntry request now e).job)))]) id
      (Store.leasedEntry request now e) := by
  have hended : (Store.leasedEntry request now e).job.ended = none := h.ended_eq_none hopen
  have hversion : (Store.leasedEntry request now e).job.version = e.job.version + 1 := rfl
  have hretries : (Store.leasedEntry request now e).retries = e.retries := rfl
  have hstarted : (Store.leasedEntry request now e).job.started =
      some (e.job.started.getD now) := rfl
  have hstatus : (Store.leasedEntry request now e).job.status = .running := rfl
  have hle := h.retries_le
  have htimes : leaseTimes (past ++ [((now, .dequeue request false),
      .lease (.ok (some (Store.leasedEntry request now e).job)))]) id =
        leaseTimes past id ++ [now] :=
    leaseTimes_concat_of_handsOut (decide_eq_true h.number)
  constructor
  case number => exact h.number
  case queued =>
    rw [queuings_concat rfl]
    exact h.queued
  case priority => exact h.priority
  case version =>
    rw [htimes, hversion, h.version, List.length_append]
    rfl
  case started =>
    rw [htimes, hstarted, h.started]
    cases leaseTimes past id <;> rfl
  case worker => simp [Store.leasedEntry, Store.leased]
  case ended => simp [hended, hstatus, Status.isTerminal]
  case created_le =>
    intro u hu
    obtain rfl : e.job.started.getD now = u := Option.some.inj hu
    cases hfirst : e.job.started with
    | none =>
      obtain ⟨p, hp, hqueuedAt⟩ := h.created_mem
      exact hqueuedAt ▸ hpast p hp
    | some first => exact h.created_le first hfirst
  case started_le => simp [hended]
  case result =>
    rw [results_concat rfl]
    exact h.result
  case retries_le => omega
  case retries_lt => omega
  case waiting => simp [hstatus]

/-- A result that is taken is the last one, and neither queues the job nor hands it out. -/
theorem told_of_result (past : List ((Instant × Operation) × Answer)) (now : Instant)
    {record : Job} (hid : record.id = id) (force : Bool) (settlement : Settlement) :
    let past' := past ++ [((now, .complete record force), .settlement (.ok settlement))]
    queuings past' id = queuings past id ∧ leaseTimes past' id = leaseTimes past id ∧
      (results past' id).getLast?.join = record.result := by
  have hresult : (Operation.complete record force).result? (.settlement (.ok settlement)) id =
      some record.result := if_pos hid
  refine ⟨queuings_concat rfl, leaseTimes_concat rfl, ?_⟩
  rw [results_concat_of_result hresult, List.getLast?_concat, Option.join_some]

theorem returned (h : Recorded past id e) {record : Job} (hid : record.id = id)
    (hrun : e.job.status = .running) :
    Recorded (past ++ [((now, .complete record false), .settlement (.ok .requeued))]) id
      (Store.requeued record.result e) := by
  obtain ⟨hqueuings, htimes, hresult⟩ :=
    told_of_result past now hid false .requeued
  have hended : e.job.ended = none := h.ended_eq_none (by rw [hrun]; rfl)
  have hlt := h.retries_lt (by rw [hrun]; decide)
  constructor
  case number => exact h.number
  case queued =>
    rw [hqueuings]
    exact h.queued
  case priority => exact h.priority
  case version =>
    rw [htimes]
    exact h.version
  case started =>
    rw [htimes]
    exact h.started
  case worker => simp [Store.requeued]
  case ended => simp [Store.requeued, hended, Status.isTerminal]
  case created_le => exact h.created_le
  case started_le => simp [Store.requeued, hended]
  case result => exact hresult.symm
  case retries_le =>
    simp only [Store.requeued]
    omega
  case retries_lt => simp [Store.requeued]
  case waiting =>
    intro _
    simp only [Store.requeued]
    omega

theorem settled (h : Recorded past id e) (hpast : ∀ p ∈ past, p.1.1.nanos ≤ now.nanos)
    {record : Job} (hid : record.id = id) (hrun : e.job.status = .running)
    (hterm : record.status.isTerminal = true) (force : Bool) :
    Recorded (past ++ [((now, .complete record force), .settlement (.ok .ended))]) id
      (Store.settled record force now e) := by
  obtain ⟨hqueuings, htimes, hresult⟩ :=
    told_of_result past now hid force .ended
  have hstatus : (Store.settled record force now e).job.status = record.status := rfl
  have hcreated : record.status ≠ .created := by
    intro h
    rw [h] at hterm
    exact absurd hterm (by decide)
  have hworker : e.job.worker ≠ none := by
    rw [ne_eq, h.worker, hrun]
    decide
  have hlt := h.retries_lt (by rw [hrun]; decide)
  constructor
  case number => exact h.number
  case queued =>
    rw [hqueuings]
    exact h.queued
  case priority => exact h.priority
  case version =>
    rw [htimes]
    exact h.version
  case started =>
    rw [htimes]
    exact h.started
  case worker => exact iff_of_false hworker hcreated
  case ended => exact iff_of_true rfl hterm
  case created_le => exact h.created_le
  case started_le =>
    intro u hu
    obtain rfl : now = u := Option.some.inj hu
    -- a job that runs was handed out before
    have hstarted : e.job.started.isSome := h.started_isSome_iff.mpr (by omega)
    obtain ⟨t, ht⟩ := Option.isSome_iff_exists.mp hstarted
    obtain ⟨p, hp, hleased⟩ := h.started_mem ht
    exact ⟨t, ht, hleased ▸ hpast p hp⟩
  case result => exact hresult.symm
  case retries_le => exact h.retries_le
  case retries_lt => exact fun _ => hlt
  case waiting => exact fun hwaiting => absurd (hstatus.symm.trans hwaiting) hcreated

/-- What is written to an entry is what the operation adds to the history. -/
theorem writes (h : Recorded past id e) (hpast : ∀ p ∈ past, p.1.1.nanos ≤ now.nanos)
    (hgives : answer.gives id = false) (hw : Writes now id op answer e e') :
    Recorded (past ++ [((now, op), answer)]) id e' := by
  cases hw with
  | marks hspared beat cancelRequested => exact h.marked hspared hgives beat cancelRequested
  | leases _ hopen => exact h.leased hpast hopen _
  | putsBack hid hrun => exact h.returned hid hrun
  | ends hid hrun hterm => exact h.settled hpast hid hrun hterm _

end Recorded

/-- A new job is stored as it was queued. -/
theorem Told.queued (h : Told past id none) (queue : Queue) (definition : String)
    (group : Option Int) :
    Recorded (past ++ [((now, .enqueue queue definition group), .number id)]) id
      (Store.queued id queue definition group now) := by
  obtain ⟨hqueuings, htimes, hresults⟩ := h
  have hqueued : queuings (past ++ [((now, .enqueue queue definition group), .number id)]) id =
      queuings past id ++ [(now, .enqueue queue definition group)] := by
    simp [queuings, Answer.gives]
  constructor
  case queued => exact ⟨definition, rfl, by rw [hqueued, hqueuings]; rfl⟩
  case version =>
    rw [leaseTimes_concat rfl, htimes]
    rfl
  case started =>
    rw [leaseTimes_concat rfl, htimes]
    rfl
  case result =>
    rw [results_concat rfl, hresults]
    rfl
  all_goals simp [Store.queued, Job.new, Status.isTerminal]

namespace Store

variable {s : Store}

/-- Every operation, with its answer, tells what becomes of every job. -/
theorem Sound.told_perform (hs : s.Sound) (h : Told past id (s.entry? id))
    (hpast : ∀ p ∈ past, p.1.1.nanos ≤ now.nanos) (op : Operation) :
    Told (past ++ [((now, op), (s.perform now op).1)]) id <|
      entry? (s.perform now op).2 id := by
  cases he : s.entry? id with
  | some e =>
    rw [he] at h
    obtain ⟨e', he', hw⟩ := hs.writes_perform he now op
    rw [he']
    exact Recorded.writes h hpast (hs.gives_perform he now op) hw
  | none =>
    rw [he] at h
    cases hgives : (s.perform now op).1.gives id with
    | false =>
      have hlife := hs.lifecycle_perform now op id
      rw [he] at hlife
      obtain ⟨hspared, hnone⟩ := absent_of_lifecycle hlife hgives
      rw [hnone]
      exact ⟨(queuings_concat hgives).trans h.1, (leaseTimes_concat hspared.handsOut).trans h.2.1,
        (results_concat hspared.result?).trans h.2.2⟩
    | true =>
      obtain ⟨⟨queue, definition, group, rfl⟩, rfl⟩ := enqueue_of_gives hgives
      rw [perform, entry?_enqueue, he, Option.none_or, if_pos rfl]
      exact h.queued queue definition group

theorem Sound.told_performAll (hs : s.Sound) (history : List (Instant × Operation))
    (h : Told past id (s.entry? id)) (hclock : history.Pairwise fun a b => a.1.nanos ≤ b.1.nanos)
    (hpast : ∀ p ∈ past, ∀ op ∈ history, p.1.1.nanos ≤ op.1.nanos) :
    Told (past ++ history.zip (Store.performAll history s).1) id <|
      entry? (Store.performAll history s).2 id := by
  induction history generalizing s past with
  | nil =>
    rw [List.zip_nil_left, List.append_nil]
    exact h
  | cons op rest ih =>
    obtain ⟨hnow, hrest⟩ := List.pairwise_cons.mp hclock
    have hstep := hs.told_perform h (fun p hp => hpast p hp op List.mem_cons_self) op.2
    have hlater : ∀ p ∈ past ++ [(op, (s.perform op.1 op.2).1)], ∀ next ∈ rest,
        p.1.1.nanos ≤ next.1.nanos := by
      intro p hp next hnext
      rcases List.mem_append.mp hp with hp | hp
      · exact hpast p hp next (List.mem_cons_of_mem _ hnext)
      · rw [List.mem_singleton.mp hp]
        exact hnow next hnext
    have htold := ih (sound_perform hs op.1 op.2) hstep hrest hlater
    rw [List.append_assoc, List.singleton_append] at htold
    exact htold

/-! ## The numbers of jobs -/

/-- Whether the numbers of the entries are all numbers up to the last one given out. -/
structure Numbered (s : Store) : Prop where
  nonneg : 0 ≤ s.lastId
  ids : s.ids = (List.range s.lastId.toNat).map fun n : Nat => (n + 1 : Int)

theorem Numbered.perform (h : s.Numbered) (hs : s.Sound) (now : Instant) (op : Operation) :
    (s.perform now op).2.Numbered := by
  rcases hs.perform_cases now op with ⟨ht, hl⟩ | ⟨a, change, -, hc, -, ht, hl⟩ | ⟨q, d, g, rfl⟩
  · exact ⟨hl ▸ h.nonneg, by rw [Store.ids, ht, hl, ← Store.ids, h.ids]⟩
  · have hids : (s.perform now op).2.ids = s.ids := by
      rw [Store.ids, ht]
      exact ids_modify s hc a.job.id
    exact ⟨hl ▸ h.nonneg, by rw [hids, hl, h.ids]⟩
  · have hids : (s.perform now (.enqueue q d g)).2.ids = s.ids ++ [s.lastId + 1] := by
      simp [Store.ids, Store.perform, enqueue, Job.new]
    have hlast : (s.perform now (.enqueue q d g)).2.lastId = s.lastId + 1 := rfl
    have hnonneg := h.nonneg
    refine ⟨by omega, ?_⟩
    rw [hids, hlast, h.ids, Int.toNat_add hnonneg (by decide), Int.toNat_one, List.range_succ,
      List.map_append, List.map_singleton, Int.toNat_of_nonneg hnonneg]

theorem Numbered.performAll (h : s.Numbered) (hs : s.Sound) (history : List (Instant × Operation)) :
    (Store.performAll history s).2.Numbered := by
  induction history generalizing s with
  | nil => exact h
  | cons op rest ih => exact ih (h.perform hs op.1 op.2) (sound_perform hs op.1 op.2)

/-- In every history whose times do not go back, the stored numbers are all from one to the last one
given out, each under its own, and what is stored of a job is what the history tells of it. -/
theorem records_tell_history (maxRetries : Int) (history : List (Instant × Operation))
    (hclock : history.Pairwise fun a b => a.1.nanos ≤ b.1.nanos) :
    let answers := (performAll history (empty maxRetries)).1
    let s := afterHistory maxRetries history
    s.ids = ((List.range s.lastId.toNat).map fun n : Nat => (n + 1 : Int)) ∧ 0 ≤ s.lastId ∧
    (∀ e ∈ s.entries, s.entry? e.job.id = some e) ∧
    ∀ id e, s.entry? id = some e →
      Recorded (history.zip answers) id e ∧ (e.job.started.isSome ↔ 0 < e.job.version) ∧
      e.retries = requeues history answers id ∧ (e.retries : Int) ≤ max 0 maxRetries := by
  intro answers s
  have hs := sound_empty maxRetries
  have hnumbered : s.Numbered := Numbered.performAll ⟨Int.le_refl 0, rfl⟩ hs history
  refine ⟨hnumbered.ids, hnumbered.nonneg,
    fun e he => Sound.entry?_of_mem (sound_afterHistory maxRetries history) he, fun id e he => ?_⟩
  have hnone : Told [] id (Store.entry? (empty maxRetries) id) := ⟨rfl, rfl, rfl⟩
  have htold := hs.told_performAll history hnone hclock (by simp)
  have hcharged := charged_afterHistory maxRetries history id
  have hrecorded : Recorded (history.zip answers) id e := by
    rw [← afterHistory, he, List.nil_append] at htold
    exact htold
  have hle := hcharged.requeued_le
  rw [he] at hcharged
  exact ⟨hrecorded, hrecorded.started_isSome_iff, hcharged.1, hcharged.1 ▸ hle⟩

/-- A job that used up its retry is handed out for the third time after its holder fell silent. -/
theorem records_tell_lastTry :
    (lastTry.Pairwise fun a b => a.1.nanos ≤ b.1.nanos) ∧
      ∃ e, Store.entry? (afterHistory 1 lastTry) 1 = some e ∧ e.job.version = 3 ∧ e.retries = 1 ∧
        e.job.started = some ⟨1704067200, 0⟩ ∧ e.job.result = none := by
  have hclock : lastTry.Pairwise fun a b => a.1.nanos ≤ b.1.nanos := by decide
  obtain ⟨-, -, -, htold⟩ := records_tell_history 1 lastTry hclock
  obtain ⟨e, he⟩ : ∃ e, Store.entry? (afterHistory 1 lastTry) 1 = some e := ⟨_, rfl⟩
  obtain ⟨hrecorded, -, hretries, -⟩ := htold 1 e he
  refine ⟨hclock, e, he, ?_, ?_, ?_, ?_⟩
  · rw [hrecorded.version]
    decide
  · rw [hretries]
    decide
  · rw [hrecorded.started]
    decide
  · rw [hrecorded.result]
    decide

end Store

end LeasedWork
