import LeasedWork.Proofs.Engine.Calls
import LeasedWork.Proofs.Store.Holding

/-!
# Handing out what there is

The jobs that a call may be given stand in a line, in the order of their numbers. The call takes the
first of them under a new lease and leaves the rest of the line as it is, and a job that was just
leased does not stand in it any more. Hence a call that is made again and again at one time gets
every job that was in the line at first, each once, and then none. Between two dates there is less
time than the longest span, so nothing is lost by cutting timeouts down to it.
-/
namespace LeasedWork

open Time (Instant)

namespace Time.Instant

variable {t u : Instant}

/-- Whether a point of time is one that a clock can show: a date names it, and it is not inside a
leap second. -/
def isShown (t : Instant) : Bool := isNameable t.second && t.nano < nanosPerSecond

theorem isShown_iff : t.isShown = true ↔
    leastSecond ≤ t.second ∧ t.second < endSecond ∧ t.nano < nanosPerSecond := by
  simp [isShown, isNameable, and_assoc]

/-- Less time lies between two dates than the longest span. -/
theorem nanos_sub_lt (ht : t.isShown = true) (hu : u.isShown = true) :
    t.nanos - u.nanos < (longestSpan * nanosPerSecond : Int) := by
  obtain ⟨-, hlast, hnano⟩ := isShown_iff.mp ht
  obtain ⟨hfirst, -, -⟩ := isShown_iff.mp hu
  have hspan : endSecond - leastSecond < longestSpan := by decide
  simp only [nanos, nanosPerSecond] at hnano ⊢
  omega

theorem isShown_earlier {seconds : Int} (ht : t.isShown = true) (h : t.earlier seconds = .ok u) :
    u.isShown = true := by
  unfold earlier at h
  split at h
  · simp at h
  split at h
  · rename_i hnameable
    obtain rfl := Except.ok.inj h
    rw [isShown, Bool.and_eq_true] at ht ⊢
    exact ⟨hnameable, ht.2⟩
  · simp at h

end Time.Instant

/-- Whether a job is what a call looks for at a time: it is of the queue, and of the group if one is
asked for, and either waits or has been silent for more than the timeout, exactly as asked. -/
def Job.Answers (request : LeaseRequest) (now : Instant) (job : Job) : Prop :=
  job.queue = request.queue ∧ (∀ group ∈ request.group, job.group = some group) ∧
    if request.expired then
      job.status = .running ∧
        (request.timeout * Time.nanosPerSecond : Int) < now.nanos - job.beat.nanos
    else job.status = .created

instance (request : LeaseRequest) (now : Instant) : DecidablePred (Job.Answers request now) :=
  fun _ => inferInstanceAs (Decidable (_ ∧ _ ∧ _))

namespace Store

variable {s t : Store} {request : LeaseRequest} {now : Instant} {e e' : Entry} {op : Operation}

/-- The entries of the jobs that a call looks for, in their order. -/
def answering (s : Store) (request : LeaseRequest) (now : Instant) : List Entry :=
  s.entries.filter fun e => e.job.Answers request now

/-- The answers to a call that is made so many times at one time, and the store afterwards. -/
def asked (s : Store) (request : LeaseRequest) (now : Instant) (n : Nat) : List Answer × Store :=
  performAll (List.replicate n (now, .dequeue request false)) s

/-! ## Dates that are stored -/

/-- Whether all last signs of life that are stored are ones that a clock can show. -/
def IsShown (s : Store) : Prop := ∀ id e, s.entry? id = some e → e.job.beat.isShown = true

theorem Touch.isShown {maxRetries : Int} (h : Touch maxRetries now e op e')
    (hnow : now.isShown = true) (hbeat : e.job.beat.isShown = true) :
    e'.job.beat.isShown = true := by
  cases h with
  | leased => exact hnow
  | beaten => exact hnow
  | @finalized record force =>
    unfold Store.finalized
    split
    · exact hbeat
    · cases force with
      | false => exact hbeat
      | true => exact hnow
  | cancelled => exact hbeat
  | aged hb => exact Instant.isShown_earlier hbeat hb

theorem IsShown.perform (h : s.IsShown) (hs : s.Sound) (hnow : now.isShown = true)
    (op : Operation) : IsShown (s.perform now op).2 := by
  intro id e' he'
  rcases hs.perform_cases now op with ⟨ht, -⟩ | ⟨a, change, ha, hc, htouch, ht, -⟩ | ⟨q, d, g, rfl⟩
  · exact h id e' (Store.entry?_congr ht id ▸ he')
  · rw [Store.entry?_congr ht, Store.entry?_modify s hc] at he'
    by_cases hid : id = a.job.id
    · rw [if_pos hid, ha, Option.map_some, Option.some.injEq] at he'
      exact he' ▸ htouch.isShown hnow (h _ a ha)
    · rw [if_neg hid] at he'
      exact h id e' he'
  · rw [Store.perform, entry?_enqueue] at he'
    rcases Option.or_eq_some_iff.mp he' with he' | ⟨-, hnew⟩
    · exact h id e' he'
    · split at hnew
      · obtain rfl := Option.some.inj hnew
        exact hnow
      · exact absurd hnew (by simp)

theorem IsShown.performAll (h : s.IsShown) (hs : s.Sound) (history : List (Instant × Operation))
    (hclock : ∀ call ∈ history, call.1.isShown = true) :
    IsShown (Store.performAll history s).2 := by
  induction history generalizing s with
  | nil => exact h
  | cons call rest ih =>
    have hnow := hclock call List.mem_cons_self
    exact ih (h.perform hs hnow call.2) (sound_perform hs call.1 call.2)
      fun later hlater => hclock later (List.mem_cons_of_mem call hlater)

/-- Between dates, the store finds what is looked for. -/
theorem isEligible_iff {job : Job} (hnow : now.isShown = true) (hbeat : job.beat.isShown = true) :
    isEligible request now job = true ↔ job.Answers request now := by
  have hspan := Instant.nanos_sub_lt hnow hbeat
  have hgroup : (request.group.isNone || job.group = request.group) = true ↔
      ∀ group ∈ request.group, job.group = some group := by
    cases request.group <;> simp
  have hsilent : (min request.timeout Instant.longestSpan * Time.nanosPerSecond : Int) <
        now.nanos - job.beat.nanos ↔
      (request.timeout * Time.nanosPerSecond : Int) < now.nanos - job.beat.nanos := by
    simp only [Time.nanosPerSecond] at hspan ⊢
    omega
  rw [isEligible, Bool.and_eq_true, Bool.and_eq_true, hgroup, decide_eq_true_eq, and_assoc,
    Job.Answers]
  refine and_congr_right fun _ => and_congr_right fun _ => ?_
  cases request.expired with
  | false => exact decide_eq_true_iff
  | true =>
    rw [if_pos rfl, if_pos rfl, Bool.and_eq_true, decide_eq_true_iff, decide_eq_true_iff, hsilent]

theorem IsShown.filter_eq (h : s.IsShown) (hs : s.Sound) (hnow : now.isShown = true) :
    (s.entries.filter fun e => isEligible request now e.job) = s.answering request now := by
  refine List.filter_congr fun e he => ?_
  have hbeat := h _ e (hs.entry?_of_mem he)
  rw [Bool.eq_iff_iff, isEligible_iff hnow hbeat, decide_eq_true_eq]

/-! ## The line -/

/-- The entries of the jobs that a call is given by the store, in their order. -/
def line (s : Store) (request : LeaseRequest) (now : Instant) : List Entry :=
  s.entries.filter fun e => isEligible request now e.job

/-- A job that was just leased is not given to anyone. -/
theorem not_isEligible_leasedEntry (request : LeaseRequest) (now : Instant) (e : Entry) :
    isEligible request now (leasedEntry request now e).job = false := by
  refine not_isEligible_of_running rfl fun _ => ?_
  have hnone : now.nanos - (leasedEntry request now e).job.beat.nanos = 0 := Int.sub_self _
  rw [hnone]
  exact Int.mul_nonneg (by omega) (Int.natCast_nonneg _)

theorem modifyFirst_append {p : Entry → Bool} {change : Entry → Entry} {before : List Entry}
    (hbefore : ∀ a ∈ before, p a = false) (he : p e = true) (after : List Entry) :
    modifyFirst p change (before ++ e :: after) = before ++ change e :: after := by
  induction before with
  | nil => simp [modifyFirst, he]
  | cons a rest ih =>
    have ha : p a = false := hbefore a List.mem_cons_self
    simp [modifyFirst, ha, ih fun b hb => hbefore b (List.mem_cons_of_mem a hb)]

/-- What stands before an entry has other numbers. -/
theorem Sound.id_ne_of_before (hs : s.Sound) {before after : List Entry}
    (hsplit : s.entries = before ++ e :: after) {a : Entry} (ha : a ∈ before) :
    a.job.id ≠ e.job.id := by
  have ho := hs.ordered
  rw [ids, hsplit, List.map_append, List.pairwise_append] at ho
  exact Int.ne_of_lt (ho.2.2 _ (List.mem_map_of_mem ha) _ List.mem_cons_self)

/-- A lease takes the first of the line out of it. -/
theorem Sound.line_modify (hs : s.Sound) {rest : List Entry}
    (hline : s.line request now = e :: rest) :
    line (s.modify e.job.id (leasedEntry request now)) request now = rest := by
  have hfind : s.entries.find? (fun e => isEligible request now e.job) = some e := by
    rw [← List.head?_filter, ← line, hline, List.head?_cons]
  obtain ⟨hel, before, after, hsplit, hbefore⟩ := List.find?_eq_some_iff_append.mp hfind
  have hleased : (s.modify e.job.id (leasedEntry request now)).entries =
      before ++ leasedEntry request now e :: after := by
    rw [modify, hsplit]
    exact modifyFirst_append (fun a ha => by simp [hs.id_ne_of_before hsplit ha]) (by simp) after
  have hnone : before.filter (fun e => isEligible request now e.job) = [] :=
    List.filter_eq_nil_iff.mpr fun a ha => by simpa using hbefore a ha
  have hpassed := not_isEligible_leasedEntry request now e
  simp only [line, hsplit, List.filter_append, hnone, List.nil_append, List.filter_cons, hel, if_true,
    List.cons.injEq, true_and] at hline
  simp only [line, hleased, List.filter_append, hnone, List.nil_append, List.filter_cons, hpassed,
    Bool.false_eq_true, if_false, hline]

/-- Whether the second store differs from the first in a lease of one job and a count only: the job
runs, at the next version, for the worker, since now if it never ran, and was heard of now. -/
structure LeasesOnly (request : LeaseRequest) (now : Instant) (e : Entry) (job : Job)
    (s t : Store) : Prop where
  job_eq : job =
    { e.job with
      status := .running
      version := e.job.version + 1
      worker := some request.worker
      started := some (e.job.started.getD now)
      beat := now }
  before : s.entry? e.job.id = some e
  after : t.entry? e.job.id = some { e with job := job }
  others : ∀ id, id ≠ e.job.id → t.entry? id = s.entry? id
  rest : t = { s with entries := t.entries, dequeues := s.dequeues + 1 }

/-- A call takes the first of the line and leaves the rest of it. -/
theorem Sound.dequeue_of_line (hs : s.Sound) (hf : s.failDequeue = false) {rest : List Entry}
    (hline : s.line request now = e :: rest) :
    (s.dequeue request false now).1 = .ok (some (leased request.worker now e.job)) ∧
      LeasesOnly request now e (leased request.worker now e.job) s
        (s.dequeue request false now).2 ∧
      line (s.dequeue request false now).2 request now = rest := by
  have hfind : s.entries.find? (fun e => isEligible request now e.job) = some e := by
    rw [← List.head?_filter, ← line, hline, List.head?_cons]
  have hentry : s.entry? e.job.id = some e := hs.entry?_of_mem (List.mem_of_find?_eq_some hfind)
  have hcounted : s.countDequeue.entry? e.job.id = some e := hentry
  have hcall : s.dequeue request false now = (.ok (some (leased request.worker now e.job)),
      s.countDequeue.modify e.job.id (leasedEntry request now)) := by
    rw [← modify_congr hcounted (f := fun a => { a with job := leased request.worker now e.job }) rfl]
    simp only [dequeue, Bool.false_eq_true, if_false, hf, hfind]
    rfl
  have hkeeps := keepsNumber_leasedEntry request now
  rw [hcall]
  refine ⟨rfl, ⟨rfl, hentry, entry?_modify_self hkeeps hcounted, fun id hid => ?_, rfl⟩,
    hs.line_modify hline⟩
  rw [Store.entry?_modify _ hkeeps, if_neg hid]
  rfl

/-- A call that finds nobody in the line is counted, and that is all. -/
theorem dequeue_of_no_line (hf : s.failDequeue = false) (hline : s.line request now = []) :
    s.dequeue request false now = (.ok none, s.countDequeue) := by
  have hfind : s.entries.find? (fun e => isEligible request now e.job) = none := by
    rw [← List.head?_filter, ← line, hline, List.head?_nil]
  simp [dequeue, hf, hfind]

/-! ## Calls one after another -/

theorem asked_succ (s : Store) (request : LeaseRequest) (now : Instant) (n : Nat) :
    s.asked request now (n + 1) =
      (.lease (s.dequeue request false now).1 ::
          (asked (s.dequeue request false now).2 request now n).1,
        (asked (s.dequeue request false now).2 request now n).2) := rfl

theorem store_asked_succ (s : Store) (request : LeaseRequest) (now : Instant) (n : Nat) :
    (s.asked request now (n + 1)).2 =
      ((s.asked request now n).2.dequeue request false now).2 := by
  rw [asked, List.replicate_succ', performAll_append]
  rfl

theorem failDequeue_dequeue (s : Store) (request : LeaseRequest) (cancelled : Bool) (now : Instant) :
    (s.dequeue request cancelled now).2.failDequeue = s.failDequeue := by
  unfold dequeue
  split
  · rfl
  split
  · rfl
  split <;> rfl

theorem failDequeue_asked (s : Store) (request : LeaseRequest) (now : Instant) (n : Nat) :
    (s.asked request now n).2.failDequeue = s.failDequeue := by
  induction n with
  | zero => rfl
  | succ n ih => rw [store_asked_succ, failDequeue_dequeue, ih]

/-- So many calls take so many jobs out of the line. -/
theorem Sound.line_asked (hs : s.Sound) (hf : s.failDequeue = false) (n : Nat) :
    line (s.asked request now n).2 request now = (s.line request now).drop n := by
  induction n with
  | zero => rfl
  | succ n ih =>
    have hsn : (s.asked request now n).2.Sound := sound_performAll hs _
    have hfn : (s.asked request now n).2.failDequeue = false :=
      (s.failDequeue_asked request now n).trans hf
    rw [store_asked_succ, ← List.tail_drop, ← ih]
    cases hline : line (s.asked request now n).2 request now with
    | nil =>
      rw [dequeue_of_no_line hfn hline]
      exact hline
    | cons e rest => exact (hsn.dequeue_of_line hfn hline).2.2

/-- So many calls are answered with the jobs of the line, and then with none. -/
theorem Sound.answers_asked (hs : s.Sound) (hf : s.failDequeue = false) (n : Nat) :
    (s.asked request now n).1 =
      ((s.line request now).take n).map
          (fun e => .lease (.ok (some (leased request.worker now e.job)))) ++
        List.replicate (n - (s.line request now).length) (.lease (.ok none)) := by
  induction n generalizing s with
  | zero => simp [asked, performAll]
  | succ n ih =>
    have hs' : (s.dequeue request false now).2.Sound := sound_perform hs now (.dequeue request false)
    have hf' := (s.failDequeue_dequeue request false now).trans hf
    rw [asked_succ, ih hs' hf']
    cases hline : s.line request now with
    | nil =>
      have hnext : s.countDequeue.line request now = [] := hline
      rw [dequeue_of_no_line hf hline, hnext]
      simp [List.replicate_succ]
    | cons e rest =>
      obtain ⟨hanswer, -, hnext⟩ := hs.dequeue_of_line hf hline
      rw [hanswer, hnext]
      simp

/-- What comes of making a call again and again at one time: it is answered with the jobs it looks
for, in the order of their numbers, and then with none; it leases what it is answered with and
changes nothing else; and it does not break down wherever it is made. -/
structure HandsOut (s : Store) (request : LeaseRequest) (now : Instant) : Prop where
  ordered : ((s.answering request now).map (·.job.id)).Pairwise (· < ·)
  answers : ∀ n, (s.asked request now n).1 =
    ((s.answering request now).take n).map
        (fun e => .lease (.ok (some (leased request.worker now e.job)))) ++
      List.replicate (n - (s.answering request now).length) (.lease (.ok none))
  leases : ∀ n e, (s.answering request now)[n]? = some e →
    LeasesOnly request now e (leased request.worker now e.job)
      (s.asked request now n).2 (s.asked request now (n + 1)).2
  rests : ∀ n, (s.answering request now).length ≤ n →
    (s.asked request now (n + 1)).2 = (s.asked request now n).2.countDequeue
  unbroken : ∀ n (site : Engine.Site), site.store = (s.asked request now n).2 → site.now = now →
    (site.askDequeue request false).1 =
      some ((s.asked request now n).2.dequeue request false now).1

/-- In every store that a history leads to under a clock that shows dates, a call that is not
cancelled and not made to fail hands out what there is: whatever queue, group and worker it names,
waiting jobs or expired leases, and whatever the timeout. -/
theorem dequeue_hands_out (maxRetries : Int) (history : List (Instant × Operation))
    (request : LeaseRequest) (now : Instant) (hclock : ∀ call ∈ history, call.1.isShown = true)
    (hnow : now.isShown = true) (hf : (afterHistory maxRetries history).failDequeue = false) :
    (afterHistory maxRetries history).HandsOut request now := by
  have hempty := sound_empty maxRetries
  have hs := sound_afterHistory maxRetries history
  have hshown : (afterHistory maxRetries history).IsShown :=
    IsShown.performAll (fun id e he => by simp [Store.entry?, empty] at he) hempty history hclock
  generalize afterHistory maxRetries history = s at hs hshown hf
  have hline : s.line request now = s.answering request now := hshown.filter_eq hs hnow
  have hsn : ∀ n, (s.asked request now n).2.Sound := fun n => sound_performAll hs _
  have hfn : ∀ n, (s.asked request now n).2.failDequeue = false :=
    fun n => (s.failDequeue_asked request now n).trans hf
  have hrest : ∀ n, line (s.asked request now n).2 request now =
      (s.answering request now).drop n := fun n => hline ▸ hs.line_asked hf n
  constructor
  case ordered => exact hs.ordered.sublist (List.filter_sublist.map _)
  case answers => exact fun n => hline ▸ hs.answers_asked hf n
  case leases =>
    intro n e he
    obtain ⟨hn, rfl⟩ := List.getElem?_eq_some_iff.mp he
    have hnext := (hrest n).trans (List.drop_eq_getElem_cons hn)
    rw [store_asked_succ]
    exact ((hsn n).dequeue_of_line (hfn n) hnext).2.1
  case rests =>
    intro n hn
    have hnone := (hrest n).trans (List.drop_eq_nil_of_le hn)
    rw [store_asked_succ, dequeue_of_no_line (hfn n) hnone]
  case unbroken =>
    intro n site hstore hsite
    rcases site.askDequeue_cases request false with ⟨hundated, -⟩ | ⟨hanswer, -⟩
    · rw [Instant.isShown, Bool.and_eq_true] at hnow
      rw [Engine.Site.isDated, hsite, hnow.1] at hundated
      exact absurd hundated (by simp)
    · rw [hanswer, hstore, hsite]

/-- Six leases and a job that waits: one lease is silent for a second more than ten minutes, one for
ten minutes exactly, one was heard of in an hour from now, one is of another group, one of another
queue, and one was heard of at the first date there is. -/
def silences : List (Instant × Operation) :=
  [.enqueue .exports "a" (some 7), .enqueue .exports "b" (some 7), .enqueue .exports "c" (some 7),
    .enqueue .exports "d" (some 8), .enqueue .imports "e" (some 7), .enqueue .exports "f" (some 7),
    .dequeue ⟨.exports, "early", 600, none, false⟩ false,
    .dequeue ⟨.exports, "early", 600, none, false⟩ false,
    .dequeue ⟨.exports, "early", 600, none, false⟩ false,
    .dequeue ⟨.exports, "early", 600, none, false⟩ false,
    .dequeue ⟨.exports, "early", 600, none, false⟩ false,
    .dequeue ⟨.imports, "early", 600, none, false⟩ false,
    .enqueue .exports "g" (some 7), .age 1 601, .age 2 600, .age 3 (-3600), .age 4 601, .age 5 601,
    .age 6 8336305296000].map fun op => (⟨1704067200, 0⟩, op)

theorem dequeue_hands_out_silences :
    let now : Instant := ⟨1704067200, 0⟩
    let s := afterHistory 3 silences
    let request : LeaseRequest := ⟨.exports, "late", 600, some 7, true⟩
    (∀ call ∈ silences, call.1.isShown = true) ∧ now.isShown = true ∧ s.failDequeue = false ∧
      (s.answering request now).map (·.job.id) = [1, 6] ∧ s.HandsOut request now ∧
      s.HandsOut { request with timeout := 18446744073709551615 } now ∧
      ∀ n, grants (s.asked request now (n + 2)).1 = [(1, 2), (6, 2)] := by
  intro now s request
  have hclock : ∀ call ∈ silences, call.1.isShown = true := by decide
  have hnow : now.isShown = true := by decide
  have hf : s.failDequeue = false := by decide
  have hids : (s.answering request now).map (·.job.id) = [1, 6] := by decide +kernel
  have hhands := dequeue_hands_out 3 silences request now hclock hnow hf
  refine ⟨hclock, hnow, hf, hids, hhands,
    dequeue_hands_out 3 silences { request with timeout := 18446744073709551615 } now hclock hnow hf,
    fun n => ?_⟩
  have hlength : (s.answering request now).length ≤ n + 2 :=
    Nat.le_add_left_of_le (by decide +kernel)
  have hleases : (s.answering request now).map (fun e => (e.job.id, e.job.version + 1)) =
      [(1, 2), (6, 2)] := by decide +kernel
  have hgranted : ∀ e : Entry, Answer.grant? (.lease (.ok (some (leased request.worker now e.job)))) =
      some (e.job.id, e.job.version + 1) := fun _ => rfl
  rw [hhands.answers, List.take_of_length_le hlength, grants, List.filterMap_append,
    List.filterMap_replicate_of_none rfl, List.append_nil, List.filterMap_map, ← hleases,
    ← List.filterMap_eq_map]
  exact congrArg (List.filterMap · _) (funext hgranted)

end Store

end LeasedWork
