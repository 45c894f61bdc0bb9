import LeasedWork.Proofs.Host.Punctuality

/-!
# Heartbeats are confined to an execution

The token of a handler tells its heartbeats from all others. It is made in the move that starts the
handler, so there was no call under it before; and a heartbeat task that calls is one that was not
told to stop, so the handler that it guards is still running. As long as that is so the calls go on,
and if no time is lost while a task may move, each one begins in the first whole millisecond from
its deadline.
-/
namespace LeasedWork

/-- Whether a record names the lease of a job, and tells of it only that it is running. -/
structure Job.SignsFor (record job : Job) : Prop where
  id : record.id = job.id
  queue : record.queue = job.queue
  group : record.group = job.group
  version : record.version = job.version
  status : record.status = .running
  definition : record.definition = none
  result : record.result = none
  worker : record.worker = none
  cancelRequested : record.cancelRequested = false

theorem Job.signsFor_snapshot (job : Job) : job.snapshot.SignsFor job :=
  ⟨rfl, rfl, rfl, rfl, rfl, rfl, rfl, rfl, rfl⟩

namespace Host

open Engine
open Time (Duration)
open Ensemble (wholeMillis wholeMillis_le_wholeMillis le_wholeMillis)

variable {lapse : Ensemble → Nat → Prop} {start sys next : Ensemble} {history before after : List Move}
  {a b c : Activity} {x x' y : Execution} {k : Token} {n : TaskId} {m r : Move}

/-- The move in which a heartbeat task calls the store with a record, guarding the execution under
a token: it begins the call, or has it answered. -/
def Move.CallsFor (m : Move) (k : Token) (record : Job) : Prop :=
  ∃ h deadline stage, m.mover.task = .heartbeat h ∧ h.phase = .calling deadline stage ∧
    h.record = record ∧ h.execution = k

/-- The moves with which the handler under a token is over: it returns, its result is being handed
over, or its execution is not there any more, having ended or having been dropped. -/
inductive Move.Leaves (m : Move) (k : Token) : Prop
  | returns {x : Execution} {o : Outcome} (h : m.Returns x k o)
  | completes {x : Execution} {d : Disposition} {o : Outcome} {record : Job} {stage : CallStage}
      (hx : m.mover.task.acting? m.site = some x)
      (hphase : x.phase = .finalizing k d o record stage)
  | gone (h : ∀ b ∈ m.after.activities, ∀ x, b.task.execution? = some x → x.token? ≠ some k)

/-! ## One execution under one token -/

/-- Whether all there is under a token is the execution of one job by one task, with heartbeats of
one number. -/
structure Ensemble.Sole (sys : Ensemble) (id : TaskId) (job : Job) (k : Token) (n : TaskId) :
    Prop where
  made : sys.site.tokens.Made k
  execution : ∀ b ∈ sys.activities, ∀ x, b.task.execution? = some x → x.token? = some k →
    b.id = id ∧ x.job = job ∧ ∀ l t, x.running? = some (l, t) → t = n

theorem Execution.token?_of_running? (h : x.running? = some (k, n)) : x.token? = some k := by
  obtain ⟨i, hphase⟩ := Execution.running?_eq_some.mp h
  simp only [Execution.token?, hphase]

theorem Execution.token?_of_fresh (h : x.phase = .fresh) : x.token? = none := by
  simp only [Execution.token?, h]

namespace Ensemble.Sole

variable {id : TaskId} {job : Job}

theorem of_handles (h : sys.Sole id job k n) (hb : b ∈ sys.activities) {t : TaskId}
    (hx : b.Handles x k t) : b.id = id ∧ x.job = job ∧ t = n := by
  obtain ⟨hid, hjob, hnumber⟩ :=
    h.execution b hb x hx.execution (Execution.token?_of_running? hx.running)
  exact ⟨hid, hjob, hnumber k t hx.running⟩

/-- What an execution that goes on under the token makes of it stays the only one. -/
theorem execution_goes (h : sys.Sole id job k n) (ha : a ∈ sys.activities)
    (hx : a.task.acting? sys.site = some x) (hgo : x.Goes sys.site x')
    (hk : x'.token? = some k) :
    a.id = id ∧ x'.job = job ∧ ∀ l t, x'.running? = some (l, t) → t = n := by
  rcases hgo.token?_eq with ⟨hphase, hh, hnew⟩ | hsame
  · obtain rfl := Option.some.inj (hnew.symm.trans hk)
    exact absurd h.made (made_of_begun hx hphase hh).1
  · obtain ⟨hid, hjob, hnumber⟩ := h.execution a ha x (Task.execution?_of_acting? hx) (hsame ▸ hk)
    refine ⟨hid, hgo.job_eq.1.trans hjob, fun l t hrunning => ?_⟩
    rcases hgo.running_cases hrunning with ⟨hold, -⟩ | ⟨hphase, -⟩
    · exact hnumber l t hold
    · rw [hsame, Execution.token?_of_fresh hphase] at hk
      exact absurd hk (by simp)

theorem move (h : sys.Sole id job k n) (hs : sys.Sound) (ha : a ∈ sys.activities) :
    (sys.move a).Sole id job k n := by
  refine ⟨Issued.made_after ⟨sys, a⟩ h.made, fun b hb x' hx' hk => ?_⟩
  rcases hs.execution_move hb hx' with
    ⟨c, hc, hid, -, hx⟩ | ⟨hid, ⟨x, hx, hgo⟩ | ⟨hx, -⟩ | ⟨job', t, rfl, -⟩⟩
  · exact hid ▸ h.execution c hc x' hx hk
  · exact hid ▸ h.execution_goes ha hx hgo hk
  · exact hid ▸ h.execution a ha x' hx hk
  · exact absurd hk (by simp [Execution.fresh, Execution.token?])

theorem pause (h : sys.Sole id job k n) (hp : Pause lapse sys next) : next.Sole id job k n := by
  obtain ⟨clock, -, hsite⟩ := hp.site_eq
  refine ⟨hsite ▸ h.made, fun b hb x hx hk => ?_⟩
  obtain ⟨c, hc, hid, htask⟩ := hp.exists_task hb
  exact hid ▸ h.execution c hc x (htask ▸ hx) hk

end Ensemble.Sole

theorem Interleaving.sole {id : TaskId} {job : Job} (h : Interleaving lapse start history sys)
    (hs : start.Sound) (hsole : start.Sole id job k n) : sys.Sole id job k n := by
  induction h with
  | nil => exact hsole
  | move h ha _ ih => exact ih.move (h.sound hs) ha
  | pause _ hp ih => exact ih.pause hp

/-- Under the token of a handler that is started there is nothing else. -/
theorem Move.Begins.sole (h : r.Begins x k) (hs : r.sys.Sound) (hi : Issued start history r.sys) :
    r.after.Sole r.mover.id x.job k r.site.nextTask := by
  obtain ⟨hunmade, hmade⟩ := h.not_made
  have hold : ∀ b ∈ r.sys.activities, ∀ y, b.task.execution? = some y → y.token? ≠ some k :=
    fun b hb y hy hk => hunmade (hi.executions b hb y hy k hk).1
  refine ⟨hmade, fun b hb x' hx' hk => ?_⟩
  rcases hs.execution_move hb hx' with
    ⟨c, hc, -, -, hx⟩ | ⟨hid, ⟨y, hy, hgo⟩ | ⟨-, hnone⟩ | ⟨job', t, rfl, -⟩⟩
  · exact absurd hk (hold c hc x' hx)
  · obtain rfl : x = y := Option.some.inj (h.acts.symm.trans hy)
    refine ⟨hid, hgo.job_eq.1, fun l t hrunning => ?_⟩
    rcases hgo.running_cases hrunning with ⟨hrunning, -⟩ | ⟨-, -, -, hnumber⟩
    · have htoken := Execution.token?_of_running? hrunning
      rw [Execution.token?_of_fresh h.fresh] at htoken
      exact absurd htoken (by simp)
    · exact hnumber
  · have hdeeds := h.deeds_eq
    rw [Execution.deeds_of_begun _ h.fresh h.handled] at hdeeds
    have hnil : r.deeds = [] := hnone
    rw [hnil] at hdeeds
    exact absurd hdeeds (by simp)
  · exact absurd hk (by simp [Execution.fresh, Execution.token?])

/-! ## Calls before and after -/

/-- Whether no handler is running under a token any more. -/
def Ensemble.Over (sys : Ensemble) (k : Token) : Prop :=
  sys.site.tokens.Made k ∧ ∀ b ∈ sys.activities, ∀ x n, ¬ b.Handles x k n

theorem Ensemble.Over.move (h : sys.Over k) (hs : sys.Sound) (ha : a ∈ sys.activities) :
    (sys.move a).Over k := by
  refine ⟨Issued.made_after ⟨sys, a⟩ h.1, fun b hb x' n hx' => ?_⟩
  rcases hs.handles_move ha hb hx' with ⟨c, hc, -, -, x, hx, -⟩ | ⟨-, -, x, hbegins, -⟩
  · exact h.2 c hc x n hx
  · exact hbegins.not_made.1 h.1

theorem Interleaving.over (h : Interleaving lapse start history sys) (hs : start.Sound)
    (hover : start.Over k) : sys.Over k := by
  induction h with
  | nil => exact hover
  | move h ha _ ih => exact ih.move (h.sound hs) ha
  | pause _ hp ih =>
    obtain ⟨clock, -, hsite⟩ := hp.site_eq
    refine ⟨hsite ▸ ih.1, fun b hb x n hx => ?_⟩
    obtain ⟨c, hc, -, hx⟩ := hp.exists_handles hb hx
    exact ih.2 c hc x n hx

/-- A call is made for a handler that is running, with the record of its job. -/
theorem Guarding.of_callsFor {record : Job} (hg : Guarding start m.sys)
    (hm : m.mover ∈ m.sys.activities) (hnew : ¬ start.site.tokens.Made k)
    (h : m.CallsFor k record) :
    ∃ b ∈ m.sys.activities, ∃ x, b.Handles x k m.mover.id ∧ record = x.job.snapshot := by
  obtain ⟨g, deadline, stage, ht, hphase, rfl, rfl⟩ := h
  exact hg.guarding m.mover hm g ht (by simp [hphase]) hnew

/-- Who calls for a handler is not the one who executes it. -/
theorem Move.CallsFor.execution? {record : Job} (h : m.CallsFor k record) :
    m.mover.task.execution? = none := by
  obtain ⟨g, deadline, stage, ht, -⟩ := h
  rw [ht]
  rfl

/-- With a move that leaves it, a handler is over. -/
theorem Move.Leaves.over_after {id : TaskId} {job : Job} (h : m.Leaves k) (hs : m.sys.Sound)
    (hm : m.mover ∈ m.sys.activities) (hsole : m.sys.Sole id job k n) : m.after.Over k := by
  refine ⟨Issued.made_after m hsole.made, fun b hb x' t hx' => ?_⟩
  cases h with
  | gone hnone =>
    exact hnone b hb x' hx'.execution (Execution.token?_of_running? hx'.running)
  | @returns x o hreturns =>
    obtain ⟨i, beats, hphase, hdone⟩ := hreturns.ends
    have hmover : m.mover.Handles x k beats :=
      ⟨Task.execution?_of_acting? hreturns.acts, Execution.running?_eq_some.mpr ⟨i, hphase⟩⟩
    rcases hs.handles_move hm hb hx' with ⟨c, hc, -, hstay, y, hy, -⟩ | ⟨-, -, y, hbegins, -⟩
    · obtain ⟨hcid, -, rfl⟩ := hsole.of_handles hc hy
      obtain ⟨hmid, -, rfl⟩ := hsole.of_handles hm hmover
      refine hstay (Ensemble.eq_of_id_eq hs.nodup hc hm (hcid.trans hmid.symm)) ?_
      rw [Task.deeds_of_acting? (s := m.sys.site) hreturns.acts]
      have hdone' : (i.step (x.inSpan m.sys.site)).1 = .done o := hdone
      simp [Execution.deeds, hphase, hdone']
    · exact hbegins.not_made.1 hsole.made
  | @completes x d o record stage hacting hphase =>
    have hexecution := Task.execution?_of_acting? hacting
    have hmid := hsole.execution m.mover hm x hexecution (by simp only [Execution.token?, hphase])
    rcases hs.handles_move hm hb hx' with ⟨c, hc, -, -, y, hy, -⟩ | ⟨-, -, y, hbegins, -⟩
    · have hcid := hsole.of_handles hc hy
      obtain rfl := Ensemble.eq_of_id_eq hs.nodup hc hm (hcid.1.trans hmid.1.symm)
      obtain rfl := Option.some.inj (hy.execution.symm.trans hexecution)
      obtain ⟨i, hhandling⟩ := Execution.running?_eq_some.mp hy.running
      rw [hphase] at hhandling
      exact absurd hhandling (by simp)
    · exact hbegins.not_made.1 hsole.made

/-- The first heartbeat of a handler that is started is due after a first delay. -/
theorem Move.Begins.punctual (h : r.Begins x k) (hs : r.sys.Sound) :
    r.after.Punctual r.site.nextTask r.site.beatPeriod
      (r.site.after (r.site.jitter r.site.beatPeriod).1) := by
  refine .inr ⟨_, h.started_mem hs, rfl, _, rfl, rfl, rfl, ?_⟩
  exact congrArg (· * Time.nanosPerMilli + _) (Ensemble.clock_move r.sys r.mover)

/-! ## Confinement -/

/-- That all heartbeats of the handler which a move starts are confined to its execution. -/
structure HeartbeatsConfined (lapse : Ensemble → Nat → Prop) (before : List Move) (r : Move)
    (after : List Move) (sys : Ensemble) (x : Execution) (k : Token) : Prop where
  /-- No call is made for it before it is started. -/
  begun : ∀ m ∈ before ++ [r], ∀ record, ¬ m.CallsFor k record
  /-- Every call is made while it runs, and all of them carry one record. -/
  made : ∀ m ∈ after, ∀ record, m.CallsFor k record →
    record = x.job.snapshot ∧ record.SignsFor x.job ∧
    ∃ b ∈ m.sys.activities, b.id = r.mover.id ∧ ∃ y, b.Handles y k m.mover.id ∧ y.job = x.job
  /-- No call is made any more once it has returned, its result is being handed over, or its
  execution has ended or was dropped. -/
  silent : ∀ past e rest, after = past ++ e :: rest → e.Leaves k →
    ∀ m ∈ rest, ∀ record, ¬ m.CallsFor k record
  /-- As long as it runs, so do its heartbeats, unless a call of the store breaks down. -/
  guarded : ∀ b ∈ sys.activities, ∀ y n, b.Handles y k n → sys.Guards r.site.beatPeriod x k n
  /-- Whatever the answers, the calls go on when they are due. -/
  punctual : (∀ sys clock, lapse sys clock → whenIdle sys clock) →
    ∀ b ∈ sys.activities, ∀ y n, b.Handles y k n → sys.Punctual n r.site.beatPeriod
      (dueSince n r.site.beatPeriod (r.site.after (r.site.jitter r.site.beatPeriod).1) after)

section

variable (hstart : start.Opening) (hwatch : start.WatchesHeartbeats)
  (h : Interleaving lapse start (before ++ r :: after) sys) (hr : r.Begins x k)

include hstart h hr

theorem Interleaving.not_callsFor_before (hm : m ∈ before ++ [r]) {record : Job} :
    ¬ m.CallsFor k record := by
  intro hcall
  obtain ⟨hbefore, hmover, -, -⟩ := h.split
  rcases List.mem_append.mp hm with hm | hm
  · obtain ⟨past, rest, rfl⟩ := List.append_of_mem hm
    obtain ⟨hpast, hmover', -, hrest⟩ := hbefore.split
    obtain ⟨g, deadline, stage, ht, -, -, rfl⟩ := hcall
    have hmade := (hpast.issued hstart).beats m.mover hmover' g ht
    exact hr.not_made.1 (hrest.made (Issued.made_after m hmade))
  · obtain rfl := List.mem_singleton.mp hm
    have hnone := hcall.execution?
    rw [hr.execution] at hnone
    exact absurd hnone (by simp)

include hwatch

/-- What is known of an ensemble after the start of a handler. -/
theorem Interleaving.after_begins {mid : Ensemble} (h' : Interleaving lapse r.after history mid) :
    mid.Sound ∧ Guarding start mid ∧ mid.Sole r.mover.id x.job k r.site.nextTask := by
  obtain ⟨hbefore, hmover, hfree, -⟩ := h.split
  have hsound := hbefore.sound hstart.toSound
  have hafter := hbefore.move hmover hfree
  have hguarding := hafter.guarding hstart.toSound rfl (hstart.guarding hwatch)
  refine ⟨h'.sound (hsound.move _ hmover), ?_, ?_⟩
  · exact h'.guarding (hsound.move _ hmover) hafter.setAlike.beatPeriod_eq hguarding
  · exact h'.sole (hsound.move _ hmover) (hr.sole hsound (hbefore.issued hstart))

/-- A call for a handler is made while it runs. -/
theorem Interleaving.handles_of_callsFor (h' : Interleaving lapse r.after history m.sys)
    (hm : m.mover ∈ m.sys.activities) {record : Job} (hcall : m.CallsFor k record) :
    record = x.job.snapshot ∧ ∃ b ∈ m.sys.activities, b.id = r.mover.id ∧
      ∃ y, b.Handles y k m.mover.id ∧ y.job = x.job := by
  obtain ⟨-, hguarding, hsole⟩ := h.after_begins hstart hwatch hr h'
  have hnew : ¬ start.site.tokens.Made k :=
    fun hmade => hr.not_made.1 (h.split.1.made hmade)
  obtain ⟨b, hb, y, hy, hrecord⟩ := hguarding.of_callsFor hm hnew hcall
  obtain ⟨hid, hjob, -⟩ := hsole.of_handles hb hy
  exact ⟨hjob ▸ hrecord, b, hb, hid, y, hy, hjob⟩

end

/-- Whatever the order in which tasks move: every heartbeat for an execution is sent while its
handler runs, with one record, and none once the handler has returned or the execution was dropped.
As long as the handler runs they go on, each on schedule if no time is lost, whatever the store
says to them. -/
theorem heartbeats_are_confined (hstart : start.Opening) (hwatch : start.WatchesHeartbeats)
    (h : Interleaving lapse start (before ++ r :: after) sys) (hr : r.Begins x k) :
    HeartbeatsConfined lapse before r after sys x k := by
  obtain ⟨hbefore, hmover, hfree, hafter⟩ := h.split
  have hsound := hbefore.sound hstart.toSound
  have hperiod : r.site.beatPeriod = start.site.beatPeriod := hbefore.setAlike.beatPeriod_eq
  constructor
  case begun => exact fun m hm record => h.not_callsFor_before hstart hr hm
  case made =>
    intro m hm record hcall
    obtain ⟨past, hpast, hm, -⟩ := hafter.of_mem hm
    obtain ⟨rfl, hrunning⟩ := h.handles_of_callsFor hstart hwatch hr hpast hm hcall
    exact ⟨rfl, x.job.signsFor_snapshot, hrunning⟩
  case silent =>
    rintro past e rest rfl hleaves m hm record hcall
    obtain ⟨hpast, hmover', hfree', hrest⟩ := hafter.split
    obtain ⟨hsound', -, hsole⟩ := h.after_begins hstart hwatch hr hpast
    obtain ⟨between, hbetween, hm, -⟩ := hrest.of_mem hm
    have hover := hbetween.over (hsound'.move _ hmover') (hleaves.over_after hsound' hmover' hsole)
    have hreach := (hpast.move hmover' hfree').append hbetween
    obtain ⟨-, b, hb, -, y, hy, -⟩ := h.handles_of_callsFor hstart hwatch hr hreach hm hcall
    exact hover.2 b hb y _ hy
  case guarded =>
    intro b hb y n hy
    obtain ⟨-, hguarding, hsole⟩ := h.after_begins hstart hwatch hr hafter
    have hjob := (hsole.of_handles hb hy).2.1
    rw [hperiod]
    exact (hguarding.guarded b hb y k n hy).of_job_eq hjob.symm
  case punctual =>
    intro hidle b hb y n hy
    obtain ⟨-, hguarding, -⟩ := h.after_begins hstart hwatch hr .nil
    obtain ⟨-, -, hsole⟩ := h.after_begins hstart hwatch hr hafter
    obtain ⟨-, -, rfl⟩ := hsole.of_handles hb hy
    exact (hafter.mono hidle).punctual (hsound.move _ hmover)
      ((Ensemble.setAlike_move _ _).beatPeriod_eq.trans hperiod) hguarding hr.not_made.2
      (hr.punctual hsound) hb hy

/-- A job that is asked to be cancelled while its handler runs, and a store that then refuses
heartbeats. -/
def guarded : Ensemble :=
  let slow : Handler := .scripted 0 "slow" [⟨[.sleep 170000], .returns (.ok "done")⟩]
  let site :=
    { Site.initial with ready := true, registry := Registry.empty.register .exports none slow }
  ((Ensemble.ofSite site).host (.timeline (.ofList
    [(0, .enqueue .exports "" none 1), (3000, .requestCancel 1),
      (40000, .setFailing .heartbeat true)]))).host
    (.loop (.fresh .exports "a" 0 site.shutdown))

/-- The handler returns after three heartbeats, and its result is handed over. -/
def guardedTurns : List Turn :=
  [Turn.go 0, .go 0, .go 1, .pass 1000] ++ List.replicate 6 (Turn.go 1) ++
    [Turn.go 2, .pass 3000, .go 0, .go 0, .pass 31000] ++ List.replicate 3 (Turn.go 2) ++
    [Turn.pass 40000, .go 0, .go 0, .pass 91000] ++ List.replicate 3 (Turn.go 2) ++
    [Turn.pass 151000] ++ List.replicate 3 (Turn.go 2) ++ [Turn.pass 171000] ++
    List.replicate 3 (Turn.go 1)

theorem opening_guarded : guarded.Opening := by
  refine ((Ensemble.opening_ofSite rfl rfl ?_).host ?_).host ?_
  · exact fun t ht => absurd ht List.not_mem_nil
  · exact trivial
  · rfl

theorem watchesHeartbeats_guarded : guarded.WatchesHeartbeats := by
  intro b hb w hw
  have hactivities : guarded.activities = [_, _] := rfl
  rw [hactivities] at hb
  obtain rfl | rfl := List.mem_pair.mp hb <;> exact absurd hw (by simp)

theorem heartbeats_are_confined_abandoned :
    let history := (guarded.follow whenIdle guardedTurns).1
    let sys := (guarded.follow whenIdle guardedTurns).2
    history.filterMap (Move.answeredAt? 2) = [31000000000, 91000000000, 151000000000] ∧
      ∃ before r after x k, history = before ++ r :: after ∧ r.Begins x k ∧
        HeartbeatsConfined whenIdle before r after sys x k := by
  intro history sys
  refine ⟨by decide +kernel, ?_⟩
  have hrun : history.any Move.startsHandler = true := by decide +kernel
  obtain ⟨before, r, after, x, k, hsplit, -, hbegins⟩ := Move.exists_begins_of_any hrun
  have hfollow : Interleaving whenIdle guarded (before ++ r :: after) sys :=
    hsplit ▸ Ensemble.interleaving_follow whenIdle guardedTurns guarded
  exact ⟨before, r, after, x, k, hsplit, hbegins,
    heartbeats_are_confined opening_guarded watchesHeartbeats_guarded hfollow hbegins⟩

end Host

end LeasedWork
