import LeasedWork.Proofs.Host.Outcome
import LeasedWork.Proofs.Host.Upkeep

/-!
# Live executions keep their leases

On a host that only pools work on, every lease of a running execution stays in force: heartbeats
come in time as long as the handler runs, and from then on the execution does not wait. The
invariant ties each execution to the entry of its job and to the heartbeat task that it started.
-/
namespace LeasedWork

namespace Engine

open Time (Instant)

/-- Whether an action leaves leases to their holders: it hands no result over, makes no sign of
life older, fails no heartbeat, and calls for expired leases with the timeout at least. -/
def Action.SparesLeases (timeout : Nat) : Action → Prop
  | .complete _ _ _ | .age _ _ | .setFailing .heartbeat true => False
  | .dequeue request _ _ => request.expired = true → timeout ≤ request.timeout
  | _ => True

end Engine

namespace Host

open Engine
open Time (Instant)

/-- Whether a task is of the kinds that a host with pools consists of. -/
def Task.IsHosting : Task → Prop
  | .runs _ | .watch _ => False
  | _ => True

/-- How the lease of an execution is kept, the last sign of life being of a millisecond. -/
def Ensemble.Tends (sys : Ensemble) (b : Activity) (x : Execution) (beat : Nat) : Prop :=
  match x.phase with
  | .fresh => b.wait = none ∧ beat = sys.site.clock
  | .handling _ _ beats => sys.site.isDated = true →
    ∃ c ∈ sys.activities, c.id = beats ∧ ∃ h, c.task = .heartbeat h ∧ h.record = x.job.snapshot ∧
      h.period = sys.site.beatPeriod ∧ h.IsOnTime sys.site c.wait beat
  | .finalizing _ _ _ _ _ => b.wait = none ∧ (sys.site.isDated = true → sys.site.InTime beat)

/-- Whether the lease of an execution is in force and kept. -/
def Ensemble.Keeps (sys : Ensemble) (b : Activity) (x : Execution) : Prop :=
  ∃ beat, beat ≤ sys.site.clock ∧
    sys.site.store.Holds x.job.id x.job.version (Site.start.addMillis beat) ∧ sys.Tends b x beat

/-- What holds on a host that keeps leases whatever becomes of them. -/
structure Ensemble.Standing (sys : Ensemble) : Prop where
  sound : sys.Sound
  stored : sys.site.store.Sound
  diligent : sys.site.Diligent
  within : sys.Within (Action.SparesLeases sys.site.timing.leaseTimeout)
  hosting : ∀ b ∈ sys.activities, b.task.IsHosting
  records : ∀ b ∈ sys.activities, ∀ x, b.task.execution? = some x → x.KeepsRecord

/-- What holds all along on a host that keeps leases. -/
structure Ensemble.Tended (sys : Ensemble) : Prop extends sys.Standing where
  willing : sys.site.store.failHeartbeat = false
  keeps : ∀ b ∈ sys.activities, ∀ x, b.task.execution? = some x → sys.Keeps b x
  apart : ∀ b ∈ sys.activities, ∀ c ∈ sys.activities, b.id ≠ c.id →
    ∀ x y, b.task.execution? = some x → c.task.execution? = some y → x.job.id ≠ y.job.id

variable {lapse : Ensemble → Nat → Prop} {start sys : Ensemble} {history : List Move}
  {a b c : Activity} {x y : Execution} {op : Operation} {beat : Nat} {id version : Int}

/-! ## Tasks of a host -/

theorem Task.IsHosting.of_state? {s : Site} {t t' : Task} (h : t.IsHosting)
    (hs : (t.step s).1.state? = some t') : t'.IsHosting := by
  cases t with
  | runs => exact absurd h id
  | watch => exact absurd h id
  | _ =>
    obtain ⟨_, -, rfl⟩ := state?_within hs
    exact trivial

theorem Task.IsHosting.stop {t : Task} (h : t.IsHosting) : t.stop.IsHosting := by
  cases t <;> exact h

theorem Interleaving.hosting (h : Interleaving lapse start history sys) (hs : start.Sound)
    (hh : ∀ b ∈ start.activities, b.task.IsHosting) : ∀ b ∈ sys.activities, b.task.IsHosting := by
  induction h with
  | nil => exact hh
  | @move history sys a h ha hf ih =>
    refine (h.sound hs).tasks_move (fun t ht => ht.stop) (fun b hb _ => ih b hb)
      (fun t ht => (ih a ha).of_state? ht) ?_
    rintro ⟨id, start⟩ -
    cases start <;> exact trivial
  | pause h hp ih =>
    intro b hb
    obtain ⟨c, hc, -, htask⟩ := hp.exists_task hb
    exact htask ▸ ih c hc

/-- On a host, an execution is in the hands of a loop. -/
theorem Task.IsHosting.exists_loop {t : Task} (h : t.IsHosting) (hx : t.execution? = some x) :
    ∃ l, t = .loop l ∧ l.phase = .executing x := by
  cases t with
  | loop l =>
    simp only [Task.execution?] at hx
    split at hx
    · rename_i hphase
      obtain rfl := Option.some.inj hx
      exact ⟨l, rfl, hphase⟩
    · exact absurd hx (by simp)
  | runs => exact absurd h id
  | _ => exact absurd hx (by simp [Task.execution?])

/-- A loop in the middle of an execution waits only for its handler. -/
theorem handling_of_loop {s : Site} {l l' : PollLoop} {w : Wait} (hd : s.Diligent)
    (h : (l.step s).1 = .wait w l') (hx : l'.phase = .executing x) :
    ∃ i k beats, x.phase = .handling i k beats := by
  have hstate : (l.step s).1.state? = some l' := by rw [h]; rfl
  rcases executing_of_loop hstate hx with ⟨y, hphase, -⟩ | ⟨expired, job, rfl, hphase, hanswer⟩
  · rw [PollLoop.step] at h
    simp only [hphase] at h
    cases hp : (y.step s).1 with
    | wait w' y' =>
      simp only [hp, Progress.within, Progress.wait.injEq] at h
      obtain ⟨-, rfl⟩ := h
      simp only [LoopPhase.executing.injEq] at hx
      exact hx ▸ Execution.handling_of_wait hd hp
    | _ => simp [hp, Progress.within] at h
  · exfalso
    rw [PollLoop.step] at h
    cases expired with
    | true =>
      simp only [hphase, if_true] at h
      split at h
      · simp at h
      · obtain ⟨-, rfl⟩ := Progress.wait.inj h
        simp at hx
      · simp at h
      · rename_i answer _
        rcases answer with refusal | (_ | job) <;>
          simp [PollLoop.afterScan, PollLoop.fetch, PollLoop.execute] at h
    | false =>
      simp only [hphase, Bool.false_eq_true, if_false] at h
      split at h
      · simp at h
      · obtain ⟨-, rfl⟩ := Progress.wait.inj h
        simp at hx
      · simp at h
      · rename_i answer _
        rcases answer with refusal | (_ | job)
        · obtain ⟨-, rfl⟩ := Progress.wait.inj h
          simp at hx
        · obtain ⟨-, rfl⟩ := Progress.wait.inj h
          simp at hx
        · simp [PollLoop.afterFetch, PollLoop.execute] at h

/-! ## What becomes of a lease in a move -/

theorem Ensemble.inTime_move (sys : Ensemble) (a : Activity) (beat : Nat) :
    (sys.move a).site.InTime beat ↔ sys.site.InTime beat := by
  rw [Site.InTime, Ensemble.clock_move, (Ensemble.setAlike_move sys a).beatPeriod_eq, Site.InTime]

/-- The operations of a move, on a host that keeps leases. -/
structure Harmless (sys : Ensemble) (a : Activity) (op : Operation) : Prop where
  age : ∀ other seconds, op ≠ .age other seconds
  fail : op ≠ .setFailing .heartbeat true
  dequeue : ∀ request, op = .dequeue request false → sys.site.Allows op ∧
    (request.expired = true → sys.site.timing.leaseTimeout ≤ request.timeout)
  complete : ∀ record force, op = .complete record force → ∃ y k d o,
    a.task.acting? sys.site = some y ∧ y.phase = .finalizing k d o record (.underway false)

theorem Ensemble.Tended.harmless (ht : sys.Tended) (ha : a ∈ sys.activities)
    (hop : .operate op ∈ a.task.deeds sys.site) : Harmless sys a op := by
  cases Task.origin_of_mem_deeds (ht.within.tasks a ha) hop with
  | @asked action _ hp hasks hallows =>
    cases hasks with
    | dequeue =>
      refine ⟨by simp, by simp, fun request hrequest => ?_, by simp⟩
      obtain ⟨rfl, rfl⟩ := Operation.dequeue.inj hrequest
      exact ⟨hallows, hp⟩
    | dequeueNow =>
      refine ⟨by simp, by simp, fun request hrequest => ?_, by simp⟩
      obtain ⟨rfl, -⟩ := Operation.dequeue.inj hrequest
      exact ⟨hallows, fun hexpired => absurd hexpired (by simp)⟩
    | age => exact absurd hp id
    | complete => exact absurd hp id
    | @setFailing call value =>
      refine ⟨by simp, ?_, by simp, by simp⟩
      rintro hfail
      obtain ⟨rfl, rfl⟩ := Operation.setFailing.inj hfail
      exact absurd hp id
    | _ => exact ⟨by simp, by simp, by simp, by simp⟩
  | @dequeue request cancelled hrequests hallows =>
    refine ⟨by simp, by simp, fun request' hrequest => ?_, by simp⟩
    obtain ⟨rfl, rfl⟩ := Operation.dequeue.inj hrequest
    refine ⟨hallows, fun _ => ?_⟩
    rcases hrequests with ⟨l, expired, -, rfl⟩ | ⟨r, plan, htask, -⟩
    · exact Nat.le_refl _
    · have hhosting := ht.hosting a ha
      rw [htask] at hhosting
      exact absurd hhosting id
  | beat => exact ⟨by simp, by simp, by simp, by simp⟩
  | complete hx hphase =>
    refine ⟨by simp, by simp, by simp, fun record' force' hcomplete => ?_⟩
    obtain ⟨rfl, -⟩ := Operation.complete.inj hcomplete
    exact ⟨_, _, _, _, hx, hphase⟩

/-- No call for a job finds a lease expired that was kept in time. -/
theorem Ensemble.Tended.holds_dequeue (ht : sys.Tended) (ha : a ∈ sys.activities)
    {request : LeaseRequest} (hop : .operate (.dequeue request false) ∈ a.task.deeds sys.site)
    (hintime : sys.site.isDated = true → sys.site.InTime beat)
    (h : sys.site.store.Holds id version (Site.start.addMillis beat)) :
    Store.Holds (sys.site.store.dequeue request false sys.site.now).2 id version
      (Site.start.addMillis beat) := by
  obtain ⟨hallows, htimeout⟩ := (ht.harmless ha hop).dequeue request rfl
  refine ht.stored.holds_dequeue (fun hfail hexpired => ?_) h
  have hdated := hallows request rfl hfail
  exact ht.diligent.age_le hdated (hintime hdated) (htimeout hexpired)

/-- A lease outlasts a move that does not hand over its result. -/
theorem Ensemble.Tended.holds_move (ht : sys.Tended) (ha : a ∈ sys.activities)
    (hbeat : beat ≤ sys.site.clock) (hintime : sys.site.isDated = true → sys.site.InTime beat)
    (hothers : ∀ y k d o record, a.task.acting? sys.site = some y →
      y.phase = .finalizing k d o record (.underway false) → y.job.id ≠ id)
    (h : sys.site.store.Holds id version (Site.start.addMillis beat)) :
    ∃ later, beat ≤ later ∧ later ≤ sys.site.clock ∧
      (sys.move a).site.store.Holds id version (Site.start.addMillis later) := by
  by_cases hdeq : ∃ request, .operate (.dequeue request false) ∈ a.task.deeds sys.site
  · obtain ⟨request, hop⟩ := hdeq
    have hentries := (Move.tallied_of_operation (m := ⟨sys, a⟩) hop (by simp)).entries
    refine ⟨beat, Nat.le_refl _, hbeat, ?_⟩
    exact (Store.holds_congr hentries).mpr (ht.holds_dequeue ha hop hintime h)
  · have hmove : (sys.move a).site.store.Holds id version (Site.start.addMillis beat) ∨
        (sys.move a).site.store.Holds id version sys.site.now := by
      refine Move.store_induction (m := ⟨sys, a⟩)
        (P := fun t => t.Holds id version (Site.start.addMillis beat) ∨
          t.Holds id version sys.site.now) ?_ ?_ ht.stored (.inl h)
      · intro s t hst hp
        rwa [Store.holds_congr hst, Store.holds_congr hst]
      · intro op hop s hs hp
        have hharmless := ht.harmless ha hop
        have hdequeue : ∀ request, op ≠ .dequeue request false :=
          fun request hrequest => hdeq ⟨request, hrequest ▸ hop⟩
        have hcomplete : ∀ record force, op = .complete record force → record.id ≠ id := by
          intro record force hrecord
          obtain ⟨y, k, d, o, hy, hphase⟩ := hharmless.complete record force hrecord
          have hkeeps := ht.records a ha y (Task.execution?_of_acting? hy) k d o record _ hphase
          rw [hkeeps]
          exact hothers y k d o record hy hphase
        rcases hp with hp | hp
        · exact hs.holds_perform sys.site.now hdequeue hcomplete hharmless.age hp
        · exact .inr ((or_self_iff).mp
            (hs.holds_perform sys.site.now hdequeue hcomplete hharmless.age hp))
    rcases hmove with hmove | hmove
    · exact ⟨beat, Nat.le_refl _, hbeat, hmove⟩
    · exact ⟨sys.site.clock, hbeat, Nat.le_refl _, hmove⟩

/-- The version of a job stays while its lease is kept, even if its result is handed over. -/
theorem Ensemble.Tended.version_move (ht : sys.Tended) (ha : a ∈ sys.activities)
    (hintime : sys.site.isDated = true → sys.site.InTime beat)
    (h : sys.site.store.Holds id version (Site.start.addMillis beat)) :
    ∃ e, Store.entry? (sys.move a).site.store id = some e ∧ e.job.version = version := by
  by_cases hdeq : ∃ request, .operate (.dequeue request false) ∈ a.task.deeds sys.site
  · obtain ⟨request, hop⟩ := hdeq
    have hentries := (Move.tallied_of_operation (m := ⟨sys, a⟩) hop (by simp)).entries
    obtain ⟨e, he, hv, -⟩ := (Store.holds_congr hentries).mpr (ht.holds_dequeue ha hop hintime h)
    exact ⟨e, he, hv⟩
  · obtain ⟨e, he, hv, -⟩ := h
    refine Move.store_induction (m := ⟨sys, a⟩)
      (P := fun t => ∃ e, t.entry? id = some e ∧ e.job.version = version) ?_ ?_ ht.stored ⟨e, he, hv⟩
    · intro s t hst hp
      rwa [Store.entry?_congr hst]
    · intro op hop s hs hp
      obtain ⟨e, he, hv⟩ := hp
      obtain ⟨e', he', hv'⟩ := hs.version_perform sys.site.now
        (fun request hrequest => hdeq ⟨request, hrequest ▸ hop⟩) he
      exact ⟨e', he', hv'.trans hv⟩

/-! ## What becomes of heartbeats in a move -/

theorem onTime_of_continues {s t : Site} {p : Progress Heartbeat Unit}
    (hp : Heartbeat.Proceeds s beat p) (hgo : c.Continues t (p.within Task.heartbeat .done))
    (hclock : t.clock = s.clock) :
    ∃ h, p.state? = some h ∧ c.task = .heartbeat h ∧ h.IsOnTime s c.wait beat := by
  cases p with
  | more h =>
    cases hgo with
    | more htask hwait => exact ⟨h, rfl, htask, hwait ▸ hp⟩
  | wait w h =>
    obtain ⟨deadline, rfl, hphase, hdeadline, hnow⟩ := hp
    refine ⟨h, rfl, ?_⟩
    have honTime : ∀ wait, (wait = some (.time deadline) ∨ wait = none ∧ deadline ≤ s.nanos) →
        h.IsOnTime s wait beat := by
      intro wait hwait
      simp only [Heartbeat.IsOnTime, hphase]
      exact ⟨hwait, hdeadline, hnow⟩
    cases hgo with
    | elapsed hover htask hwait =>
      have hpast : deadline ≤ t.nanos := by simpa [Wait.isOver] using hover
      rw [Heartbeat.nanos_eq, hclock, ← Heartbeat.nanos_eq] at hpast
      exact ⟨htask, honTime _ (.inr ⟨hwait, hpast⟩)⟩
    | wait _ htask hwait => exact ⟨htask, honTime _ (.inl hwait)⟩
  | done => exact absurd hp id
  | crash => exact absurd hp id

/-- A heartbeat task that is not told to stop keeps its lease through a move. -/
theorem Ensemble.Tended.beats_move (ht : sys.Tended) (ha : a ∈ sys.activities)
    (hf : a.isFree sys.site = true) (hdated : sys.site.isDated = true) (hc : c ∈ sys.activities)
    {h : Heartbeat} (hh : c.task = .heartbeat h) (hperiod : h.period = sys.site.beatPeriod)
    (hon : h.IsOnTime sys.site c.wait beat) (hstay : .stop c.id ∉ a.task.deeds sys.site)
    (hhold : sys.site.store.Holds h.record.id h.record.version (Site.start.addMillis beat))
    {later : Nat} (hle : beat ≤ later) (hnow : later ≤ sys.site.clock)
    (hlater : (sys.move a).site.store.Holds h.record.id h.record.version
      (Site.start.addMillis later)) :
    ∃ last, last ≤ sys.site.clock ∧ (sys.move a).site.store.Holds h.record.id h.record.version
        (Site.start.addMillis last) ∧
      ∃ d ∈ (sys.move a).activities, d.id = c.id ∧ ∃ g, d.task = .heartbeat g ∧
        g.record = h.record ∧ g.period = h.period ∧ g.IsOnTime sys.site d.wait last := by
  have hunstopped : c.id ∉ (a.task.step sys.site).2.stopping :=
    fun hmem => hstay (Move.stop_of_stopping (m := ⟨sys, a⟩) ht.sound hmem)
  by_cases hid : c.id = a.id
  · obtain rfl := Ensemble.eq_of_id_eq ht.sound.nodup hc ha hid
    have hstep : c.task.step sys.site =
        ((h.step sys.site).1.within Task.heartbeat .done, (h.step sys.site).2) := by rw [hh]; rfl
    have hgoes : ∀ last, Heartbeat.Proceeds sys.site last (h.step sys.site).1 →
        ∃ d ∈ (sys.move c).activities, d.id = c.id ∧ ∃ g, d.task = .heartbeat g ∧
          g.record = h.record ∧ g.period = h.period ∧ g.IsOnTime sys.site d.wait last := by
      intro last hproceeds
      obtain ⟨g, hg⟩ : ∃ g, (c.task.step sys.site).1.state? = some (.heartbeat g) := by
        rw [hstep]
        cases hp : (h.step sys.site).1 with
        | more g => exact ⟨g, rfl⟩
        | wait w g => exact ⟨g, rfl⟩
        | done =>
          rw [hp] at hproceeds
          exact absurd hproceeds id
        | crash =>
          rw [hp] at hproceeds
          exact absurd hproceeds id
      obtain ⟨d, hdid, hgo, hmem⟩ := ht.sound.mem_move_of_state? hc hg
      rw [Activity.heeding_of_not_mem (hdid ▸ hunstopped)] at hmem
      have hclock : (c.task.step sys.site).2.clock = sys.site.clock := c.task.clock_step sys.site
      rw [hstep] at hgo hclock
      obtain ⟨f, hf, htask, hontime⟩ := onTime_of_continues hproceeds hgo hclock
      obtain ⟨hr, hp, -⟩ := Heartbeat.kept_of_state? hf
      exact ⟨d, hmem, hdid, f, htask, hr, hp, hontime⟩
    rcases hon.step ht.diligent hdated hperiod hf with ⟨-, hproceeds⟩ | ⟨hop, hproceeds⟩
    · exact ⟨later, hnow, hlater, hgoes later (hproceeds.of_le hle hnow)⟩
    · have hmem : .operate (.heartbeat h.record) ∈ Move.deeds ⟨sys, c⟩ := by
        rw [Move.deeds, hh]
        exact hop
      have hentries := (Move.tallied_of_operation hmem (by simp)).entries
      refine ⟨sys.site.clock, Nat.le_refl _, ?_, hgoes _ hproceeds⟩
      exact (Store.holds_congr hentries).mpr (Store.holds_heartbeat ht.willing hhold)
  · refine ⟨later, hnow, hlater, c, ?_, rfl, h, hh, rfl, rfl, hon.of_le hle hnow⟩
    have hmem := ht.sound.mem_move_of_ne hc hid
    rwa [Activity.heeding_of_not_mem hunstopped] at hmem

/-! ## What becomes of executions in a move -/

/-- The execution of a task after a move is that of a task that did not move, or goes on in the one
that did, or is given to it with a job. -/
theorem Ensemble.Tended.execution_move (ht : sys.Tended) (ha : a ∈ sys.activities)
    (hb : b ∈ (sys.move a).activities) {x' : Execution} (hx' : b.task.execution? = some x') :
    (∃ c ∈ sys.activities, c.id ≠ a.id ∧ c.id = b.id ∧ (c.wait = none → b.wait = none) ∧
      c.task.execution? = some x') ∨
    b.id = a.id ∧ ((∀ i k beats, x'.phase ≠ .handling i k beats) → b.wait = none) ∧
      ((∃ x, a.task.acting? sys.site = some x ∧ x.Goes sys.site x') ∨
        ∃ job pool request cancelled, x' = .fresh job pool ∧
          .operate (.dequeue request cancelled) ∈ a.task.deeds sys.site ∧
          (sys.site.store.dequeue request cancelled sys.site.now).1 = .ok (some job)) := by
  obtain ⟨c, rfl, hc⟩ := ht.sound.mem_move_cases hb
  rw [Ensemble.execution?_heeding] at hx'
  rw [Activity.id_heeding]
  rcases hc with ⟨hc, hne⟩ | ⟨hid, hgo⟩ | ⟨⟨id, start⟩, -, rfl⟩
  · exact .inl ⟨c, hc, hne, rfl, Activity.wait_heeding, hx'⟩
  · refine .inr ⟨hid, ?_⟩
    have hhosting : c.task.IsHosting := (ht.hosting a ha).of_state? hgo.state?
    obtain ⟨l', hl', hphase'⟩ := hhosting.exists_loop hx'
    have hstate := hgo.state?
    cases hta : a.task with
    | loop l =>
      rw [hta] at hstate hgo
      rw [hl'] at hstate
      obtain ⟨l'', hl, heq⟩ := state?_within hstate
      obtain rfl := Task.loop.inj heq
      have hl : (l.step sys.site).1.state? = some l'' := hl
      constructor
      · intro hnot
        apply Activity.wait_heeding
        have hstep : ((Task.loop l).step sys.site).1 =
            (l.step sys.site).1.within Task.loop .done := rfl
        rw [hstep] at hgo
        cases hp : (l.step sys.site).1 with
        | more m =>
          rw [hp] at hgo
          cases hgo with
          | more _ hwait => exact hwait
        | wait w m =>
          rw [hp] at hl
          obtain rfl := Option.some.inj hl
          obtain ⟨i, k, beats, hhandling⟩ := handling_of_loop ht.diligent hp hphase'
          exact absurd hhandling (hnot i k beats)
        | done => simp [hp, Progress.state?] at hl
        | crash => simp [hp, Progress.state?] at hl
      · rcases executing_of_loop hl hphase' with ⟨x, hphase, hgoes⟩ |
          ⟨expired, job, hfresh, hphase, hasked⟩
        · exact .inl ⟨x, by simp only [Task.acting?, hphase], hgoes⟩
        · refine .inr ⟨job, l.pool, _, _, hfresh, ?_, Site.askDequeue_answer hasked⟩
          cases expired with
          | true => simp [Task.deeds, PollLoop.deeds, hphase, Site.deedsOfStage, Site.deedsOfCall,
              hasked]
          | false => simp [Task.deeds, PollLoop.deeds, hphase, Site.deedsOfStage, Site.deedsOfCall,
              hasked]
    | _ =>
      rw [hta, hl'] at hstate
      obtain ⟨_, -, heq⟩ := state?_within hstate
      exact absurd heq (by simp)
  · cases start <;> exact absurd hx' (by simp [Activity.started, Task.ofStart, Task.execution?,
      PollLoop.fresh])

/-! ## The invariant -/

theorem Ensemble.Tends.inTime (h : sys.Tends b x beat) (hdated : sys.site.isDated = true) :
    sys.site.InTime beat := by
  unfold Ensemble.Tends at h
  split at h
  · obtain ⟨-, rfl⟩ := h
    exact Ensemble.le_wholeMillis (by simp only [Heartbeat.nanos_eq]; omega)
  · obtain ⟨c, -, -, g, -, -, -, hontime⟩ := h hdated
    exact hontime.inTime
  · exact h.2 hdated

theorem inTime_of_le {s : Site} {later : Nat} (h : s.InTime beat) (hle : beat ≤ later) :
    s.InTime later := by
  have hmul : beat * Time.nanosPerMilli ≤ later * Time.nanosPerMilli := Nat.mul_le_mul_right _ hle
  exact Nat.le_trans h (Ensemble.wholeMillis_le_wholeMillis (by omega))

/-- An execution whose handler runs on has its lease kept through a move, if its heartbeats are not
told to stop. -/
theorem Ensemble.Tended.keeps_handling (ht : sys.Tended) (ha : a ∈ sys.activities)
    (hf : a.isFree sys.site = true) {i : Invocation} {k : Token} {beats : TaskId}
    (hphase : x.phase = .handling i k beats) (hbeat : beat ≤ sys.site.clock)
    (hhold : sys.site.store.Holds x.job.id x.job.version (Site.start.addMillis beat))
    (htends : sys.Tends b x beat)
    (hstay : sys.site.isDated = true → .stop beats ∉ a.task.deeds sys.site)
    (hothers : ∀ y k d o record, a.task.acting? sys.site = some y →
      y.phase = .finalizing k d o record (.underway false) → y.job.id ≠ x.job.id) :
    (sys.move a).Keeps c x := by
  have hclock := Ensemble.clock_move sys a
  have halike := Ensemble.setAlike_move sys a
  obtain ⟨later, hle, hnow, hlater⟩ := ht.holds_move ha hbeat (htends.inTime) hothers hhold
  cases hdated : sys.site.isDated with
  | false =>
    refine ⟨later, hclock ▸ hnow, hlater, ?_⟩
    simp only [Ensemble.Tends, hphase]
    intro hdated'
    rw [Ensemble.isDated_move, hdated] at hdated'
    exact absurd hdated' (by simp)
  | true =>
    simp only [Ensemble.Tends, hphase] at htends
    obtain ⟨d, hd, rfl, h, hh, hrecord, hperiod, hontime⟩ := htends hdated
    have hid : h.record.id = x.job.id := by rw [hrecord]; rfl
    have hversion : h.record.version = x.job.version := by rw [hrecord]; rfl
    rw [← hid, ← hversion] at hhold hlater
    obtain ⟨last, hlast, hlasts, e, he, heid, g, hg, hgrecord, hgperiod, hgontime⟩ :=
      ht.beats_move ha hf hdated hd hh hperiod hontime (hstay hdated) hhold hle hnow hlater
    refine ⟨last, hclock ▸ hlast, hid ▸ hversion ▸ hlasts, ?_⟩
    simp only [Ensemble.Tends, hphase]
    refine fun _ => ⟨e, he, heid, g, hg, hgrecord.trans hrecord, ?_,
      hgontime.congr hclock halike.beatPeriod_eq⟩
    rw [hgperiod, hperiod, halike.beatPeriod_eq]

/-- A task that is in the middle of another execution does not stop the heartbeats of this one. -/
theorem Ensemble.Tended.stop_not_mem (ht : sys.Tended) (ha : a ∈ sys.activities)
    (hb : b ∈ sys.activities) (hne : b.id ≠ a.id) (hx : b.task.execution? = some x) {i : Invocation}
    {k : Token} {beats : TaskId} (hphase : x.phase = .handling i k beats)
    (hdated : sys.site.isDated = true) : .stop beats ∉ a.task.deeds sys.site := by
  intro hstop
  have hbeats : ∀ c ∈ sys.activities, ∀ z, c.task.execution? = some z → ∀ i k,
      z.phase = .handling i k beats → ∃ d ∈ sys.activities, d.id = beats ∧
        ∃ h, d.task = .heartbeat h ∧ h.record.id = z.job.id := by
    intro c hc z hz i k hzphase
    obtain ⟨beat, -, -, htends⟩ := ht.keeps c hc z hz
    simp only [Ensemble.Tends, hzphase] at htends
    obtain ⟨d, hd, hid, h, hh, hrecord, -⟩ := htends hdated
    exact ⟨d, hd, hid, h, hh, by rw [hrecord]; rfl⟩
  cases Task.origin_of_mem_deeds a.task.within_trivial hstop with
  | @endBeats y j t _ hy hyphase =>
    obtain ⟨d, hd, hdid, h, hh, hrecord⟩ := hbeats b hb x hx i k hphase
    obtain ⟨e, he, heid, g, hg, hgrecord⟩ := hbeats a ha y hy j t hyphase
    obtain rfl := Ensemble.eq_of_id_eq ht.sound.nodup hd he (hdid.trans heid.symm)
    rw [hh, Task.heartbeat.injEq] at hg
    apply ht.apart b hb a ha hne x y hx hy
    rw [← hrecord, hg, hgrecord]
  | watchDrop htask =>
    have hhosting := ht.hosting a ha
    rw [htask] at hhosting
    exact absurd hhosting id

/-- The heartbeats of a handler that is started are on time. -/
theorem Ensemble.Tended.beats_of_begun (ht : sys.Tended)
    (hx : a.task.acting? sys.site = some x) (hphase : x.phase = .fresh)
    (hh : (sys.site.registry.handler? x.job).isSome = true) :
    ∃ c ∈ (sys.move a).activities, c.id = sys.site.nextTask ∧ ∃ h, c.task = .heartbeat h ∧
      h.record = x.job.snapshot ∧ h.period = sys.site.beatPeriod ∧
      h.IsOnTime sys.site c.wait sys.site.clock := by
  have hdeeds : a.task.deeds sys.site = x.deeds sys.site := Task.deeds_of_acting? hx
  have hstarting : (sys.site.nextTask, x.beats sys.site) ∈ (a.task.step sys.site).2.starting := by
    rw [(a.task.aside_step sys.site).starting, hdeeds, Execution.deeds_of_begun _ hphase hh]
    cases x.job.cancelRequested <;>
      simp [Deed.onAll, Deed.on, Site.spawn, Site.publish, Site.childToken, Site.hold, Site.abandon]
  have hunstopped : sys.site.nextTask ∉ (a.task.step sys.site).2.stopping := by
    intro hmem
    have hstop := Move.stop_of_stopping (m := ⟨sys, a⟩) ht.sound hmem
    rw [Move.deeds, Move.site, hdeeds] at hstop
    obtain ⟨i, k, o, hhandling, -⟩ := returns_of_stop hstop
    rw [hphase] at hhandling
    exact absurd hhandling (by simp)
  have hmem := ht.sound.mem_move_of_start hstarting
  rw [Activity.heeding_of_not_mem hunstopped] at hmem
  refine ⟨_, hmem, rfl, _, rfl, rfl, rfl, rfl, rfl, ?_⟩
  exact ht.diligent.first_le

/-- An execution that moves keeps its lease. -/
theorem Ensemble.Tended.keeps_goes (ht : sys.Tended) (ha : a ∈ sys.activities)
    (hf : a.isFree sys.site = true) (hx : a.task.acting? sys.site = some x) {x' : Execution}
    (hgo : x.Goes sys.site x')
    (hwait : (∀ i k beats, x'.phase ≠ .handling i k beats) → b.wait = none) :
    (sys.move a).Keeps b x' := by
  have hclock := Ensemble.clock_move sys a
  have halike := Ensemble.setAlike_move sys a
  have hdeeds : a.task.deeds sys.site = x.deeds sys.site := Task.deeds_of_acting? hx
  obtain ⟨beat, hbeat, hhold, htends⟩ := ht.keeps a ha x (Task.execution?_of_acting? hx)
  have hothers : (∀ k d o record, x.phase ≠ .finalizing k d o record (.underway false)) →
      ∀ y k d o record, a.task.acting? sys.site = some y →
        y.phase = .finalizing k d o record (.underway false) → y.job.id ≠ x.job.id := by
    intro hnot y k d o record hy hyphase
    obtain rfl := Option.some.inj (hx.symm.trans hy)
    exact absurd hyphase (hnot k d o record)
  cases hgo with
  | @begun handler i n since hphase hh hsteps =>
    have hhandler : (sys.site.registry.handler? x.job).isSome = true := by
      rw [hh]
      rfl
    obtain ⟨later, hle, hnow, hlater⟩ := ht.holds_move ha hbeat htends.inTime
      (hothers (by simp [hphase])) hhold
    simp only [Ensemble.Tends, hphase] at htends
    obtain rfl : later = sys.site.clock := Nat.le_antisymm hnow (htends.2 ▸ hle)
    obtain ⟨c, hc, hid, h, hh, hrecord, hperiod, hontime⟩ := ht.beats_of_begun hx hphase hhandler
    refine ⟨sys.site.clock, hclock.symm ▸ Nat.le_refl _, hlater, fun _ => ?_⟩
    exact ⟨c, hc, hid, h, hh, hrecord, hperiod.trans halike.beatPeriod_eq.symm,
      hontime.congr hclock halike.beatPeriod_eq⟩
  | @handles i i' k beats hphase hi =>
    refine ht.keeps_handling (b := a) ha hf rfl hbeat hhold ?_ (fun _ hstop => ?_)
      (hothers (by simp [hphase]))
    · simpa only [Ensemble.Tends, hphase] using htends
    · rw [hdeeds] at hstop
      obtain ⟨j, t, o, hhandling, hreturn⟩ := returns_of_stop hstop
      rw [hphase, ExecutionPhase.handling.injEq] at hhandling
      obtain ⟨rfl, -⟩ := hhandling
      rw [hreturn] at hi
      exact absurd hi (by simp [Progress.state?])
  | @decided i k beats o d hphase hi hd =>
    obtain ⟨later, hle, hnow, hlater⟩ := ht.holds_move ha hbeat htends.inTime
      (hothers (by simp [hphase])) hhold
    refine ⟨later, hclock.symm ▸ hnow, hlater, hwait (by simp), fun hdated => ?_⟩
    rw [Ensemble.isDated_move] at hdated
    rw [Ensemble.inTime_move]
    exact inTime_of_le (htends.inTime hdated) hle
  | @calls k d o record crashes hphase =>
    obtain ⟨later, hle, hnow, hlater⟩ := ht.holds_move ha hbeat htends.inTime
      (hothers (by simp [hphase])) hhold
    refine ⟨later, hclock.symm ▸ hnow, hlater, hwait (by simp), fun hdated => ?_⟩
    rw [Ensemble.isDated_move] at hdated
    rw [Ensemble.inTime_move]
    exact inTime_of_le (htends.inTime hdated) hle

/-- A job that is handed out in a move is not that of a lease that is kept. -/
theorem Ensemble.Tended.id_ne_of_dequeue (ht : sys.Tended) (ha : a ∈ sys.activities)
    (hk : sys.Keeps b x) {request : LeaseRequest} {cancelled : Bool} {job : Job}
    (hop : .operate (.dequeue request cancelled) ∈ a.task.deeds sys.site)
    (hanswer : (sys.site.store.dequeue request cancelled sys.site.now).1 = .ok (some job)) :
    x.job.id ≠ job.id := by
  intro heq
  obtain ⟨beat, hbeat, hhold, htends⟩ := hk
  cases cancelled with
  | true => exact absurd hanswer (by simp [Store.dequeue])
  | false =>
    obtain ⟨⟨e', he', hv', -⟩, e, he, hlt⟩ := ht.stored.holds_of_dequeue hanswer
    obtain ⟨g', hg', hgv', -⟩ := ht.holds_dequeue ha hop htends.inTime hhold
    obtain ⟨g, hg, hgv, -⟩ := hhold
    rw [heq] at hg hg'
    obtain rfl := Option.some.inj (he.symm.trans hg)
    obtain rfl := Option.some.inj (he'.symm.trans hg')
    omega

theorem Ensemble.Tended.keeps_move (ht : sys.Tended) (ha : a ∈ sys.activities)
    (hf : a.isFree sys.site = true) (hb : b ∈ (sys.move a).activities)
    (hx : b.task.execution? = some x) : (sys.move a).Keeps b x := by
  have hclock := Ensemble.clock_move sys a
  have halike := Ensemble.setAlike_move sys a
  rcases ht.execution_move ha hb hx with ⟨c, hc, hne, hid, hwait, hcx⟩ |
    ⟨hid, hwait, ⟨y, hy, hgo⟩ | ⟨job, pool, request, cancelled, rfl, hop, hanswer⟩⟩
  · obtain ⟨beat, hbeat, hhold, htends⟩ := ht.keeps c hc x hcx
    have hothers : ∀ y k d o record, a.task.acting? sys.site = some y →
        y.phase = .finalizing k d o record (.underway false) → y.job.id ≠ x.job.id :=
      fun y k d o record hy _ =>
        ht.apart a ha c hc (Ne.symm hne) y x (Task.execution?_of_acting? hy) hcx
    cases hphase : x.phase with
    | handling i k beats =>
      exact ht.keeps_handling ha hf hphase hbeat hhold htends
        (ht.stop_not_mem ha hc hne hcx hphase) hothers
    | fresh =>
      obtain ⟨later, hle, hnow, hlater⟩ := ht.holds_move ha hbeat htends.inTime hothers hhold
      simp only [Ensemble.Tends, hphase] at htends
      refine ⟨later, hclock.symm ▸ hnow, hlater, ?_⟩
      simp only [Ensemble.Tends, hphase]
      exact ⟨hwait htends.1, hclock.symm ▸ Nat.le_antisymm hnow (htends.2 ▸ hle)⟩
    | finalizing k d o record stage =>
      obtain ⟨later, hle, hnow, hlater⟩ := ht.holds_move ha hbeat htends.inTime hothers hhold
      refine ⟨later, hclock.symm ▸ hnow, hlater, ?_⟩
      have hintime := htends.inTime
      simp only [Ensemble.Tends, hphase] at htends ⊢
      refine ⟨hwait htends.1, fun hdated => ?_⟩
      rw [Ensemble.isDated_move] at hdated
      rw [Ensemble.inTime_move]
      exact inTime_of_le (hintime hdated) hle
  · exact ht.keeps_goes ha hf hy hgo hwait
  · have hentries := (Move.tallied_of_operation (m := ⟨sys, a⟩) hop (by simp)).entries
    have hheld := (ht.stored.holds_of_dequeue hanswer).1
    refine ⟨sys.site.clock, hclock.symm ▸ Nat.le_refl _, (Store.holds_congr hentries).mpr hheld, ?_⟩
    exact ⟨hwait (by simp [Execution.fresh]), hclock.symm⟩

/-- Executions stay at different jobs. -/
theorem Ensemble.Tended.apart_move (ht : sys.Tended) (ha : a ∈ sys.activities)
    (hb : b ∈ (sys.move a).activities) (hc : c ∈ (sys.move a).activities) (hne : b.id ≠ c.id)
    (hx : b.task.execution? = some x) (hy : c.task.execution? = some y) : x.job.id ≠ y.job.id := by
  have hother : ∀ b' ∈ sys.activities, ∀ c ∈ (sys.move a).activities, ∀ x y, b'.id ≠ a.id →
      b'.id ≠ c.id → b'.task.execution? = some x → c.task.execution? = some y →
        x.job.id ≠ y.job.id := by
    intro b' hb' c hc x y hbne hne hx hy
    rcases ht.execution_move ha hc hy with ⟨c', hc', -, hcid, -, hcy⟩ |
      ⟨-, -, ⟨z, hz, hgo⟩ | ⟨job, pool, request, cancelled, rfl, hop, hanswer⟩⟩
    · exact ht.apart b' hb' c' hc' (hcid ▸ hne) x y hx hcy
    · rw [hgo.job_eq.1]
      exact ht.apart b' hb' a ha hbne x z hx (Task.execution?_of_acting? hz)
    · exact ht.id_ne_of_dequeue ha (ht.keeps b' hb' x hx) hop hanswer
  rcases ht.execution_move ha hb hx with ⟨b', hb', hbne, hbid, -, hbx⟩ | ⟨hbid, -⟩
  · exact hother b' hb' c hc x y hbne (hbid ▸ hne) hbx hy
  · rcases ht.execution_move ha hc hy with ⟨c', hc', hcne, hcid, -, hcy⟩ | ⟨hcid, -⟩
    · exact (hother c' hc' b hb y x hcne (hcid ▸ Ne.symm hne) hcy hx).symm
    · exact absurd (hbid.trans hcid.symm) hne

theorem Ensemble.Tended.willing_move (ht : sys.Tended) (ha : a ∈ sys.activities) :
    (sys.move a).site.store.failHeartbeat = false := by
  have htallied := Move.tallied_after ⟨sys, a⟩
  apply htallied.failHeartbeat.trans
  refine (Deed.onAll_induction (P := fun t => t.store.Sound ∧ t.store.failHeartbeat = false)
    (fun d hd t hp => ?_) ⟨ht.stored, ht.willing⟩).2
  cases d with
  | operate op =>
    refine ⟨Store.sound_perform hp.1 t.now op, ?_⟩
    exact hp.1.failHeartbeat_perform (ht.harmless ha hd).fail hp.2
  | skip => exact ⟨sound_skipNumber hp.1, hp.2⟩
  | _ => exact hp

/-! ## Pauses -/

theorem isFree_of_wait (s : Site) (h : a.wait = none) : a.isFree s = true := by
  rw [Activity.isFree, h]
  rfl

/-- Heartbeats stay on time while time passes that all tasks are waiting for. -/
theorem Ensemble.Tended.keeps_lapse (ht : sys.Tended) {clock : Nat} (hle : sys.site.clock ≤ clock)
    (h : whenIdle sys clock) (hb : b ∈ sys.activities) (hx : b.task.execution? = some x) :
    Ensemble.Keeps { sys with site := { sys.site with clock := clock } } b x := by
  have hwaits : ∀ c ∈ sys.activities, c.wait ≠ none := by
    intro c hc hwait
    have hfree := (h c hc).1
    rw [isFree_of_wait _ hwait] at hfree
    exact absurd hfree (by simp)
  obtain ⟨beat, hbeat, hhold, htends⟩ := ht.keeps b hb x hx
  refine ⟨beat, Nat.le_trans hbeat hle, hhold, ?_⟩
  unfold Ensemble.Tends at htends ⊢
  split at htends
  · exact absurd htends.1 (hwaits b hb)
  · dsimp only
    intro hdated
    have hdated' : sys.site.isDated = true :=
      Site.isDated_of_le (t := { sys.site with clock := clock }) hle hdated
    obtain ⟨c, hc, hid, g, hg, hrecord, hperiod, hontime⟩ := htends hdated'
    refine ⟨c, hc, hid, g, hg, hrecord, hperiod, ?_⟩
    unfold Heartbeat.IsOnTime at hontime ⊢
    split at hontime
    · exact absurd hontime.1 (hwaits c hc)
    · rename_i deadline _
      obtain ⟨hwait | hwait, hdeadline, -⟩ := hontime
      · refine ⟨.inl hwait, hdeadline, (h c hc).2 deadline ?_⟩
        rw [hwait]
        rfl
      · exact absurd hwait.1 (hwaits c hc)
    · exact absurd hontime.1 (hwaits c hc)
    · exact absurd hontime id
  · exact absurd htends.1 (hwaits b hb)

theorem Ensemble.Tended.keeps_wake (ht : sys.Tended) (hb : b ∈ sys.wake.activities)
    (hx : b.task.execution? = some x) : sys.wake.Keeps b x := by
  rw [Ensemble.activities_wake] at hb
  obtain ⟨a, ha, rfl⟩ := List.mem_map.mp hb
  obtain ⟨-, htask, hwait⟩ := awoken_cases sys.site a
  rw [htask] at hx
  obtain ⟨beat, hbeat, hhold, htends⟩ := ht.keeps a ha x hx
  have hnone : a.wait = none → (a.awoken sys.site).wait = none := by
    intro hn
    rcases hwait with hwait | ⟨hwait, -⟩
    · rw [hwait, hn]
    · exact hwait
  rw [Ensemble.Keeps, Ensemble.site_wake]
  refine ⟨beat, hbeat, hhold, ?_⟩
  unfold Ensemble.Tends at htends ⊢
  rw [Ensemble.site_wake, Ensemble.activities_wake]
  split at htends
  · exact ⟨hnone htends.1, htends.2⟩
  · intro hdated
    obtain ⟨c, hc, hid, g, hg, hrecord, hperiod, hontime⟩ := htends hdated
    obtain ⟨hcid, hctask, hcwait⟩ := awoken_cases sys.site c
    refine ⟨_, List.mem_map_of_mem hc, hcid.trans hid, g, hctask.trans hg, hrecord, hperiod, ?_⟩
    rcases hcwait with hcwait | ⟨hcwait, w, hw, hover⟩
    · rw [hcwait]
      exact hontime
    · rw [hcwait]
      unfold Heartbeat.IsOnTime at hontime ⊢
      split at hontime
      · exact absurd (hw.symm.trans hontime.1) (by simp)
      · obtain ⟨hsome | ⟨hn, -⟩, hdeadline, hnow⟩ := hontime
        · obtain rfl := Option.some.inj (hw.symm.trans hsome)
          exact ⟨.inr ⟨rfl, by simpa [Wait.isOver] using hover⟩, hdeadline, hnow⟩
        · exact absurd (hw.symm.trans hn) (by simp)
      · exact absurd (hw.symm.trans hontime.1) (by simp)
      · exact absurd hontime id
  · exact ⟨hnone htends.1, htends.2⟩

theorem Ensemble.Tended.pause {next : Ensemble} (ht : sys.Tended) (hs : next.Standing)
    (hp : Pause whenIdle sys next) : next.Tended := by
  refine ⟨hs, hp.store_eq ▸ ht.willing, ?_, ?_⟩
  · cases hp with
    | lapse hle h => exact fun b hb x hx => ht.keeps_lapse hle h hb hx
    | wake => exact fun b hb x hx => ht.keeps_wake hb hx
    | turns => exact ht.keeps
  · intro b hb c hc hne x y hx hy
    obtain ⟨b', hb', hbid, hbtask⟩ := hp.exists_task hb
    obtain ⟨c', hc', hcid, hctask⟩ := hp.exists_task hc
    exact ht.apart b' hb' c' hc' (hbid ▸ hcid ▸ hne) x y (hbtask ▸ hx) (hctask ▸ hy)

/-! ## All along -/

/-- What is asked of a host for its leases to be kept: it consists of pools and of surroundings
that leave leases alone, and its heartbeats are set up to keep them. -/
structure Ensemble.Caring (start : Ensemble) : Prop extends start.Opening where
  hosting : ∀ b ∈ start.activities, b.task.IsHosting
  stored : start.site.store.Sound
  willing : start.site.store.failHeartbeat = false
  within : start.Within (Action.SparesLeases start.site.timing.leaseTimeout)
  diligent : start.site.Diligent

theorem Interleaving.standing (h : Interleaving lapse start history sys) (hs : start.Caring) :
    sys.Standing where
  sound := h.sound hs.toSound
  stored := h.store_sound hs.stored
  diligent := hs.diligent.of_setAlike h.setAlike
  within := by
    rw [h.setAlike.timing]
    exact h.within hs.toSound hs.within
  hosting := h.hosting hs.toSound hs.hosting
  records := h.keepsRecord hs.toOpening

theorem Interleaving.tended (h : Interleaving whenIdle start history sys) (hs : start.Caring) :
    sys.Tended := by
  induction h with
  | nil =>
    have hnone : ∀ b ∈ start.activities, ∀ x, b.task.execution? ≠ some x := by
      intro b hb x hx
      rw [(hs.fresh b hb).execution?] at hx
      exact absurd hx (by simp)
    have hnil : Interleaving whenIdle start [] start := .nil
    refine ⟨hnil.standing hs, hs.willing, ?_, ?_⟩
    · exact fun b hb x hx => absurd hx (hnone b hb x)
    · exact fun b hb _ _ _ x _ hx => absurd hx (hnone b hb x)
  | @move history sys a h ha hf ih =>
    refine ⟨(h.move ha hf).standing hs, ih.willing_move ha, ?_, ?_⟩
    · exact fun b hb x hx => ih.keeps_move ha hf hb hx
    · exact fun b hb c hc hne x y hx hy => ih.apart_move ha hb hc hne hx hy
  | pause h hp ih => exact ih.pause ((h.pause hp).standing hs) hp

/-- That the lease of an execution is safe: the store has it in force, no move hands the job to
anybody else, and no result is turned away for its version. -/
structure LeaseIsSafe (sys : Ensemble) (x : Execution) : Prop where
  stored : ∃ e, sys.site.store.entry? x.job.id = some e ∧ e.job.version = x.job.version ∧
    e.job.status = .running
  granted : ∀ a ∈ sys.activities, ∀ job, Move.Grants ⟨sys, a⟩ job → job.id ≠ x.job.id
  accepted : ∀ k d o record stage, x.phase = .finalizing k d o record stage →
    ∀ id expected actual, (sys.site.store.complete record d.force sys.site.now).1 ≠
      .error (.versionConflict id expected actual)

/-- On a host whose heartbeats are set up to keep leases, the lease of an execution is safe from
the moment the job is leased until the execution is over, however long its handler runs. -/
theorem live_execution_keeps_lease (hs : start.Caring)
    (h : Interleaving whenIdle start history sys) (hb : b ∈ sys.activities)
    (hx : b.task.execution? = some x) : LeaseIsSafe sys x := by
  have ht := h.tended hs
  obtain ⟨beat, hbeat, hhold, htends⟩ := ht.keeps b hb x hx
  constructor
  case stored =>
    obtain ⟨e, he, hv, hr, -⟩ := hhold
    exact ⟨e, he, hv, hr⟩
  case granted =>
    rintro a ha job ⟨request, hanswer, hentries⟩ hid
    obtain ⟨⟨e', he', hv', -⟩, e, he, hlt⟩ := ht.stored.holds_of_dequeue hanswer
    obtain ⟨g', hg', hgv'⟩ := ht.version_move ha htends.inTime hhold
    obtain ⟨g, hg, hgv, -⟩ := hhold
    have hafter : Store.entry? (sys.move a).site.store job.id = some e' := by
      rw [← he']
      exact Store.entry?_congr hentries _
    rw [← hid] at hg hg'
    obtain rfl := Option.some.inj (he.symm.trans hg)
    obtain rfl := Option.some.inj (hafter.symm.trans hg')
    omega
  case accepted =>
    intro k d o record stage hphase id expected actual
    have hrecord := ht.records b hb x hx k d o record stage hphase
    have hheld : sys.site.store.Holds (Execution.finalRecord x.job o d).id
      (Execution.finalRecord x.job o d).version (Site.start.addMillis beat) := hhold
    rw [hrecord]
    exact Store.complete_ne_versionConflict d.force hheld id expected actual

/-- Two loops that look for expired leases every second, and a job whose handler takes three times
as long as the timeout of a lease, which is also the period of heartbeats. -/
def upkept : Ensemble :=
  .pair
    { Timing.default with
      leaseTimeout := 1, beatInterval := .ofNat 1, scanInterval := 1, pollingFrequency := 1 }
    (.scripted 0 "slow" [⟨[.sleep 3000], .returns (.ok "done")⟩])

/-- Time goes on in steps, and all tasks move as far as they can in between. -/
def upkeptTurns : List Turn :=
  (List.range 31).flatMap fun n =>
    .pass (100 * n) :: (List.replicate 10 [.go 0, .go 1, .go 2, .go 3]).flatten

theorem within_upkept : upkept.Within (Action.SparesLeases upkept.site.timing.leaseTimeout) := by
  apply Ensemble.within_pair
  · exact trivial
  · intro turn hturn step hstep
    obtain rfl := List.mem_singleton.mp hturn
    obtain rfl := List.mem_singleton.mp hstep
    exact trivial

theorem diligent_upkept : upkept.site.Diligent where
  prompt call n := by
    have hfaults : upkept.site.faults = Faults.none := rfl
    rw [hfaults]
    cases call <;> rfl
  unbroken := rfl
  period := by decide +kernel
  first := by decide +kernel

theorem caring_upkept : upkept.Caring where
  toOpening := Ensemble.opening_pair _ _
  hosting := by
    intro b hb
    rcases Ensemble.task_of_mem_pair _ hb with htask | ⟨l, htask, -⟩
    · rw [htask]
      exact trivial
    · rw [htask]
      exact trivial
  stored := Store.sound_empty _
  willing := rfl
  within := within_upkept
  diligent := diligent_upkept

theorem live_execution_keeps_lease_at_timeout :
    let sys := (upkept.follow whenIdle upkeptTurns).2
    sys.site.clock = 3000 ∧ sys.site.store.beats = [(1, 3)] ∧
      ∃ b ∈ sys.activities, ∃ x, b.task.execution? = some x ∧ x.job.id = 1 ∧ LeaseIsSafe sys x := by
  intro sys
  have hrun : sys.activities.any (fun b => b.task.execution?.any fun x => x.job.id == 1) = true := by
    decide +kernel
  obtain ⟨b, hb, hx⟩ := List.any_eq_true.mp hrun
  obtain ⟨x, hx, hid⟩ := (Option.any_eq_true _ _).mp hx
  have hfollow : Interleaving whenIdle upkept (upkept.follow whenIdle upkeptTurns).1 sys :=
    Ensemble.interleaving_follow whenIdle upkeptTurns upkept
  refine ⟨by decide +kernel, by decide +kernel, b, hb, x, hx, eq_of_beq hid, ?_⟩
  exact live_execution_keeps_lease caring_upkept hfollow hb hx

end Host

end LeasedWork
