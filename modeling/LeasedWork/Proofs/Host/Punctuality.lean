import LeasedWork.Proofs.Host.Guarding

/-!
# Heartbeats on schedule

The deadlines of a heartbeat task follow from the first one and from the times at which its calls
were answered, and from nothing else: not from the answers, and not from what became of the stored
job or of the execution. If time passes only while every task waits, each call begins in the first
whole millisecond from its deadline, as long as the handler runs.
-/
namespace LeasedWork

namespace Engine

open Host.Ensemble (wholeMillis wholeMillis_le_wholeMillis le_wholeMillis)

variable {s t : Site} {h : Heartbeat} {wait : Option Wait} {due : Nat}

namespace Heartbeat

/-- Whether a heartbeat task that waits for something begins its next call on schedule, which is
due at a time. -/
def IsDue (s : Site) (wait : Option Wait) (due : Nat) (h : Heartbeat) : Prop :=
  match h.phase with
  | .fresh first => wait = none ∧ s.after first = due
  | .waiting deadline =>
    deadline = due ∧ (wait = some (.time due) ∨ wait = none ∧ due ≤ s.nanos) ∧
      s.clock ≤ wholeMillis due
  | .calling deadline stage =>
    deadline = due ∧ due ≤ s.nanos ∧ (stage = .start → wait = none ∧ s.clock = wholeMillis due)
  | .stopped => False

/-- What a heartbeat task is answered in its next move, if it is. -/
def answer? (s : Site) (h : Heartbeat) : Option (Except Refusal Bool) :=
  match h.phase with
  | .calling _ (.underway false) => (s.askHeartbeat h.record).1
  | _ => none

/-- When the next call is due after a move of a heartbeat task. -/
def dueAfter (s : Site) (h : Heartbeat) (due : Nat) : Nat :=
  if (h.answer? s).isSome then nextDeadline h.period due s.nanos else due

theorem IsDue.congr (hdue : h.IsDue s wait due) (hclock : t.clock = s.clock) :
    h.IsDue t wait due := by
  have hnanos : t.nanos = s.nanos := by rw [nanos_eq, hclock, nanos_eq]
  unfold IsDue Site.after at *
  rw [hnanos, hclock]
  exact hdue

theorem IsDue.unstopped (hdue : h.IsDue s wait due) : h.phase ≠ .stopped := by
  intro hphase
  simp only [IsDue, hphase] at hdue

/-- What a move leaves of a heartbeat task that stays on schedule. -/
def Stays (s : Site) (due : Nat) : Progress Heartbeat Unit → Prop
  | .more h => h.IsDue s none due
  | .wait w h =>
    (w = .time due ∧ h.phase = .waiting due ∧ s.nanos ≤ due) ∨
      ∃ crashes, h.phase = .calling due (.underway crashes) ∧ due ≤ s.nanos
  | .done _ => False
  | .crash => True

/-- While a call has no answer its deadline stays. -/
theorem dueAfter_of_none (hnone : h.answer? s = none) : h.dueAfter s due = due := by
  simp [dueAfter, hnone]

theorem clock_eq_wholeMillis (hdue : due ≤ s.nanos) (hclock : s.clock ≤ wholeMillis due) :
    s.clock = wholeMillis due := by
  refine Nat.le_antisymm hclock (Nat.le_trans (wholeMillis_le_wholeMillis hdue) ?_)
  simp only [nanos_eq, wholeMillis, Time.nanosPerMilli]
  omega

/-- What the move of a heartbeat task comes to that is in the middle of a call. -/
inductive Calls (s : Site) (h : Heartbeat) (due : Nat) :
    CallStage → Progress Heartbeat Unit → Prop
  | begins {p : Progress Heartbeat Unit} {crashes : Bool} (hnone : h.answer? s = none)
      (hstate : p.state? = some { h with phase := .calling due (.underway crashes) }) :
    Calls s h due .start p
  | breaksDown {crashes : Bool} (hnone : h.answer? s = none) :
    Calls s h due (.underway crashes) .crash
  | answered {answer : Except Refusal Bool} {next : Nat} (hanswer : h.answer? s = some answer)
      (hnext : next = nextDeadline h.period due s.nanos) :
    Calls s h due (.underway false) (.wait (.time next) { h with phase := .waiting next })

theorem calls_of_phase {stage : CallStage} (hphase : h.phase = .calling due stage) :
    Calls s h due stage (h.step s).1 := by
  have hstages : (∃ crashes, stage = .start ∧
      (s.callHeartbeat stage h.record).1.state? = some (.underway crashes)) ∨
      (stage = .underway true ∧ (s.callHeartbeat stage h.record).1 = .crash) ∨
      stage = .underway false ∧
        (s.callHeartbeat stage h.record).1 = (s.askHeartbeat h.record).1.elim .crash .done :=
    s.call_stages _ _ _
  simp only [step, hphase]
  rcases hstages with ⟨crashes, rfl, hcall⟩ | ⟨rfl, hcall⟩ | ⟨rfl, hcall⟩
  · have hnone : h.answer? s = none := by simp only [answer?, hphase]
    cases hp : (s.callHeartbeat .start h.record).1 with
    | more stage | wait w stage =>
      rw [hp] at hcall
      obtain rfl := Option.some.inj hcall
      exact .begins hnone rfl
    | _ => simp [hp, Progress.state?] at hcall
  · rw [hcall]
    exact .breaksDown (by simp only [answer?, hphase])
  · rw [hcall]
    cases hasked : (s.askHeartbeat h.record).1 with
    | none => exact .breaksDown (by simp only [answer?, hphase, hasked])
    | some answer =>
      have hanswer : h.answer? s = some answer := by simp only [answer?, hphase, hasked]
      exact .answered hanswer (by rw [nanos_react_call])

theorem stays_calling {stage : CallStage} (hdue : due ≤ s.nanos)
    (hphase : h.phase = .calling due stage) : Stays s (h.dueAfter s due) (h.step s).1 := by
  have hcalls := calls_of_phase (s := s) hphase
  generalize (h.step s).1 = p at hcalls
  cases hcalls with
  | @begins _ crashes hnone hstate =>
    rw [dueAfter_of_none hnone]
    cases p with
    | more g =>
      obtain rfl := Option.some.inj hstate
      exact ⟨rfl, hdue, by simp⟩
    | wait w g =>
      obtain rfl := Option.some.inj hstate
      exact .inr ⟨crashes, rfl, hdue⟩
    | _ => exact absurd hstate (by simp [Progress.state?])
  | breaksDown => exact trivial
  | answered hanswer hnext =>
    have hafter : h.dueAfter s due = nextDeadline h.period due s.nanos := by
      simp [dueAfter, hanswer]
    rw [hafter, hnext]
    exact .inl ⟨rfl, rfl, (nextDeadline_bounds h.period hdue).1⟩

/-- A heartbeat task that is on schedule stays so in its move, unless its call breaks down. -/
theorem IsDue.stays (hdue : h.IsDue s wait due) (hfree : wait.all (·.isOver s) = true) :
    Stays s (h.dueAfter s due) (h.step s).1 := by
  unfold IsDue at hdue
  cases hphase : h.phase with
  | fresh first =>
    simp only [hphase] at hdue
    obtain ⟨-, rfl⟩ := hdue
    rw [dueAfter_of_none (by simp only [answer?, hphase])]
    simp only [step, hphase]
    exact .inl ⟨rfl, rfl, Nat.le_add_right _ _⟩
  | waiting deadline =>
    simp only [hphase] at hdue
    obtain ⟨rfl, hwait, hclock⟩ := hdue
    have hover : deadline ≤ s.nanos := by
      rcases hwait with rfl | ⟨-, hover⟩
      · simpa [Wait.isOver] using hfree
      · exact hover
    rw [dueAfter_of_none (by simp only [answer?, hphase])]
    simp only [step, hphase]
    exact ⟨rfl, hover, fun _ => ⟨rfl, clock_eq_wholeMillis hover hclock⟩⟩
  | calling deadline stage =>
    simp only [hphase] at hdue
    obtain ⟨rfl, hover, -⟩ := hdue
    exact stays_calling hover hphase
  | stopped =>
    simp only [hphase] at hdue

end Heartbeat

end Engine

namespace Host

open Engine
open Time (Duration)
open Ensemble (wholeMillis le_wholeMillis)

variable {lapse : Ensemble → Nat → Prop} {start sys next : Ensemble} {history : List Move}
  {a b c : Activity} {x : Execution} {k : Token} {n : TaskId} {due : Nat}

/-- A heartbeat task that goes on from its move is on schedule. -/
theorem Activity.Continues.isDue {s t : Site} {p : Progress Heartbeat Unit}
    (hgo : c.Continues t (p.within Task.heartbeat .done)) (hstays : Heartbeat.Stays s due p)
    (hclock : t.clock = s.clock) :
    ∃ h, p.state? = some h ∧ c.task = .heartbeat h ∧ h.IsDue s c.wait due := by
  have hnanos : t.nanos = s.nanos := by rw [Heartbeat.nanos_eq, hclock, Heartbeat.nanos_eq]
  cases p with
  | more h =>
    cases hgo with
    | more htask hwait => exact ⟨h, rfl, htask, hwait ▸ hstays⟩
  | wait w h =>
    refine ⟨h, rfl, ?_⟩
    rcases hstays with ⟨rfl, hphase, hnow⟩ | ⟨crashes, hphase, hover⟩
    · have hdue : (c.wait = some (.time due) ∨ c.wait = none ∧ due ≤ s.nanos) →
          h.IsDue s c.wait due := by
        intro hwait
        simp only [Heartbeat.IsDue, hphase]
        exact ⟨trivial, hwait, le_wholeMillis hnow⟩
      cases hgo with
      | elapsed hpast htask hwait =>
        have hpast : due ≤ s.nanos := by simpa [Wait.isOver, hnanos] using hpast
        exact ⟨htask, hdue (.inr ⟨hwait, hpast⟩)⟩
      | wait _ htask hwait => exact ⟨htask, hdue (.inl hwait)⟩
    · have hdue : h.IsDue s c.wait due := by
        simp only [Heartbeat.IsDue, hphase]
        exact ⟨trivial, hover, by simp⟩
      cases hgo with
      | elapsed _ htask _ => exact ⟨htask, hdue⟩
      | wait _ htask _ => exact ⟨htask, hdue⟩
  | done => exact hstays.elim
  | crash => cases hgo

/-- Whether the heartbeats of a number call on schedule, or have broken down. -/
def Ensemble.Punctual (sys : Ensemble) (n : TaskId) (period : Duration) (due : Nat) : Prop :=
  (n, true) ∈ sys.site.ended ∨ ∃ c ∈ sys.activities, c.id = n ∧
    ∃ h, c.task = .heartbeat h ∧ h.period = period ∧ h.IsDue sys.site c.wait due

/-- When a call of the heartbeats of a number is answered in a move, if it is. -/
def Move.answeredAt? (n : TaskId) (m : Move) : Option Nat :=
  match m.mover.task with
  | .heartbeat h =>
    if m.mover.id = n ∧ (h.answer? m.site).isSome then some m.site.nanos else none
  | _ => none

/-- When the next call of the heartbeats of a number is due after some moves. -/
def dueSince (n : TaskId) (period : Duration) (due : Nat) (history : List Move) : Nat :=
  (history.filterMap (Move.answeredAt? n)).foldl (Heartbeat.nextDeadline period) due

theorem dueSince_append (n : TaskId) (period : Duration) (due : Nat) (history : List Move)
    (m : Move) : dueSince n period due (history ++ [m]) =
      dueSince n period (dueSince n period due history) [m] := by
  rw [dueSince, List.filterMap_append, List.foldl_append]
  rfl

theorem dueSince_singleton (n : TaskId) (period : Duration) (due : Nat) (m : Move) :
    dueSince n period due [m] =
      (m.answeredAt? n).elim due (Heartbeat.nextDeadline period due) := by
  rw [dueSince]
  cases hm : m.answeredAt? n with
  | none => rw [List.filterMap_cons_none hm, List.filterMap_nil, List.foldl_nil, Option.elim_none]
  | some time =>
    rw [List.filterMap_cons_some hm, List.filterMap_nil, List.foldl_cons, List.foldl_nil,
      Option.elim_some]

theorem dueSince_of_ne {m : Move} {period : Duration} (h : m.mover.id ≠ n) :
    dueSince n period due [m] = due := by
  have hnone : m.answeredAt? n = none := by
    unfold Move.answeredAt?
    split
    · exact if_neg fun hand => h hand.1
    · rfl
  rw [dueSince_singleton, hnone, Option.elim_none]

theorem dueSince_mover {m : Move} {h : Heartbeat} (ht : m.mover.task = .heartbeat h) :
    dueSince m.mover.id h.period due [m] = h.dueAfter m.site due := by
  have htime : m.answeredAt? m.mover.id =
      if m.mover.id = m.mover.id ∧ (h.answer? m.site).isSome then some m.site.nanos else none := by
    rw [Move.answeredAt?, ht]
  rw [dueSince_singleton, htime, Heartbeat.dueAfter]
  by_cases hanswered : (h.answer? m.site).isSome = true
  · rw [if_pos ⟨rfl, hanswered⟩, if_pos hanswered, Option.elim_some]
  · rw [if_neg fun hand => hanswered hand.2, if_neg hanswered, Option.elim_none]

/-- Heartbeats that are not told to stop stay on schedule. -/
theorem Ensemble.Punctual.move {period : Duration} (hp : sys.Punctual n period due)
    (hs : sys.Sound) (ha : a ∈ sys.activities) (hf : a.isFree sys.site = true)
    (hstay : .stop n ∉ a.task.deeds sys.site) :
    (sys.move a).Punctual n period (dueSince n period due [⟨sys, a⟩]) := by
  have hclock := Ensemble.clock_move sys a
  rcases hp with hbroken | ⟨c, hc, rfl, h, ht, rfl, hdue⟩
  · left
    rw [Ensemble.ended_move]
    exact List.mem_append_left _ hbroken
  · have hunstopped : c.id ∉ (a.task.step sys.site).2.stopping :=
      fun hmem => hstay (Move.stop_of_stopping (m := ⟨sys, a⟩) hs hmem)
    by_cases hid : c.id = a.id
    · obtain rfl := Ensemble.eq_of_id_eq hs.nodup hc ha hid
      have hstep : (c.task.step sys.site).1 = (h.step sys.site).1.within Task.heartbeat .done := by
        rw [ht]
        rfl
      have hnext : dueSince c.id h.period due [⟨sys, c⟩] = h.dueAfter sys.site due :=
        dueSince_mover (m := ⟨sys, c⟩) ht
      rw [hnext]
      rcases Heartbeat.state?_or_crash sys.site hdue.unstopped with ⟨g, hg⟩ | hcrash
      · right
        have hstate : (c.task.step sys.site).1.state? = some (.heartbeat g) := by
          rw [hstep, Progress.state?_within hg]
        obtain ⟨d, hdid, hgo, hd⟩ := hs.mem_move_of_state? hc hstate
        rw [Activity.heeding_of_not_mem (hdid ▸ hunstopped)] at hd
        rw [hstep] at hgo
        obtain ⟨g', hg', htask, hdue'⟩ :=
          hgo.isDue (hdue.stays hf) (c.task.clock_step sys.site)
        exact ⟨d, hd, hdid, g', htask, (Heartbeat.kept_of_state? hg').2.1, hdue'.congr hclock⟩
      · left
        rw [Ensemble.ended_move, hstep, hcrash]
        simp [Progress.within, Progress.end?]
    · right
      have hmem := hs.mem_move_of_ne hc hid
      rw [Activity.heeding_of_not_mem hunstopped] at hmem
      rw [dueSince_of_ne (Ne.symm hid)]
      exact ⟨c, hmem, rfl, h, ht, rfl, hdue.congr hclock⟩

/-- No time passes beyond the first whole millisecond from a deadline. -/
theorem Ensemble.Punctual.pause {period : Duration} (hp : sys.Punctual n period due)
    (hpause : Pause whenIdle sys next) : next.Punctual n period due := by
  rcases hp with hbroken | ⟨c, hc, hid, h, ht, hperiod, hdue⟩
  · exact .inl (hpause.ended_eq ▸ hbroken)
  · right
    cases hpause with
    | turns => exact ⟨c, hc, hid, h, ht, hperiod, hdue⟩
    | wake =>
      obtain ⟨hawid, htask, hwait⟩ := awoken_cases sys.site c
      refine ⟨c.awoken sys.site, ?_, hawid.trans hid, h, htask.trans ht, hperiod, ?_⟩
      · rw [Ensemble.activities_wake]
        exact List.mem_map_of_mem hc
      · rw [Ensemble.site_wake]
        rcases hwait with hwait | ⟨hwait, w, hw, hover⟩
        · exact hwait ▸ hdue
        · unfold Heartbeat.IsDue at hdue ⊢
          rw [hwait]
          rw [hw] at hdue
          split at hdue
          · exact absurd hdue.1 (by simp)
          · obtain ⟨rfl, hwaits, hclock⟩ := hdue
            obtain rfl : w = .time _ := by simpa using hwaits
            exact ⟨rfl, .inr ⟨rfl, by simpa [Wait.isOver] using hover⟩, hclock⟩
          · obtain ⟨hdeadline, hnow, hstart⟩ := hdue
            exact ⟨hdeadline, hnow, fun hstage => absurd (hstart hstage).1 (by simp)⟩
          · exact hdue
    | @lapse clock hle hidle =>
      refine ⟨c, hc, hid, h, ht, hperiod, ?_⟩
      obtain ⟨hwaiting, hlimit⟩ := hidle c hc
      have hnot : c.wait ≠ none := by
        intro hnone
        simp [Activity.isFree, hnone] at hwaiting
      have hnanos : sys.site.nanos ≤ Site.nanos { sys.site with clock := clock } :=
        Nat.mul_le_mul_right _ hle
      unfold Heartbeat.IsDue at hdue ⊢
      split at hdue
      · exact absurd hdue.1 hnot
      · obtain ⟨hdeadline, hwaits, -⟩ := hdue
        rcases hwaits with hwait | ⟨hnone, -⟩
        · refine ⟨hdeadline, .inl hwait, hlimit due ?_⟩
          rw [hwait]
          rfl
        · exact absurd hnone hnot
      · obtain ⟨hdeadline, hnow, hstart⟩ := hdue
        exact ⟨hdeadline, Nat.le_trans hnow hnanos, fun hstage => absurd (hstart hstage).1 hnot⟩
      · exact hdue

theorem Interleaving.made {mid : Ensemble} (h : Interleaving lapse mid history sys)
    (hmade : mid.site.tokens.Made k) : sys.site.tokens.Made k := by
  induction h with
  | nil => exact hmade
  | @move history sys a _ _ _ ih => exact Issued.made_after ⟨sys, a⟩ ih
  | pause _ hp ih =>
    obtain ⟨clock, -, hsite⟩ := hp.site_eq
    exact hsite ▸ ih

/-- As long as a handler runs, its heartbeats stay on schedule. -/
theorem Interleaving.punctual {mid : Ensemble} {period : Duration}
    (h : Interleaving whenIdle mid history sys) (hs : mid.Sound)
    (hperiod : mid.site.beatPeriod = start.site.beatPeriod) (hg : Guarding start mid)
    (hmade : mid.site.tokens.Made k) (hp : mid.Punctual n period due) (hb : b ∈ sys.activities)
    (hx : b.Handles x k n) : sys.Punctual n period (dueSince n period due history) := by
  induction h generalizing b x with
  | nil => exact hp
  | @move history sys a h ha hf ih =>
    rcases (h.sound hs).handles_move ha hb hx with
      ⟨c, hc, -, hstay, y, hy, -⟩ | ⟨-, -, y, hbegins, -⟩
    · have hguarding := h.guarding hs hperiod hg
      rw [dueSince_append]
      refine (ih hc hy).move (h.sound hs) ha hf fun hstop => ?_
      exact hstay (hguarding.eq_of_stop ha hc hy hstop) hstop
    · exact absurd (h.made hmade) hbegins.not_made.1
  | pause _ hpause ih =>
    obtain ⟨c, hc, -, hy⟩ := hpause.exists_handles hb hx
    exact (ih hc hy).pause hpause

end Host

end LeasedWork
