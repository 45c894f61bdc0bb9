import LeasedWork.Proofs.Host.Kinship
import LeasedWork.Proofs.Store.Holding

/-!
# The upkeep of leases

A heartbeat task waits for deadlines that are a period apart at most, and time does not pass while
a task may move. So as long as the handler of a job runs, the last sign of life is no older than a
period, but for what is lost when the clock jumps to a whole millisecond; and that is no more than
the timeout allows, which is a whole number of milliseconds too.
-/
namespace LeasedWork

namespace Time

theorem Instant.nanos_addMillis (t : Instant) (ms : Nat) :
    (t.addMillis ms).nanos = t.nanos + (ms * nanosPerMilli : Nat) := by
  simp only [nanos, addMillis, nanosPerSecond, nanosPerMilli]
  omega

end Time

namespace Engine

open Time (Instant Duration)
open Host.Ensemble (wholeMillis wholeMillis_le_wholeMillis le_wholeMillis)

/-- The period of heartbeats on a site. -/
def Site.beatPeriod (s : Site) : Duration := Heartbeat.effectivePeriod s.timing.beatPeriod

/-- Whether the heartbeats of a site are set up to keep leases: no call takes time, none breaks
down at a heartbeat, and neither the period nor the first delay is too long. -/
structure Site.Diligent (s : Site) : Prop where
  prompt : ∀ call n, (s.faults.of call).delays.getD n (s.faults.of call).steadyDelay = 0
  unbroken : (s.faults.of .heartbeat).crashes = []
  period : s.beatPeriod.nanos ≤ s.timing.leaseTimeout * Time.nanosPerSecond
  first : ∀ draw < 100,
    ((Time.jittered? s.beatPeriod draw).getD .zero).nanos ≤ s.beatPeriod.nanos

namespace Site

variable {s t : Site}

theorem SetAlike.beatPeriod_eq (h : s.SetAlike t) : t.beatPeriod = s.beatPeriod := by
  rw [Site.beatPeriod, h.timing, Site.beatPeriod]

theorem Diligent.of_setAlike (hd : s.Diligent) (h : s.SetAlike t) : t.Diligent where
  prompt call n := by
    rw [h.faults.delays, h.faults.steadyDelay]
    exact hd.prompt call n
  unbroken := (h.faults.crashes .heartbeat).trans hd.unbroken
  period := by
    rw [h.beatPeriod_eq, h.timing]
    exact hd.period
  first := by
    rw [h.beatPeriod_eq]
    exact hd.first

theorem Diligent.first_le (hd : s.Diligent) :
    (s.jitter s.beatPeriod).1.nanos ≤ s.beatPeriod.nanos :=
  hd.first _ s.draws.next_lt

/-- Calls that take no time are under way at once. -/
theorem Diligent.call_start (hd : s.Diligent) {ρ : Type} (call : Call)
    (perform : Site → Option ρ × Site) :
    (s.call call .start perform).1 =
      .more (.underway ((s.faults.of call).crashes.contains ((s.faults.of call).made + 1))) :=
  s.call_start call perform (hd.prompt call _)

/-! ## Dates and deadlines -/

theorem second_now (s : Site) : s.now.second = start.second + (s.clock / 1000 : Nat) := by
  have hstart : start.nano = 0 := rfl
  simp only [now, Instant.addMillis, hstart, Time.nanosPerMilli, Time.nanosPerSecond]
  omega

theorem isDated_of_le (h : s.clock ≤ t.clock) (hd : t.isDated = true) : s.isDated = true := by
  have hleast : Instant.leastSecond ≤ start.second := by decide
  simp only [isDated, Instant.isNameable, Bool.and_eq_true, decide_eq_true_eq, second_now] at hd ⊢
  omega

/-- Whether the time has not gone too far since a sign of life. -/
def InTime (s : Site) (beat : Nat) : Prop :=
  s.clock ≤ wholeMillis (beat * Time.nanosPerMilli + s.beatPeriod.nanos)

/-- A sign of life that is not too long ago does not count as too old for a lease. -/
theorem Diligent.age_le (hd : s.Diligent) (hdated : s.isDated = true) {beat timeout : Nat}
    (h : s.InTime beat) (ht : s.timing.leaseTimeout ≤ timeout) :
    s.now.nanos - (start.addMillis beat).nanos ≤
      (min timeout Instant.longestSpan * Time.nanosPerSecond : Int) := by
  have hspan : Instant.endSecond - start.second ≤ Instant.longestSpan := by decide
  have hnow : s.clock / 1000 < Instant.endSecond - start.second := by
    simp only [isDated, Instant.isNameable, Bool.and_eq_true, decide_eq_true_eq, second_now]
      at hdated
    omega
  have hperiod := hd.period
  simp only [InTime, wholeMillis, Time.nanosPerMilli, Time.nanosPerSecond] at h hperiod
  rw [now, Instant.nanos_addMillis, Instant.nanos_addMillis]
  simp only [Time.nanosPerMilli, Time.nanosPerSecond]
  omega

end Site

/-! ## Heartbeats that are on time -/

/-- Whether a heartbeat task that waits for something will make its next call in time, the last
sign of life being of a millisecond. -/
def Heartbeat.IsOnTime (s : Site) (wait : Option Wait) (beat : Nat) (h : Heartbeat) : Prop :=
  match h.phase with
  | .fresh first => wait = none ∧ beat = s.clock ∧ first.nanos ≤ s.beatPeriod.nanos
  | .waiting deadline =>
    (wait = some (.time deadline) ∨ wait = none ∧ deadline ≤ s.nanos) ∧
      deadline ≤ beat * Time.nanosPerMilli + s.beatPeriod.nanos ∧
      s.clock ≤ wholeMillis deadline
  | .calling deadline stage =>
    wait = none ∧ deadline ≤ s.nanos ∧ s.InTime beat ∧
      (stage = .start ∨ stage = .underway false)
  | .stopped => False

namespace Heartbeat

variable {s : Site} {wait : Option Wait} {beat later : Nat} {h : Heartbeat}

theorem IsOnTime.inTime (hon : h.IsOnTime s wait beat) : s.InTime beat := by
  unfold IsOnTime at hon
  split at hon
  · obtain ⟨-, rfl, -⟩ := hon
    simp only [Site.InTime, wholeMillis, Time.nanosPerMilli]
    omega
  · obtain ⟨-, hdeadline, hclock⟩ := hon
    exact Nat.le_trans hclock (wholeMillis_le_wholeMillis hdeadline)
  · exact hon.2.2.1
  · exact absurd hon id

/-- A later sign of life gives no less time. -/
theorem IsOnTime.of_le (hon : h.IsOnTime s wait beat) (hle : beat ≤ later) (hnow : later ≤ s.clock) :
    h.IsOnTime s wait later := by
  have hmul : beat * Time.nanosPerMilli ≤ later * Time.nanosPerMilli := Nat.mul_le_mul_right _ hle
  unfold IsOnTime at hon ⊢
  split at hon
  · obtain ⟨hwait, rfl, hfirst⟩ := hon
    exact ⟨hwait, Nat.le_antisymm hnow hle, hfirst⟩
  · obtain ⟨hwait, hdeadline, hclock⟩ := hon
    exact ⟨hwait, by omega, hclock⟩
  · obtain ⟨hwait, hdeadline, hintime, hstage⟩ := hon
    refine ⟨hwait, hdeadline, Nat.le_trans hintime (wholeMillis_le_wholeMillis ?_), hstage⟩
    omega
  · exact hon

/-- What a move leaves of a heartbeat task that stays on time. -/
def Proceeds (s : Site) (beat : Nat) : Progress Heartbeat Unit → Prop
  | .more h => h.IsOnTime s none beat
  | .wait w h => ∃ deadline, w = .time deadline ∧ h.phase = .waiting deadline ∧
    deadline ≤ beat * Time.nanosPerMilli + s.beatPeriod.nanos ∧
    s.clock ≤ wholeMillis deadline
  | .done _ | .crash => False

/-- The deadline after a call is not before its end, and no more than a period after it. -/
theorem nextDeadline_bounds (period : Duration) {deadline now : Nat} (h : deadline ≤ now) :
    now ≤ nextDeadline period deadline now ∧
      nextDeadline period deadline now ≤ now + period.nanos := by
  unfold nextDeadline
  dsimp only
  split
  · omega
  · omega

theorem nanos_eq (s : Site) : s.nanos = s.clock * Time.nanosPerMilli := rfl

theorem nanos_react_call (s : Site) (h : Heartbeat) (stage : CallStage)
    (answer : Except Refusal Bool) :
    (react (s.callHeartbeat stage h.record).2 h answer).nanos = s.nanos := by
  have hreact := (aside_react (s.callHeartbeat stage h.record).2 h answer).clock
  have hasked := (s.aside_callHeartbeat stage h.record).clock
  rw [nanos_eq, hreact, Site.clock_onAll, hasked, Site.clock_onAll, nanos_eq]

/-- A heartbeat task that is on time stays so, and a call that it makes is a sign of life. -/
theorem IsOnTime.step (hd : s.Diligent) (hdated : s.isDated = true)
    (hperiod : h.period = s.beatPeriod) (hfree : wait.all (·.isOver s) = true)
    (hon : h.IsOnTime s wait beat) :
    (h.deeds s = [] ∧ Proceeds s beat (h.step s).1) ∨
      .operate (.heartbeat h.record) ∈ h.deeds s ∧ Proceeds s s.clock (h.step s).1 := by
  unfold IsOnTime at hon
  cases hphase : h.phase with
  | fresh first =>
    simp only [hphase] at hon
    obtain ⟨-, rfl, hfirst⟩ := hon
    refine .inl ⟨by simp only [deeds, hphase], ?_⟩
    simp only [Heartbeat.step, hphase]
    refine ⟨_, rfl, rfl, ?_, le_wholeMillis ?_⟩
    · simp only [Site.after, nanos_eq]
      omega
    · simp only [Site.after]
      omega
  | waiting deadline =>
    simp only [hphase] at hon
    obtain ⟨hwait, hdeadline, hclock⟩ := hon
    refine .inl ⟨by simp only [deeds, hphase], ?_⟩
    simp only [Heartbeat.step, hphase]
    have hover : deadline ≤ s.nanos := by
      rcases hwait with rfl | ⟨-, hover⟩
      · simpa [Wait.isOver] using hfree
      · exact hover
    exact ⟨rfl, hover, Nat.le_trans hclock (wholeMillis_le_wholeMillis hdeadline), .inl rfl⟩
  | calling deadline stage =>
    simp only [hphase] at hon
    obtain ⟨-, hdeadline, hintime, rfl | rfl⟩ := hon
    · have hcall : (s.callHeartbeat .start h.record).1 = .more (.underway false) := by
        rw [Site.callHeartbeat, hd.call_start, hd.unbroken]
        rfl
      refine .inl ⟨?_, ?_⟩
      · simp only [deeds, hphase, hcall, Site.deedsOfStage, reduceCtorEq, if_false, List.nil_append]
      · simp only [Heartbeat.step, hphase, hcall]
        exact ⟨rfl, hdeadline, hintime, .inr rfl⟩
    · right
      have hcall : (s.callHeartbeat (.underway false) h.record).1 =
          (s.askHeartbeat h.record).1.elim .crash .done := rfl
      rcases s.askHeartbeat_cases h.record with ⟨hundated, -⟩ | ⟨hanswer, -⟩
      · rw [hdated] at hundated
        exact absurd hundated (by simp)
      · rw [hanswer, Option.elim_some] at hcall
        constructor
        · simp only [deeds, hphase, hanswer, Site.deedsOfStage, if_true, Site.deedsOfCall,
            Option.isSome_some]
          exact List.mem_append_left _ (List.mem_singleton.mpr rfl)
        · simp only [Heartbeat.step, hphase, hcall, nanos_react_call]
          have hbounds := nextDeadline_bounds h.period hdeadline
          refine ⟨_, rfl, rfl, ?_, le_wholeMillis hbounds.1⟩
          rw [← nanos_eq, ← hperiod]
          exact hbounds.2
  | stopped =>
    simp only [hphase] at hon

theorem IsOnTime.congr {t : Site} (hon : h.IsOnTime s wait beat) (hclock : t.clock = s.clock)
    (hperiod : t.beatPeriod = s.beatPeriod) : h.IsOnTime t wait beat := by
  unfold IsOnTime Site.InTime at *
  rw [nanos_eq, hclock, hperiod, ← nanos_eq]
  exact hon

theorem Proceeds.of_le {p : Progress Heartbeat Unit} (hp : Proceeds s beat p) (hle : beat ≤ later)
    (hnow : later ≤ s.clock) : Proceeds s later p := by
  cases p with
  | more h => exact IsOnTime.of_le hp hle hnow
  | wait w h =>
    obtain ⟨deadline, rfl, hphase, hdeadline, hclock⟩ := hp
    have hmul : beat * Time.nanosPerMilli ≤ later * Time.nanosPerMilli :=
      Nat.mul_le_mul_right _ hle
    exact ⟨deadline, rfl, hphase, by omega, hclock⟩
  | done => exact hp
  | crash => exact hp

end Heartbeat

/-! ## Executions that wait -/

/-- If calls take no time, an execution waits only for its handler. -/
theorem Execution.handling_of_wait {s : Site} {x x' : Execution} {w : Wait} (hd : s.Diligent)
    (h : (x.step s).1 = .wait w x') : ∃ i k beats, x'.phase = .handling i k beats := by
  cases hphase : x.phase with
  | fresh =>
    rw [step_of_fresh s hphase] at h
    unfold begin at h
    split at h
    · simp at h
    · simp at h
  | handling i k beats =>
    rw [step_of_handling s hphase] at h
    split at h
    · simp at h
    · simp only [Progress.wait.injEq] at h
      exact ⟨_, _, _, by rw [← h.2]⟩
    · simp at h
    · unfold decide at h
      split at h
      · simp at h
      · simp at h
  | finalizing k d o record stage =>
    rw [step_of_finalizing s hphase] at h
    cases stage with
    | start =>
      have hcall : ∃ crashes, ((x.inSpan s).callComplete .start record d.force none).1 =
          .more (.underway crashes) :=
        ⟨_, Site.Diligent.call_start (s := x.inSpan s) ⟨hd.prompt, hd.unbroken, hd.period, hd.first⟩
          .complete _⟩
      obtain ⟨crashes, hcall⟩ := hcall
      simp [hcall] at h
    | underway crashes =>
      cases crashes with
      | true => simp [Site.callComplete, Site.call] at h
      | false =>
        have hcall : ((x.inSpan s).callComplete (.underway false) record d.force none).1 =
            ((x.inSpan s).askComplete record d.force).1.elim .crash .done := rfl
        rw [hcall] at h
        cases hasked : ((x.inSpan s).askComplete record d.force).1 with
        | none => simp [hasked] at h
        | some answer => simp [hasked] at h

end Engine

end LeasedWork
