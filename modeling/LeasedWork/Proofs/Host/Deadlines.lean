import LeasedWork.Proofs.Host.Punctuality
import LeasedWork.Proofs.Host.Walks

/-!
# Deadlines of heartbeats

The first deadline of a heartbeat task is its first delay away, and each later one follows from the
one before and from the end of the call in between, the only thing that is read off the clock. A call
that ends within a period leaves no trace in the deadlines; after a longer one they start afresh from
its end. So deadlines are never less than a period apart, whatever calls do.
-/
namespace LeasedWork.Engine

open Time (Duration)

/-- A deadline and when it was set, in nanoseconds. -/
structure Alarm where
  set : Nat
  deadline : Nat

namespace Heartbeat

/-- The deadline that a heartbeat task waits for, if it does. -/
def deadline? (h : Heartbeat) : Option Nat :=
  match h.phase with
  | .waiting deadline => some deadline
  | .fresh _ | .calling _ _ | .stopped => none

end Heartbeat

namespace Pace

/-- The deadline that a heartbeat task sets in a move, if it does. -/
def alarm? (m : Pace Heartbeat) : Option Alarm :=
  ((m.state.step m.site).1.state?.bind Heartbeat.deadline?).map fun d => ⟨m.nanos, d⟩

/-- Whether a heartbeat task begins a call in a move. -/
def BeginsCall (m : Pace Heartbeat) : Prop := ∃ deadline, m.state.phase = .calling deadline .start

/-- Whether a call ends in a move, with an answer or without. -/
def EndsCall (m : Pace Heartbeat) : Prop :=
  ∃ deadline crashes, m.state.phase = .calling deadline (.underway crashes)

end Pace

/-- The deadlines that a heartbeat task sets in some moves. -/
def alarms (paces : List (Pace Heartbeat)) : List Alarm := paces.filterMap Pace.alarm?

/-- The deadline after a call that ended at a time. -/
def Alarm.Follows (period : Duration) (a b : Alarm) : Prop :=
  a.deadline ≤ b.set ∧ b.deadline = Heartbeat.nextDeadline period a.deadline b.set

/-- Whether a deadline is a period after another one, at least. -/
def Alarm.Apart (period : Duration) (a b : Alarm) : Prop :=
  a.deadline + period.nanos ≤ b.deadline

instance (period : Duration) :
    Trans (Alarm.Apart period) (Alarm.Apart period) (Alarm.Apart period) where
  trans hab hbc := by
    unfold Alarm.Apart at *
    omega

variable {period first : Duration} {deadline : Nat} {s t : Site} {p q : Progress Heartbeat Unit}
  {x : Heartbeat} {m : Pace Heartbeat} {paces : List (Pace Heartbeat)} {a b : Alarm}

/-! ## Deadlines one after the other -/

namespace Alarm.Follows

variable (h : a.Follows period b)

include h

/-- A call that ends within a period leaves no trace in the deadlines. -/
theorem deadline_eq : b.deadline =
    if b.set ≤ a.deadline + period.nanos then a.deadline + period.nanos
    else b.set + period.nanos := by
  rw [h.2, Heartbeat.nextDeadline]
  by_cases hlate : a.deadline + period.nanos < b.set
  · rw [if_pos hlate, if_neg (by omega)]
  · rw [if_neg hlate, if_pos (by omega)]

theorem apart : a.Apart period b := by
  have heq := h.deadline_eq
  unfold Alarm.Apart
  split at heq <;> omega

theorem ahead : b.set ≤ b.deadline := by
  have hbounds := Heartbeat.nextDeadline_bounds period h.1
  rw [h.2]
  exact hbounds.1

end Alarm.Follows

/-- As long as calls end within a period, deadlines are exactly a period apart. -/
theorem steady_of_isChain {list : List Alarm} (h : list.IsChain (Alarm.Follows period)) (n : Nat)
    (hn : n < list.length)
    (hquick : ∀ i (hi : i < n), list[i + 1].set ≤ list[i].deadline + period.nanos) :
    list[n].deadline = list[0].deadline + n * period.nanos := by
  induction n with
  | zero => simp
  | succ n ih =>
    have hbefore := ih (by omega) fun i hi => hquick i (by omega)
    have hnext := (List.isChain_iff_getElem.mp h n hn).deadline_eq
    rw [hnext, if_pos (hquick n (by omega)), hbefore, Nat.succ_mul, Nat.add_assoc]

/-- If the first deadline is not past when it is set, no other is. -/
theorem ahead_of_isChain {list : List Alarm} (h : (a :: list).IsChain (Alarm.Follows period))
    (ha : a.set ≤ a.deadline) : ∀ b ∈ a :: list, b.set ≤ b.deadline := by
  induction list generalizing a with
  | nil =>
    intro b hb
    rwa [List.mem_singleton.mp hb]
  | cons next rest ih =>
    obtain ⟨hnext, hrest⟩ := List.isChain_cons_cons.mp h
    exact List.forall_mem_cons.mpr ⟨ha, ih hrest hnext.ahead⟩

theorem apart_of_isChain {list : List Alarm} (h : list.IsChain (Alarm.Follows period)) :
    list.Pairwise (Alarm.Apart period) := by
  have hchain : list.IsChain (Alarm.Apart period) := h.imp fun _ _ hab => hab.apart
  exact hchain.pairwise

/-- A window of time holds one deadline more than periods fit in, at most. -/
theorem countP_alarms_le {list : List Alarm} (h : list.IsChain (Alarm.Follows period))
    (hpos : 0 < period.nanos) (opening length : Nat) :
    list.countP (fun a => opening ≤ a.deadline ∧ a.deadline ≤ opening + length) ≤
      length / period.nanos + 1 := by
  have hspans : (list.map fun a => (a.deadline, a.deadline)).Pairwise
      fun a b => a.2 + period.nanos ≤ b.1 :=
    List.pairwise_map.mpr (apart_of_isChain h)
  have hcount := countP_window_le hpos hspans (fun a ha => ?_) opening length
  · rw [List.countP_map] at hcount
    refine Nat.le_trans (List.countP_mono_left fun a _ ha => ?_) hcount
    simpa [and_comm] using ha
  · obtain ⟨b, -, rfl⟩ := List.mem_map.mp ha
    exact Nat.le_refl _

/-! ## One move -/

namespace Heartbeat

/-- Whether the last deadline of a heartbeat task is still to come or a call for it is being made,
unless the task is gone. -/
inductive Armed (period : Duration) (deadline : Nat) (s : Site) : Progress Heartbeat Unit → Prop
  | waits {h : Heartbeat} (hperiod : h.period = period) (hphase : h.phase = .waiting deadline) :
    Armed period deadline s (.wait (.time deadline) h)
  | calls {p : Progress Heartbeat Unit} {h : Heartbeat} {stage : CallStage}
      (hstate : p.state? = some h) (hperiod : h.period = period)
      (hphase : h.phase = .calling deadline stage) (hdue : deadline ≤ s.nanos) :
    Armed period deadline s p
  | gone {p : Progress Heartbeat Unit} (hgone : p.state? = none) : Armed period deadline s p

/-- A heartbeat task makes its next move when its deadline has come. -/
theorem Armed.due (harmed : Armed period deadline s p) (hlater : s.Later t)
    (hresumes : p.Resumes t x) : deadline ≤ t.nanos ∧ x.period = period ∧
      (x.phase = .waiting deadline ∨ ∃ stage, x.phase = .calling deadline stage) := by
  cases harmed with
  | waits hperiod hphase =>
    cases hresumes with
    | wait hover =>
      have hcome : deadline ≤ t.nanos := by simpa [Wait.isOver] using hover
      exact ⟨hcome, hperiod, .inl hphase⟩
  | calls hstate hperiod hphase hdue =>
    obtain rfl := Option.some.inj (hstate.symm.trans hresumes.state?)
    exact ⟨Nat.le_trans hdue hlater.nanos, hperiod, .inr ⟨_, hphase⟩⟩
  | gone hgone => exact absurd (hgone.symm.trans hresumes.state?) (by simp)

end Heartbeat

namespace Pace

open Heartbeat (Armed)

theorem alarm?_of_state? (hstate : (m.state.step m.site).1.state? = some x) :
    m.alarm? = x.deadline?.map fun d => ⟨m.nanos, d⟩ := by
  rw [alarm?, hstate, Option.bind_some]

theorem alarm?_of_gone (hgone : (m.state.step m.site).1.state? = none) : m.alarm? = none := by
  rw [alarm?, hgone, Option.bind_none, Option.map_none]

/-- A heartbeat task whose deadline has come keeps it until a call for it has ended, and then sets
the next one. -/
theorem armed_step (hdue : deadline ≤ m.nanos) (hphase : m.state.phase = .waiting deadline ∨
      ∃ stage, m.state.phase = .calling deadline stage) :
    (m.alarm? = none ∧ m.state.answer? m.site = none ∧
        Armed m.state.period deadline m.site (m.state.step m.site).1) ∨
      ∃ b, m.alarm? = some b ∧ (m.state.answer? m.site).isSome = true ∧ b.set = m.nanos ∧
        b.deadline = Heartbeat.nextDeadline m.state.period deadline m.nanos ∧
        Armed m.state.period b.deadline m.site (m.state.step m.site).1 := by
  rcases hphase with hphase | ⟨stage, hphase⟩
  · left
    have hstep : (m.state.step m.site).1 =
        .more { m.state with phase := .calling deadline .start } := by
      simp only [Heartbeat.step, hphase]
    rw [alarm?_of_state? (congrArg Progress.state? hstep), hstep]
    exact ⟨rfl, by simp only [Heartbeat.answer?, hphase], .calls rfl rfl rfl hdue⟩
  · have hcalls := Heartbeat.calls_of_phase (s := m.site) hphase
    generalize hp : (m.state.step m.site).1 = p at hcalls
    cases hcalls with
    | begins hnone hstate =>
      left
      rw [alarm?_of_state? (hp ▸ hstate)]
      exact ⟨rfl, hnone, .calls hstate rfl rfl hdue⟩
    | breaksDown hnone =>
      left
      rw [alarm?_of_gone (by rw [hp]; rfl)]
      exact ⟨rfl, hnone, .gone rfl⟩
    | @answered _ next hanswer hnext =>
      right
      refine ⟨⟨m.nanos, next⟩, ?_, by rw [hanswer]; rfl, rfl, hnext, .waits rfl rfl⟩
      rw [alarm?_of_state? (congrArg Progress.state? hp)]
      rfl

end Pace

/-! ## All moves -/

namespace Walk

open Heartbeat (Armed)

variable (h : Walk Heartbeat.step s p paces t q) (harmed : Armed period a.deadline s p)

include h harmed

/-- From one deadline on, each follows from the one before. -/
theorem alarms_isChain : (a :: alarms paces).IsChain (Alarm.Follows period) := by
  induction h generalizing a with
  | nil => exact .singleton a
  | @cons s t p q m rest hlater hresumes _ ih =>
    obtain ⟨hdue, rfl, hphase⟩ := harmed.due hlater hresumes
    rcases m.armed_step hdue hphase with ⟨hnone, -, harmed'⟩ | ⟨b, hb, -, hset, hnext, harmed'⟩
    · rw [alarms, List.filterMap_cons_none hnone]
      exact ih harmed'
    · rw [alarms, List.filterMap_cons_some hb]
      exact .cons_cons ⟨hset ▸ hdue, hset ▸ hnext⟩ (ih harmed')

/-- From one deadline on, every move is made for it or for a later one, which has come. -/
theorem due_of_mem (hm : m ∈ paces) : ∃ deadline, a.deadline ≤ deadline ∧ deadline ≤ m.nanos ∧
    (m.state.phase = .waiting deadline ∨ ∃ stage, m.state.phase = .calling deadline stage) := by
  induction h generalizing a with
  | nil => exact absurd hm List.not_mem_nil
  | @cons s t p q m' rest hlater hresumes _ ih =>
    obtain ⟨hdue, rfl, hphase⟩ := harmed.due hlater hresumes
    rcases List.mem_cons.mp hm with rfl | hm
    · exact ⟨a.deadline, Nat.le_refl _, hdue, hphase⟩
    · rcases m'.armed_step hdue hphase with ⟨-, -, harmed'⟩ | ⟨b, -, -, hset, hnext, harmed'⟩
      · exact ih harmed' hm
      · obtain ⟨deadline, hlast, hrest⟩ := ih harmed' hm
        have hfollows : a.Follows m'.state.period b := ⟨hset ▸ hdue, hset ▸ hnext⟩
        have hapart := hfollows.apart
        unfold Alarm.Apart at hapart
        exact ⟨deadline, by omega, hrest⟩

/-- From one deadline on, nothing is done between the setting of a later one and its coming. -/
theorem alarms_waited :
    paces.Pairwise fun m m' => ∀ b ∈ m.alarm?, b.deadline ≤ m'.nanos := by
  induction h generalizing a with
  | nil => exact .nil
  | @cons s t p q m rest hlater hresumes hrest ih =>
    obtain ⟨hdue, rfl, hphase⟩ := harmed.due hlater hresumes
    rcases m.armed_step hdue hphase with ⟨hnone, -, harmed'⟩ | ⟨b, hb, -, -, -, harmed'⟩
    · refine .cons (fun m' _ b hb => ?_) (ih harmed')
      exact absurd hb (by simp [hnone])
    · refine .cons (fun m' hm' c hc => ?_) (ih harmed')
      obtain rfl := Option.some.inj (hb.symm.trans hc)
      obtain ⟨deadline, hlast, hcome, -⟩ := hrest.due_of_mem harmed' hm'
      exact Nat.le_trans hlast hcome

end Walk

/-! ## Whole walks -/

namespace Pace

/-- A call is under way once it has begun. -/
theorem endsCall_of_resumes {m' : Pace Heartbeat} (hbegins : m.BeginsCall)
    (hresumes : (m.state.step m.site).1.Resumes m'.site m'.state) : m'.EndsCall := by
  obtain ⟨deadline, hphase⟩ := hbegins
  have hcalls := Heartbeat.calls_of_phase (s := m.site) hphase
  cases hcalls with
  | begins _ hstate =>
    obtain heq := Option.some.inj (hstate.symm.trans hresumes.state?)
    exact ⟨deadline, _, congrArg Heartbeat.phase heq.symm⟩

end Pace

/-- Whether heartbeats that begin with a delay keep a period from then on, whenever their calls
end. -/
structure KeepsSchedule (period first : Duration) (paces : List (Pace Heartbeat)) : Prop where
  /-- The first deadline is the first delay after the beginning. -/
  begins : ∀ m ∈ paces.head?, (alarms paces).head? = some ⟨m.nanos, m.nanos + first.nanos⟩
  /-- Each other one is set in the move in which a call is answered. -/
  answered : ∀ m ∈ paces.tail, m.alarm?.isSome = (m.state.answer? m.site).isSome
  /-- None is past when it is set. -/
  ahead : ∀ a ∈ alarms paces, a.set ≤ a.deadline
  /-- Nothing is done until it has come. -/
  waited : paces.Pairwise fun m m' => ∀ a ∈ m.alarm?, a.deadline ≤ m'.nanos
  /-- The move after the beginning of a call is the one in which that call ends. -/
  alone : paces.IsChain fun m m' => m.BeginsCall → m'.EndsCall
  /-- A call that ends within a period leaves no trace, and after another one the next deadline is
  a period after its end. -/
  next : (alarms paces).IsChain fun a b => b.deadline =
    if b.set ≤ a.deadline + period.nanos then a.deadline + period.nanos else b.set + period.nanos
  apart : (alarms paces).IsChain (Alarm.Apart period)
  /-- As long as all calls end within a period, there is no drift. -/
  steady : ∀ n (hn : n < (alarms paces).length),
    (∀ i (hi : i < n), (alarms paces)[i + 1].set ≤ (alarms paces)[i].deadline + period.nanos) →
      (alarms paces)[n].deadline = (alarms paces)[0].deadline + n * period.nanos
  /-- A window of time holds one deadline more than periods fit in, at most. -/
  window : ∀ opening length,
    (alarms paces).countP (fun a => opening ≤ a.deadline ∧ a.deadline ≤ opening + length) ≤
      length / period.nanos + 1

theorem keepsSchedule_nil (period first : Duration) : KeepsSchedule period first [] where
  begins m hm := absurd hm (by simp)
  answered m hm := absurd hm List.not_mem_nil
  ahead a ha := absurd ha List.not_mem_nil
  waited := .nil
  alone := .nil
  next := .nil
  apart := .nil
  steady n hn := absurd hn (Nat.not_lt_zero n)
  window _ _ := Nat.zero_le _

/-- What a heartbeat task does when it begins. -/
theorem Pace.armed_fresh {record : Job} {k : Token}
    (hfresh : m.state = .fresh record period first k) :
    m.alarm? = some ⟨m.nanos, m.nanos + first.nanos⟩ ∧
      Heartbeat.Armed period (m.nanos + first.nanos) m.site (m.state.step m.site).1 := by
  have hstep : (m.state.step m.site).1 = .wait (.time (m.nanos + first.nanos))
      { m.state with phase := .waiting (m.nanos + first.nanos) } := by
    rw [hfresh]
    rfl
  rw [Pace.alarm?_of_state? (congrArg Progress.state? hstep), hstep]
  exact ⟨rfl, .waits (by rw [hfresh]; rfl) rfl⟩

/-- Heartbeats keep to their schedule, whatever they find. -/
theorem Walk.keepsSchedule {record : Job} {k : Token}
    (h : Walk Heartbeat.step s (.more (.fresh record period first k)) paces t q)
    (hpos : 0 < period.nanos) : KeepsSchedule period first paces := by
  have hreach := h.isChain
  cases h with
  | nil => exact keepsSchedule_nil period first
  | @cons _ _ _ _ m rest _ hresumes hrest =>
    have hfresh : Heartbeat.fresh record period first k = m.state :=
      Option.some.inj hresumes.state?
    obtain ⟨hfirst, harmed⟩ := m.armed_fresh hfresh.symm
    have halarms : alarms (m :: rest) = ⟨m.nanos, m.nanos + first.nanos⟩ :: alarms rest :=
      List.filterMap_cons_some hfirst
    have hchain : (alarms (m :: rest)).IsChain (Alarm.Follows period) := by
      rw [halarms]
      exact hrest.alarms_isChain harmed
    have hdue := fun m' (hm' : m' ∈ rest) =>
      hrest.due_of_mem (a := ⟨m.nanos, m.nanos + first.nanos⟩) harmed hm'
    exact {
      begins := by
        intro m' hm'
        obtain rfl := Option.some.inj hm'
        rw [halarms]
        rfl
      answered := by
        intro m' hm'
        obtain ⟨deadline, -, hcome, hphase⟩ := hdue m' hm'
        rcases m'.armed_step hcome hphase with ⟨hnone, hanswer, -⟩ | ⟨b, hb, hanswer, -⟩
        · rw [hnone, hanswer]
          rfl
        · rw [hb, hanswer]
          rfl
      ahead := by
        rw [halarms] at hchain ⊢
        exact ahead_of_isChain hchain (Nat.le_add_right _ _)
      waited := by
        refine .cons (fun m' hm' a ha => ?_)
          (hrest.alarms_waited (a := ⟨m.nanos, m.nanos + first.nanos⟩) harmed)
        obtain rfl := Option.some.inj (hfirst.symm.trans ha)
        obtain ⟨deadline, hlast, hcome, -⟩ := hdue m' hm'
        exact Nat.le_trans hlast hcome
      alone := hreach.imp fun m m' hm hbegins => m.endsCall_of_resumes hbegins hm.2
      next := hchain.imp fun _ _ hab => hab.deadline_eq
      apart := hchain.imp fun _ _ hab => hab.apart
      steady := steady_of_isChain hchain
      window := countP_alarms_le hchain hpos }

end LeasedWork.Engine

namespace LeasedWork.Host

open Engine
open Time (Duration)

/-- The time from one heartbeat to the next for a configured one: ten milliseconds at least. -/
def beatOf (configured : Duration) : Duration := ⟨max configured.nanos 10000000⟩

theorem beatOf_pos (configured : Duration) : 0 < (beatOf configured).nanos :=
  Nat.lt_of_lt_of_le (by decide) (Nat.le_max_right _ _)

/-- Heartbeats keep to a schedule with the configured period, or with ten milliseconds if that is
shorter, whatever the first delay, however long calls take and whatever they are answered. So do the
heartbeats of every handler that is started, from a random first delay on and until they are told to
stop. -/
theorem heartbeats_keep_schedule (configured : Duration) :
    (∀ {record : Job} {first : Duration} {k : Token} {s t : Site} {q : Progress Heartbeat Unit}
      {paces : List (Pace Heartbeat)}, Walk Heartbeat.step s
        (.more (.fresh record (Heartbeat.effectivePeriod configured) first k)) paces t q →
      KeepsSchedule (beatOf configured) first paces) ∧
    ∀ {lapse : Ensemble → Nat → Prop} {start sys : Ensemble} {before after : List Move} {m : Move}
      {x : Execution} {k : Token}, start.Sound →
      Interleaving lapse start (before ++ m :: after) sys → m.Begins x k →
      m.site.timing.beatPeriod = configured → Unstopped m.site.nextTask after →
      KeepsSchedule (beatOf configured) (m.site.jitter (beatOf configured)).1
        (Kind.heartbeat.paces m.site.nextTask (before ++ m :: after)) := by
  refine ⟨fun h => h.keepsSchedule (beatOf_pos configured), ?_⟩
  rintro lapse start sys before after m x k hs h hbegins rfl hstay
  obtain ⟨t, q, hwalk⟩ := h.walk_of_begins hs hbegins hstay
  exact hwalk.keepsSchedule (beatOf_pos _)

/-- A job with a handler that sleeps, and a store that is slow to take heartbeats. -/
def slowToBeat (interval : Number.Double) (delays : List Nat) : Ensemble :=
  let slow : Handler := .scripted 0 "slow" [⟨[.sleep 400000], .returns (.ok "done")⟩]
  let site :=
    { Site.initial with
      ready := true
      timing := { Timing.default with beatInterval := interval }
      registry := Registry.empty.register .exports none slow
      faults := { Faults.none with heartbeat := ⟨delays, 0, [], 0⟩ } }
  ((Ensemble.ofSite site).host (.timeline (.ofList [(0, .enqueue .exports "" none 1)]))).host
    (.loop (.fresh .exports "a" 0 site.shutdown))

/-- The handler begins after a second, and its heartbeats move at some times after that. -/
def slowToBeatTurns (times : List Nat) : List Turn :=
  [Turn.go 0, .go 0, .go 1, .pass 1000] ++ List.replicate 6 (Turn.go 1) ++ [Turn.go 2] ++
    times.flatMap fun clock => .pass clock :: List.replicate 4 (Turn.go 2)

theorem sound_slowToBeat (interval : Number.Double) (delays : List Nat) :
    (slowToBeat interval delays).Sound := by
  refine (((Ensemble.opening_ofSite rfl rfl ?_).host ?_).host ?_).toSound
  · exact fun t ht => absurd ht List.not_mem_nil
  · exact trivial
  · rfl

/-- Every second call takes longer than a period, and every third one exactly as long. The periods
are the least one, for four milliseconds, and a minute. -/
theorem heartbeats_keep_schedule_slow_calls :
    (let sys := slowToBeat (.ofRatio 4 1000) [0, 25, 10]
    let paces := Kind.heartbeat.paces 2
      (sys.follow whenIdle (slowToBeatTurns [1005, 1015, 1040, 1050, 1060])).1
    sys.site.timing.beatPeriod = .ofMillis 4 ∧
      (alarms paces).map (fun a => (a.set / Time.nanosPerMilli, a.deadline / Time.nanosPerMilli)) =
        [(1000, 1005), (1005, 1015), (1040, 1050), (1060, 1060), (1060, 1070)] ∧
      KeepsSchedule (.ofMillis 10) (.ofMillis 5) paces) ∧
    let paces := Kind.heartbeat.paces 2 ((slowToBeat (.ofNat 60) [0, 70000, 60000]).follow whenIdle
      (slowToBeatTurns [31000, 91000, 161000, 221000, 281000])).1
    (alarms paces).map (fun a => (a.set / Time.nanosPerMilli, a.deadline / Time.nanosPerMilli)) =
        [(1000, 31000), (31000, 91000), (161000, 221000), (281000, 281000), (281000, 341000)] ∧
      KeepsSchedule (.ofSeconds 60) (.ofSeconds 30) paces := by
  have hkept {sys : Ensemble} {turns : List Turn} {configured first : Duration} (hs : sys.Sound)
      (hbegun : (sys.follow whenIdle turns).1.any Move.startsHandler = true)
      (hsettings : ∀ m ∈ (sys.follow whenIdle turns).1, m.startsHandler = true →
        m.site.nextTask = 2 ∧ m.site.timing.beatPeriod = configured ∧
          (m.site.jitter (beatOf configured)).1 = first)
      (hstay : Unstopped 2 (sys.follow whenIdle turns).1) :
      KeepsSchedule (beatOf configured) first
        (Kind.heartbeat.paces 2 (sys.follow whenIdle turns).1) := by
    obtain ⟨before, m, after, x, k, hsplit, hstarts, hbegins⟩ := Move.exists_begins_of_any hbegun
    obtain ⟨hn, hperiod, hfirst⟩ := hsettings m (by simp [hsplit]) hstarts
    have hafter : Unstopped 2 after := fun m' hm' => hstay m' (by simp [hsplit, hm'])
    have hfollow : Interleaving whenIdle sys (before ++ m :: after) (sys.follow whenIdle turns).2 :=
      hsplit ▸ Ensemble.interleaving_follow whenIdle turns sys
    have hschedule :=
      (heartbeats_keep_schedule configured).2 hs hfollow hbegins hperiod (hn.symm ▸ hafter)
    rwa [hn, hfirst, ← hsplit] at hschedule
  have hleast : beatOf (.ofMillis 4) = .ofMillis 10 := by decide
  have hminute : beatOf (.ofSeconds 60) = .ofSeconds 60 := by decide
  refine ⟨⟨by decide +kernel, by decide +kernel, ?_⟩, by decide +kernel, ?_⟩
  · exact hleast ▸ hkept (sound_slowToBeat _ _) (by decide +kernel) (by decide +kernel)
      (by decide +kernel)
  · exact hminute ▸ hkept (sound_slowToBeat _ _) (by decide +kernel) (by decide +kernel)
      (by decide +kernel)

end LeasedWork.Host
