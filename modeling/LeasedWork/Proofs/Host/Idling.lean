import LeasedWork.Proofs.Engine.Rounds
import LeasedWork.Proofs.Host.Walks
import Mathlib.Data.List.TakeWhile

/-!
# Pauses of idle loops

A loop that finds no job goes to sleep, whether the store is not initialized, has nothing, or
refuses. It wakes when the sleep is over or its pool is cancelled, and in the second case it ends at
once. So whatever it asks of the store next, it asks after the sleep. The same holds of a loop that
waits at its gate. The settings say how long a loop wants to sleep. How long it does sleep is up to
the timer, and all that is needed of the timer is that a sleep is not over before its time.
-/
namespace LeasedWork

open Time (Duration)

/-- The pause between two attempts, for a setting of so many seconds: a tenth of a second at
least. -/
def pauseOf (seconds : Nat) : Duration := .ofMillis (max (1000 * seconds) 100)

theorem pauseOf_pos (seconds : Nat) : 0 < (pauseOf seconds).nanos :=
  Nat.mul_pos (Nat.lt_of_lt_of_le (by decide) (Nat.le_max_right _ 100)) (by decide)

theorem pauseOf_eq_max (seconds : Nat) :
    pauseOf seconds = (Duration.ofSeconds seconds).max (.ofMillis 100) := by
  have hnanos : max (1000 * seconds) 100 * 1000000 =
      max (seconds * 1000000000) (100 * 1000000) := by omega
  exact congrArg Duration.mk hnanos

theorem Timing.idleSleep_eq (timing : Timing) :
    timing.idleSleep = pauseOf timing.pollingFrequency := (pauseOf_eq_max _).symm

theorem Timing.readinessSleep_eq (timing : Timing) :
    timing.readinessSleep = pauseOf timing.readinessRetry := (pauseOf_eq_max _).symm

namespace Engine

namespace Pace

def executes (m : Pace PollLoop) : Bool := m.state.phase matches .executing _

/-- Whether a loop looks whether the storage is ready. -/
def checksGate (m : Pace PollLoop) : Bool := m.state.phase matches .gate

/-- Whether a loop may turn to the store in a move. In the others it only wakes up. -/
def turnsToStore (m : Pace PollLoop) : Bool :=
  match m.state.phase with
  | .gate | .top | .scanning _ | .fetching _ | .executing _ => true
  | .gateSleep | .delay | .idle => false

theorem checksGate_iff {m : Pace PollLoop} : m.checksGate = true ↔ m.state.phase = .gate := by
  unfold checksGate
  split <;> simp_all

instance (m : Pace PollLoop) : Decidable m.Opens :=
  decidable_of_iff (m.state.isTop = true ∧ m.site.isCancelled m.state.pool = false)
    (and_congr_left fun _ => PollLoop.isTop_iff)

end Pace

/-- The moves of an iteration up to where a loop goes to sleep. -/
def search (paces : List (Pace PollLoop)) : List (Pace PollLoop) :=
  paces.takeWhile fun m => !(m.state.isTop || m.state.isIdle)

/-- The iterations in which a loop does not come to a job: when each begins, and when the last move
is made before the loop goes to sleep. -/
def barren : List (Pace PollLoop) → List (Nat × Nat)
  | [] => []
  | m :: after =>
    if m.Opens ∧ ∀ x ∈ search after, x.executes = false then
      (m.nanos, ((search after).getLastD m).nanos) :: barren after
    else barren after

/-- Whether a loop pauses when it has found no job, and when it has found the storage not ready. -/
structure KeepsPauses (pause retry : Duration) (paces : List (Pace PollLoop)) : Prop where
  /-- After it has found no job it does not turn to the store until the pause is over. -/
  rests : paces.Pairwise fun m c =>
    m.rests = true → c.turnsToStore = true → m.nanos + pause.nanos ≤ c.nanos
  /-- It never does so again if its pool is cancelled by the time it wakes. -/
  quits : ∀ before m c after, paces = before ++ m :: c :: after → m.rests = true →
    c.site.isCancelled c.state.pool = true → after = [] ∧ c.turnsToStore = false
  /-- Looks whether the storage is ready are a pause apart. -/
  gate : (paces.filter Pace.checksGate).Pairwise fun m c => m.nanos + retry.nanos ≤ c.nanos
  /-- No iteration is followed by another one unless it has come to a job or to a pause. -/
  comes : ∀ before m between c after, paces = before ++ m :: (between ++ c :: after) → m.Opens →
    c.state.isTop = true → (∃ x ∈ between, x.executes = true) ∨ ∃ x ∈ m :: between, x.rests = true
  /-- An iteration has two calls for jobs, at most. -/
  calls : ∀ before m after, paces = before ++ m :: after → m.Opens →
    (callsOf (iteration after)).length ≤ 2
  /-- A window of time meets one iteration without a job more than pauses fit in, at most. -/
  window : ∀ opening length,
    (barren paces).countP (fun a => a.1 ≤ opening + length ∧ opening ≤ a.2) ≤
      length / pause.nanos + 1

variable {s t : Site} {p q : Progress PollLoop Unit} {m c : Pace PollLoop} {l : PollLoop}
  {paces before after : List (Pace PollLoop)} {length : Duration} {a : Nat × Nat}

/-! ## Going to sleep -/

namespace Pace

/-- A loop that has found no job sleeps. -/
theorem step_of_rests (h : m.rests = true) : ∃ l, (m.state.step m.site).1 =
    .wait (m.state.sleep m.site m.site.timing.idleSleep) l ∧ l.phase = .idle ∧
      l.pool = m.state.pool := by
  obtain ⟨l, hnext, hidle⟩ := (Option.any_eq_true _ _).mp h
  have hphase := PollLoop.isIdle_iff.mp hidle
  obtain ⟨hstep, hl⟩ := (m.state.comesTo_step m.site).of_idle hnext hphase
  exact ⟨l, hstep, hphase, hl.pool⟩

/-- Where a loop that looks for a job may be after a move. -/
theorem next_of_searching (hm : m.Opens ∨ m.state.Polls) (hnext : m.next? = some l) :
    l.Polls ∨ (∃ x, l.phase = .executing x) ∨ l.phase = .idle := by
  have hphase : m.state.phase = .top ∨ m.state.Polls := hm.imp_left And.left
  have hnot : ∀ phase, m.state.phase = phase → phase ≠ .top →
      (∀ stage, phase ≠ .scanning stage ∧ phase ≠ .fetching stage) → False := by
    rintro phase rfl htop hpolls
    obtain h | ⟨stage, h | h⟩ := hphase
    · exact htop h
    · exact (hpolls stage).1 h
    · exact (hpolls stage).2 h
  cases (m.state.proceeds_step m.site l hnext).2 with
  | begins _ _ _ h' | calls _ h' => exact .inl (PollLoop.polls_iff.mpr ⟨_, _, h'⟩)
  | turns _ _ _ h' => exact .inl ⟨_, .inr h'⟩
  | granted _ _ h' => exact .inr (.inl ⟨_, h'⟩)
  | skips _ _ _ h' | rests _ _ _ h' => exact .inr (.inr h')
  | waits h | wakes h => rcases h with h | h <;> exact (hnot _ h (by simp) (by simp)).elim
  | enters h | executes h | concludes h => exact (hnot _ h (by simp) (by simp)).elim

end Pace

namespace Walk

/-- A loop that sleeps makes its next move after the sleep, or when its pool is cancelled, and then
it is the last one. -/
theorem slept (h : Walk PollLoop.step m.site (m.state.step m.site).1 (c :: after) t q)
    (hstep : (m.state.step m.site).1 = .wait (m.state.sleep m.site length) l)
    (hphase : l.phase = .idle ∨ l.phase = .gateSleep) (hpool : l.pool = m.state.pool) :
    c.state = l ∧ (c.site.isCancelled c.state.pool = true → after = []) ∧
      (m.nanos + (m.site.timer.lasting length).nanos ≤ c.nanos ∨
        c.site.isCancelled c.state.pool = true) := by
  rw [hstep] at h
  cases h with
  | cons _ hresumes hrest =>
    obtain rfl : l = c.state := Option.some.inj hresumes.state?
    refine ⟨rfl, fun hcancelled => ?_, ?_⟩
    · have hpolls : ¬ c.state.Polls := by
        rintro ⟨stage, h | h⟩ <;> simp [h] at hphase
      have hdone := PollLoop.step_of_cancelled hcancelled hpolls fun x h => by simp [h] at hphase
      exact hrest.eq_nil (congrArg Progress.state? hdone)
    · cases hresumes with
      | wait hover =>
        have hcome : c.site.isCancelled m.state.pool = true ∨
            m.site.nanos + (m.site.timer.lasting length).nanos ≤ c.site.nanos := by
          simpa [PollLoop.sleep, Wait.untilOrCancel, Wait.isOver, Site.afterSleep, Site.after]
            using hover
        exact hpool ▸ hcome.symm

theorem not_atGate (h : Walk PollLoop.step s p paces t q) (hp : p.state? = some l)
    (hl : ¬ l.AtGate) : ∀ m ∈ paces, ¬ m.state.AtGate := by
  induction h generalizing l with
  | nil => exact fun m hm => absurd hm List.not_mem_nil
  | @cons _ _ _ _ m rest _ hresumes hrest ih =>
    obtain rfl := Option.some.inj (hp.symm.trans hresumes.state?)
    refine List.forall_mem_cons.mpr ⟨hl, fun c hc => ?_⟩
    obtain ⟨between, after, rfl⟩ := List.append_of_mem hc
    obtain ⟨l', hnext⟩ := hrest.exists_state?
    have hgoes := (m.state.proceeds_step m.site l' hnext).2
    exact ih hnext (fun hgate => hl (hgoes.atGate hgate)) c hc

/-- A loop that looks for a job and comes to none goes to sleep. -/
theorem rests_of_search (h : Walk PollLoop.step m.site (m.state.step m.site).1 paces t q)
    (hm : m.Opens ∨ m.state.Polls) (hnone : ∀ x ∈ search paces, x.executes = false)
    (hmore : search paces ≠ paces) : ((search paces).getLastD m).rests = true := by
  -- As long as the loop neither executes nor sleeps it is in the middle of a call.
  induction paces generalizing m with
  | nil => exact absurd rfl hmore
  | cons c rest ih =>
    cases h with
    | cons _ hresumes hrest =>
      have hnext : m.next? = some c.state := hresumes.state?
      rcases Pace.next_of_searching hm hnext with hpolls | ⟨x, hphase⟩ | hphase
      · have hsearch : search (c :: rest) = c :: search rest := by
          obtain ⟨stage, h | h⟩ := hpolls <;> simp [search, PollLoop.isTop, PollLoop.isIdle, h]
        rw [hsearch] at hnone hmore
        rw [hsearch, List.getLastD_cons]
        exact ih hrest (.inr hpolls) (List.forall_mem_cons.mp hnone).2 (by simpa using hmore)
      · have hexecutes := hnone c (by simp [search, PollLoop.isTop, PollLoop.isIdle, hphase])
        simp [Pace.executes, hphase] at hexecutes
      · have hsearch : search (c :: rest) = [] := by simp [search, PollLoop.isIdle, hphase]
        rw [hsearch, List.getLastD_nil, Pace.rests_eq hnext, PollLoop.isIdle_iff.mpr hphase]

/-- A loop that sleeps does not turn to the store until the sleep is over. -/
theorem sleep_le (h : Walk PollLoop.step m.site (m.state.step m.site).1 paces t q)
    (hstep : (m.state.step m.site).1 = .wait (m.state.sleep m.site length) l)
    (hphase : l.phase = .idle ∨ l.phase = .gateSleep) (hpool : l.pool = m.state.pool)
    (hc : c ∈ paces) (hturns : c.turnsToStore = true) :
    m.nanos + (m.site.timer.lasting length).nanos ≤ c.nanos := by
  cases paces with
  | nil => exact absurd hc List.not_mem_nil
  | cons first rest =>
    obtain ⟨hstate, hlast, hover⟩ := h.slept hstep hphase hpool
    rcases List.mem_cons.mp hc with rfl | hc
    · rcases hphase with hphase | hphase <;> simp [Pace.turnsToStore, hstate, hphase] at hturns
    · rcases hover with hover | hcancelled
      · cases h with
        | cons _ _ hrest => exact Nat.le_trans hover (hrest.later_of_mem hc).nanos
      · exact absurd hc (by simp [hlast hcancelled])

/-- After a loop has found no job, it does not turn to the store until its sleep is over. -/
theorem rests_apart (h : Walk PollLoop.step s p paces t q)
    (hkeeps : s.timer.Keeps s.timing.idleSleep) : paces.Pairwise fun m c =>
      m.rests = true → c.turnsToStore = true → m.nanos + s.timing.idleSleep.nanos ≤ c.nanos := by
  refine h.pairwise fun m hm after hafter c hc hrests hturns => ?_
  have hlater := h.later_of_mem hm
  obtain ⟨l, hstep, hphase, hpool⟩ := Pace.step_of_rests hrests
  have hover := hafter.sleep_le hstep (.inl hphase) hpool hc hturns
  rw [hlater.timing, hlater.timer] at hover
  exact Nat.le_trans (Nat.add_le_add_left hkeeps _) hover

/-- Looks whether the storage is ready are a sleep apart. -/
theorem gate_apart (h : Walk PollLoop.step s p paces t q)
    (hkeeps : s.timer.Keeps s.timing.readinessSleep) :
    (paces.filter Pace.checksGate).Pairwise fun m c =>
      m.nanos + s.timing.readinessSleep.nanos ≤ c.nanos := by
  rw [List.pairwise_filter]
  refine h.pairwise fun m hm after hafter c hc hchecks hchecks' => ?_
  have hgate := Pace.checksGate_iff.mp hchecks'
  obtain ⟨between, last, rfl⟩ := List.append_of_mem hc
  obtain ⟨l, hnext⟩ := hafter.exists_state?
  have hcomes := m.state.comesTo_step m.site
  rcases hcomes.of_gate hnext (Pace.checksGate_iff.mp hchecks) with hstep | hpast
  · have hlater := h.later_of_mem hm
    have hover := hafter.sleep_le hstep (.inr rfl) rfl hc (by simp [Pace.turnsToStore, hgate])
    rw [hlater.timing, hlater.timer] at hover
    exact Nat.le_trans (Nat.add_le_add_left hkeeps _) hover
  · exact absurd (.inl hgate) (hafter.not_atGate hnext hpast c hc)

end Walk

/-! ## Iterations without a job -/

theorem length_callsLeft_le (phase : LoopPhase) : (callsLeft phase).length ≤ 2 := by
  unfold callsLeft
  split <;> simp

theorem search_append (hc : c.state.isTop = true) :
    search (before ++ c :: after) = search before := by
  rw [search, List.takeWhile_append]
  split
  · rw [List.takeWhile_cons_of_neg (by simp [hc]), List.append_nil]
    rename_i hall
    exact (List.takeWhile_prefix _).eq_of_length hall |>.symm
  · rfl

theorem search_subset (paces : List (Pace PollLoop)) : search paces ⊆ paces :=
  List.takeWhile_subset _

theorem exists_of_mem_barren (ha : a ∈ barren paces) : ∃ before m after,
    paces = before ++ m :: after ∧ m.Opens ∧ (∀ x ∈ search after, x.executes = false) ∧
      a = (m.nanos, ((search after).getLastD m).nanos) := by
  induction paces with
  | nil => exact absurd ha List.not_mem_nil
  | cons m after ih =>
    rw [barren] at ha
    split at ha
    · rename_i hbarren
      rcases List.mem_cons.mp ha with rfl | ha
      · exact ⟨[], m, after, rfl, hbarren.1, hbarren.2, rfl⟩
      · obtain ⟨before, m', after', rfl, hrest⟩ := ih ha
        exact ⟨m :: before, m', after', rfl, hrest⟩
    · obtain ⟨before, m', after', rfl, hrest⟩ := ih ha
      exact ⟨m :: before, m', after', rfl, hrest⟩

namespace Walk

theorem barren_le (h : Walk PollLoop.step s p paces t q) (ha : a ∈ barren paces) : a.1 ≤ a.2 := by
  obtain ⟨before, m, after, rfl, -, -, rfl⟩ := exists_of_mem_barren ha
  rcases List.mem_cons.mp (List.getLastD_mem_cons (a := m) (l := search after)) with hlast | hlast
  · rw [hlast]
  · exact (h.rest.later_of_mem (search_subset after hlast)).nanos

/-- An iteration that is followed by another one has come to a job or to a pause. -/
theorem comes (h : Walk PollLoop.step m.site (m.state.step m.site).1 (before ++ c :: after) t q)
    (hm : m.Opens) (hc : c.state.isTop = true) (hnone : ∀ x ∈ search before, x.executes = false) :
    ((search before).getLastD m).rests = true := by
  have hsearch : search (before ++ c :: after) = search before := search_append hc
  have hmore : search (before ++ c :: after) ≠ before ++ c :: after := by
    intro heq
    have hmem : c ∈ search (before ++ c :: after) := by simp [heq]
    simpa [hc] using List.mem_takeWhile_imp hmem
  rw [← hsearch] at hnone ⊢
  exact h.rests_of_search (.inl hm) hnone hmore

/-- After an iteration without a job the next one begins after the sleep. -/
theorem barren_apart {pause : Duration} (h : Walk PollLoop.step s p paces t q)
    (hrests : paces.Pairwise fun m c =>
      m.rests = true → c.turnsToStore = true → m.nanos + pause.nanos ≤ c.nanos) :
    (barren paces).Pairwise fun a b => a.2 + pause.nanos ≤ b.1 := by
  induction h with
  | nil => exact .nil
  | @cons s t p q m after _ _ hafter ih =>
    have hlater := ih (List.pairwise_cons.mp hrests).2
    rw [barren]
    split
    · rename_i hbarren
      refine .cons (fun b hb => ?_) hlater
      obtain ⟨between, c, rest, rfl, hopens, -, rfl⟩ := exists_of_mem_barren hb
      have htop := PollLoop.isTop_iff.mpr hopens.1
      rw [search_append htop] at hbarren ⊢
      -- The move before the sleep is made before the next iteration, which it keeps waiting.
      have hlast := hafter.comes hbarren.1 htop hbarren.2
      have hmem : (search between).getLastD m ∈ m :: between :=
        List.cons_subset_cons m (search_subset between) List.getLastD_mem_cons
      have happart := (List.pairwise_append.mp hrests).2.2 _ hmem c List.mem_cons_self
      exact happart hlast (by simp [Pace.turnsToStore, hopens.1])
    · exact hlater

end Walk

end Engine

namespace Host

open Engine

/-- Whatever the store answers and whatever comes in between, a loop pauses when it has found no
job, and when it has found the storage not ready: for as many seconds as the settings say, and for a
tenth of a second at least. The timer must not end such a sleep early. -/
theorem idle_loops_pause {s t : Site} {p q : Progress PollLoop Unit} {paces : List (Pace PollLoop)}
    (h : Walk PollLoop.step s p paces t q)
    (hidle : s.timer.Keeps (pauseOf s.timing.pollingFrequency))
    (hretry : s.timer.Keeps (pauseOf s.timing.readinessRetry)) :
    KeepsPauses (pauseOf s.timing.pollingFrequency) (pauseOf s.timing.readinessRetry) paces := by
  rw [← Timing.idleSleep_eq] at hidle ⊢
  rw [← Timing.readinessSleep_eq] at hretry ⊢
  have hrests := h.rests_apart hidle
  constructor
  case rests => exact hrests
  case gate => exact h.gate_apart hretry
  case quits =>
    rintro before m c after rfl hrests hcancelled
    obtain ⟨l, hstep, hphase, hpool⟩ := Pace.step_of_rests hrests
    obtain ⟨hstate, hlast, -⟩ := h.rest.slept hstep (.inl hphase) hpool
    exact ⟨hlast hcancelled, by simp [Pace.turnsToStore, hstate, hphase]⟩
  case comes =>
    rintro before m between c after rfl hopens htop
    refine or_iff_not_imp_left.mpr fun hnone => ?_
    have hsearch : ∀ x ∈ search between, x.executes = false := by
      intro x hx
      by_contra hexecutes
      exact hnone ⟨x, search_subset between hx, by simpa using hexecutes⟩
    have hmem : (search between).getLastD m ∈ m :: between :=
      List.cons_subset_cons m (search_subset between) List.getLastD_mem_cons
    exact ⟨_, hmem, h.rest.comes hopens htop hsearch⟩
  case calls =>
    rintro before m after rfl hopens
    obtain ⟨l, hnext, -⟩ := hopens.exists_begins
    exact Nat.le_trans (h.rest.calls_left hnext).length_le (length_callsLeft_le l.phase)
  case window =>
    intro opening length
    have hpos : 0 < s.timing.idleSleep.nanos := s.timing.idleSleep_eq ▸ pauseOf_pos _
    exact countP_window_le hpos (h.barren_apart hrests) (fun a ha => h.barren_le ha) opening length

/-- A loop with the least pauses and a look for expired leases in every iteration, in front of a
store that is initialized late, refuses calls for a while, and is gone before the shutdown. -/
def leastPauses : Ensemble :=
  .lone { Timing.default with pollingFrequency := 0, scanInterval := 0, readinessRetry := 0 }
    [(0, .setInitialized false), (150, .setInitialized true), (300, .setFailing .dequeue true),
      (400, .setFailing .dequeue false), (400, .enqueue .exports "" none 1),
      (500, .setInitialized false), (600, .shutdown)]
    (.scripted 0 "quick" [⟨[.sleep 30], .returns (.ok "done")⟩])

def leastPausesTurns : List Turn :=
  [0, 100, 150, 200, 250, 300, 350, 400, 450, 480, 500, 580, 600].flatMap fun clock =>
    .pass clock :: List.replicate 3 (.go 0) ++ List.replicate 8 (.go 1) ++ [.go 2]

/-- The job is executed between two iterations without one, and the pause after the last of them
ends with the shutdown. -/
theorem idle_loops_pause_least_pauses :
    let paces := Kind.loop.paces 1 (leastPauses.follow whenIdle leastPausesTurns).1
    (paces.filter Pace.checksGate).map (·.site.clock) = [0, 100, 200] ∧
      paces.filterMap (fun m => m.call?.map fun expired => (m.site.clock, expired)) =
        [(250, true), (250, false), (350, true), (350, false), (450, true), (450, false),
          (480, true), (480, false)] ∧
      (paces.filter Pace.rests).map (·.site.clock) = [250, 350, 480, 580] ∧
      paces.getLast?.map (·.site.clock) = some 600 ∧
      KeepsPauses (.ofMillis 100) (.ofMillis 100) paces := by
  intro paces
  obtain ⟨⟨t, q, hwalk⟩, -⟩ := Ensemble.walk_lone leastPauses rfl leastPausesTurns
  have hpause : pauseOf 0 = .ofMillis 100 := by decide
  have hkeeps : leastPauses.site.timer.Keeps (pauseOf 0) := Time.Timer.usual_keeps (by decide)
  have hpauses := idle_loops_pause hwalk hkeeps hkeeps
  refine ⟨by decide +kernel, by decide +kernel, by decide +kernel, by decide +kernel, ?_⟩
  exact hpause ▸ hpauses

end Host

end LeasedWork
