import LeasedWork.Proofs.Engine.Rounds
import LeasedWork.Proofs.Host.Walks

/-!
# Looks for expired leases

A loop takes down when it has looked for expired leases, and looks again in the first iteration that
finds the store initialized when the interval has passed since. How long an iteration takes does not
matter, because nothing is counted but time; and an iteration that does not get as far as to the
question leaves the answer to the next one.
-/
namespace LeasedWork.Engine

open Time (Duration)

/-- What the store says in a move to the call of a loop for an expired lease. -/
def Pace.scanned? (m : Pace PollLoop) : Option (Except Refusal (Option Job)) :=
  match m.state.phase with
  | .scanning (.underway false) => m.state.asked? m.site true
  | _ => none

/-- Whether a loop looks for expired leases when it is time, and only then. -/
structure ScansOnTime (interval : Duration) (paces : List (Pace PollLoop)) : Prop where
  /-- Looks are the interval apart, and the first is the interval after the first delay. -/
  apart : (paces.filter Pace.looks).Pairwise fun a b => a.nanos + interval.nanos ≤ b.nanos
  /-- If no time passes in between, the same holds of the calls that are made for them. -/
  called : Seamless PollLoop.step paces → (paces.filter (·.call? = some true)).Pairwise
    fun a b => a.nanos + interval.nanos ≤ b.nanos
  /-- An iteration begins with a look just if it finds the store initialized and the interval has
  passed since the last one, or since the first delay. -/
  due : ∀ before m after, paces = before ++ m :: after → m.Opens →
    (m.scans = true ↔ m.site.store.initialized = true ∧
      ∃ z ∈ (before.filter Pace.looks).getLast?, z.nanos + interval.nanos ≤ m.nanos)
  /-- It then makes a call for that first, no other one, and at most one for a waiting job. -/
  scanning : ∀ before m after, paces = before ++ m :: after → m.Opens → m.scans = true →
    callsOf (iteration after) <+: [true, false] ∧
      (after ≠ [] → (callsOf (iteration after)).head? = some true)
  /-- Otherwise it makes one call for a waiting job. -/
  fetching : ∀ before m after, paces = before ++ m :: after → m.Opens → m.scans = false →
    m.site.store.initialized = true →
      callsOf (iteration after) <+: [false] ∧ (after ≠ [] → callsOf (iteration after) = [false])
  /-- It makes none if it finds the store not initialized. -/
  waiting : ∀ before m after, paces = before ++ m :: after → m.Opens →
    m.site.store.initialized = false → callsOf (iteration after) = []
  /-- All calls are made in iterations. -/
  inside : ∀ before c after, paces = before ++ c :: after → c.call?.isSome = true →
    ∃ first m rest, before = first ++ m :: rest ∧ m.Opens ∧ ∀ x ∈ rest, x.state.isTop = false
  /-- After a look that gave a job there is no call for another one in the iteration. -/
  granted : ∀ before m after, paces = before ++ m :: after →
    ∀ job, m.scanned? = some (.ok (some job)) → callsOf (iteration after) = []
  /-- After any other look there is exactly one. -/
  refused : ∀ before m after, paces = before ++ m :: after →
    ∀ answer, m.scanned? = some answer → (∀ job, answer ≠ .ok (some job)) →
      callsOf (iteration after) <+: [false] ∧ (after ≠ [] → callsOf (iteration after) = [false])

variable {s t : Site} {p q : Progress PollLoop Unit} {m m' : Pace PollLoop} {l : PollLoop}
  {paces before after : List (Pace PollLoop)}

namespace Pace

/-- A loop comes to begin a call for an expired lease from a look, and waits for nothing. -/
theorem looks_of_calls (hresumes : (m.state.step m.site).1.Resumes m'.site m'.state)
    (hcall : m'.call? = some true) :
    m.looks = true ∧ (m.state.step m.site).1 = .more m'.state := by
  have hphase' : m'.state.phase = .scanning .start := by
    unfold call? at hcall
    split at hcall
    · assumption
    · exact absurd hcall (by simp)
    · exact absurd hcall (by simp)
  have hnext : m.next? = some m'.state := hresumes.state?
  have hscans : m.scans = true := by rw [scans_eq hnext, hphase']
  refine ⟨by rw [looks, hscans, Bool.true_or], ?_⟩
  exact (m.state.comesTo_step m.site).of_scanning hnext hphase'

theorem polls_of_call? (h : m.call?.isSome = true) : m.state.Polls := by
  unfold call? at h
  split at h
  · exact ⟨_, .inl (by assumption)⟩
  · exact ⟨_, .inr (by assumption)⟩
  · exact absurd h (by simp)

theorem asked_of_scanned? {answer : Except Refusal (Option Job)} (h : m.scanned? = some answer) :
    m.state.phase = .scanning (.underway false) ∧ m.state.asked? m.site true = some answer := by
  unfold scanned? at h
  split at h
  · exact ⟨by assumption, h⟩
  · exact absurd h (by simp)

end Pace

namespace Walk

/-- A loop that is to call for a waiting job makes this call and no other one. -/
theorem fetches_alone (h : Walk PollLoop.step s p paces t q) (hp : p.state? = some l)
    (hphase : l.phase = .fetching .start) : callsOf (iteration paces) <+: [false] ∧
      (paces ≠ [] → callsOf (iteration paces) = [false]) := by
  have hleft := h.calls_left hp
  rw [hphase, callsLeft] at hleft
  refine ⟨hleft, fun hne => ?_⟩
  have hhead : (callsOf (iteration paces)).head? = some false := h.head_call hp hne hphase
  cases hcalls : callsOf (iteration paces) with
  | nil => simp [hcalls] at hhead
  | cons c rest => simpa [hcalls, List.cons_prefix_cons] using hleft

/-- A loop that has nothing more to call for makes no call. -/
theorem calls_eq_nil (h : Walk PollLoop.step s p paces t q) (hp : p.state? = some l)
    (hphase : callsLeft l.phase = []) : callsOf (iteration paces) = [] :=
  List.prefix_nil.mp (hphase ▸ h.calls_left hp)

/-- If no time passes in between, a loop that has made a move makes calls for expired leases at the
times when it has looked for them. -/
theorem calls_sublist_looks (h : Walk PollLoop.step m.site (m.state.step m.site).1 paces t q)
    (hseamless : Seamless PollLoop.step (m :: paces)) :
    ((paces.filter (·.call? = some true)).map Pace.nanos).Sublist
      (((m :: paces).filter Pace.looks).map Pace.nanos) := by
  induction paces generalizing m with
  | nil => exact List.nil_sublist _
  | cons next rest ih =>
    cases h with
    | cons _ hresumes hrest =>
      obtain ⟨hclock, hseamless⟩ := List.isChain_cons_cons.mp hseamless
      have hlater := ih hrest hseamless
      -- A call is made right after a look of its own, so that no look stands for two calls.
      by_cases hcall : next.call? = some true
      · obtain ⟨hlooks, hmore⟩ := Pace.looks_of_calls hresumes hcall
        have hnanos : next.nanos = m.nanos :=
          congrArg (· * Time.nanosPerMilli) (hclock _ hmore)
        rw [List.filter_cons_of_pos (by simpa using hcall), List.filter_cons_of_pos hlooks,
          List.map_cons, List.map_cons, hnanos]
        exact hlater.cons_cons _
      · rw [List.filter_cons_of_neg (by simpa using hcall)]
        have hmore := ((next :: rest).sublist_cons_self m).filter Pace.looks
        exact hlater.trans (hmore.map _)

/-- If no time passes in between, calls for expired leases are an interval apart. -/
theorem calls_apart (h : Walk PollLoop.step s p paces t q) (hp : p.state? = some l)
    (hl : l.lastScan ≤ s.nanos) (hpolls : ¬ l.Polls) (hseamless : Seamless PollLoop.step paces) :
    (paces.filter (·.call? = some true)).Pairwise fun a b =>
      a.nanos + s.timing.scanPeriod.nanos ≤ b.nanos := by
  have hlooks := h.looks_apart hp hl
  cases h with
  | nil => exact .nil
  | @cons _ _ _ _ m rest _ hresumes hrest =>
    obtain rfl := Option.some.inj (hp.symm.trans hresumes.state?)
    have hfirst : ¬ m.call? = some true := fun hcall =>
      hpolls (m.polls_of_call? (by rw [hcall]; rfl))
    rw [List.filter_cons_of_neg (by simpa using hfirst)]
    have htimes : (((m :: rest).filter Pace.looks).map Pace.nanos).Pairwise
        fun a b => a + s.timing.scanPeriod.nanos ≤ b :=
      List.pairwise_map.mpr hlooks
    have hcalls := htimes.sublist (hrest.calls_sublist_looks hseamless)
    rwa [List.pairwise_map] at hcalls

/-- A loop that is through its first delay finds it time to look for expired leases when the
interval has passed since its last look. -/
theorem scans_iff_getLast? (h : Walk PollLoop.step s p (before ++ m :: after) t q)
    (hp : p.state? = some l) (hl : l.Unstarted) (hopens : m.Opens) :
    m.scans = true ↔ m.site.store.initialized = true ∧
      ∃ z ∈ (before.filter Pace.looks).getLast?,
        z.nanos + s.timing.scanPeriod.nanos ≤ m.nanos := by
  have htiming : m.site.timing = s.timing :=
    (h.later_of_mem (List.mem_append_right _ List.mem_cons_self)).timing
  rw [Pace.scans_iff hopens, htiming]
  refine and_congr_right fun _ => ?_
  rcases h.lastScan_eq hp with ⟨-, -, hstarted⟩ | ⟨z, hz, hscan⟩
  · have hnot : ¬ m.state.Unstarted := by simp [PollLoop.Unstarted, PollLoop.AtGate, hopens.1]
    exact absurd (hstarted.mpr hl) hnot
  · have hmem : z ∈ before := (List.mem_filter.mp (List.mem_of_getLast? hz)).1
    have hlater : z.nanos ≤ m.nanos := (h.later_of_mem_before hmem).nanos
    rw [Option.mem_def] at hz
    simp only [hscan, hz, Option.mem_def, Option.some.injEq, exists_eq_left']
    omega

end Walk

end LeasedWork.Engine

namespace LeasedWork.Host

open Engine

/-- Whatever the store answers, however long jobs take and whenever the store is initialized, a loop
looks for expired leases when it is time, and only then. The settings say how many seconds apart. -/
theorem expired_leases_are_looked_for_on_time {queue : Queue} {worker : String} {slot : Nat}
    {pool : Token} {s t : Site} {q : Progress PollLoop Unit} {paces : List (Pace PollLoop)}
    (h : Walk PollLoop.step s (.more (.fresh queue worker slot pool)) paces t q) :
    ScansOnTime (.ofSeconds s.timing.scanInterval) paces := by
  have hpolls : ¬ (PollLoop.fresh queue worker slot pool).Polls := by
    rintro ⟨stage, hphase | hphase⟩ <;> simp [PollLoop.fresh] at hphase
  constructor
  case apart => exact h.looks_apart rfl (Nat.zero_le _)
  case called => exact h.calls_apart rfl (Nat.zero_le _) hpolls
  case due =>
    rintro before m after rfl hopens
    exact h.scans_iff_getLast? rfl (.inl (.inl rfl)) hopens
  case scanning =>
    rintro before m after rfl hopens hscans
    have hrest := h.rest
    obtain ⟨l, hnext, hbegins⟩ := hopens.exists_begins
    cases hbegins with
    | scan _ _ hphase =>
      have hleft := hrest.calls_left hnext
      rw [hphase] at hleft
      exact ⟨hleft, fun hne => hrest.head_call hnext hne hphase⟩
    | fetch _ hdue => exact absurd ((Pace.scans_iff hopens).mp hscans).2 hdue
    | rest hinit => simp [(Pace.scans_iff hopens).mp hscans] at hinit
  case fetching =>
    rintro before m after rfl hopens hscans hinit
    have hrest := h.rest
    obtain ⟨l, hnext, hbegins⟩ := hopens.exists_begins
    cases hbegins with
    | scan _ hdue => simp [(Pace.scans_iff hopens).mpr ⟨hinit, hdue⟩] at hscans
    | fetch _ _ hphase => exact hrest.fetches_alone hnext hphase
    | rest hinit' => simp [hinit] at hinit'
  case waiting =>
    rintro before m after rfl hopens hinit
    have hrest := h.rest
    obtain ⟨l, hnext, hbegins⟩ := hopens.exists_begins
    cases hbegins with
    | scan hinit' | fetch hinit' => simp [hinit] at hinit'
    | rest _ hphase => exact hrest.calls_eq_nil hnext (by rw [hphase, callsLeft])
  case inside =>
    rintro before c after rfl hcall
    exact h.exists_opens rfl hpolls (c.polls_of_call? hcall)
  case granted =>
    rintro before m after rfl job hscanned
    have hrest := h.rest
    obtain ⟨hphase, hasked⟩ := Pace.asked_of_scanned? hscanned
    have hphase : m.state.phase = PollLoop.calling true (.underway false) := hphase
    exact hrest.calls_eq_nil (PollLoop.state?_of_granted hphase hasked) rfl
  case refused =>
    rintro before m after rfl answer hscanned hnone
    have hrest := h.rest
    obtain ⟨hphase, hasked⟩ := Pace.asked_of_scanned? hscanned
    exact hrest.fetches_alone (PollLoop.state?_of_turned hphase hasked hnone) rfl

/-- A loop that finds the store not initialized when it is time to look for expired leases. -/
def overdue : Ensemble :=
  .lone { Timing.default with scanInterval := 10 }
    [(0, .enqueue .exports "" none 2), (0, .dequeueNow .exports "b" none), (0, .age 1 700),
      (10500, .setInitialized false), (14000, .setInitialized true)]
    (.scripted 0 "slow" [⟨[.sleep 8000], .returns (.ok "done")⟩])

def overdueTurns : List Turn :=
  [0, 1000, 9000, 10500, 11000, 13000, 14000, 15000, 23000, 25000].flatMap fun clock =>
    .pass clock :: List.replicate 4 (.go 0) ++ List.replicate 6 (.go 1) ++ [.go 2, .go 3]

/-- The first look is put off until the store is initialized and gives a job, so that no call for a
waiting job follows; after the second one such a call does. -/
theorem expired_leases_are_looked_for_on_time_overdue :
    let paces := Kind.loop.paces 1 (overdue.follow whenIdle overdueTurns).1
    (paces.filter Pace.looks).map (·.site.clock) = [1000, 15000, 25000] ∧
      paces.filterMap (fun m => m.call?.map fun expired => (m.site.clock, expired)) =
        [(1000, false), (9000, false), (15000, true), (23000, false), (25000, true),
          (25000, false)] ∧
      Seamless PollLoop.step paces ∧ ScansOnTime (.ofSeconds 10) paces := by
  intro paces
  obtain ⟨⟨t, q, hwalk⟩, hseamless⟩ := Ensemble.walk_lone overdue rfl overdueTurns
  have hscans : ScansOnTime (.ofSeconds overdue.site.timing.scanInterval) paces :=
    expired_leases_are_looked_for_on_time hwalk
  have hinterval : overdue.site.timing.scanInterval = 10 := rfl
  rw [hinterval] at hscans
  exact ⟨by decide +kernel, by decide +kernel, hseamless, hscans⟩

end LeasedWork.Host
