import LeasedWork.Proofs.Engine.Polling
import LeasedWork.Proofs.Engine.Walk

/-!
# Iterations of a loop

An iteration begins where a loop may go on at the top, and lasts until it is at the top again. The
calls that are still to come in it depend on the phase alone: a call for an expired lease may be
followed by one for a waiting job, and that by none. When a loop last looked for expired leases is
written down in it, and nothing but such a look and the end of the first delay changes that.
-/
namespace LeasedWork.Engine

open PollLoop (calling)

namespace PollLoop

/-- Whether a loop has not come to the end of its first delay. -/
def Unstarted (l : PollLoop) : Prop := l.AtGate ∨ l.phase = .delay

end PollLoop

namespace Pace

/-- The state in which a move leaves a loop that goes on. -/
def next? (m : Pace PollLoop) : Option PollLoop := (m.state.step m.site).1.state?

/-- Whether an iteration begins in a move. -/
def Opens (m : Pace PollLoop) : Prop :=
  m.state.phase = .top ∧ m.site.isCancelled m.state.pool = false

/-- Whether a loop finds that it is time to look for expired leases. -/
def scans (m : Pace PollLoop) : Bool := m.next?.any fun l => l.phase matches .scanning .start

/-- Whether a loop takes down the time of a move, as that of a look for expired leases or as the
time from which the first one counts. -/
def looks (m : Pace PollLoop) : Bool :=
  m.scans || m.next?.isSome && (m.state.phase matches .delay)

/-- The call that a loop begins in a move, if it does: for an expired lease or for a waiting job. -/
def call? (m : Pace PollLoop) : Option Bool :=
  match m.state.phase with
  | .scanning .start => some true
  | .fetching .start => some false
  | _ => none

/-- Whether a loop goes to sleep because it has found no job. -/
def rests (m : Pace PollLoop) : Bool := m.next?.any (·.isIdle)

variable {m : Pace PollLoop} {l : PollLoop}

theorem scans_eq (h : m.next? = some l) : m.scans = (l.phase matches .scanning .start) := by
  rw [scans, h, Option.any_some]

theorem rests_eq (h : m.next? = some l) : m.rests = l.isIdle := by
  rw [rests, h, Option.any_some]

theorem looks_eq (h : m.next? = some l) : m.looks =
    ((l.phase matches .scanning .start) || (m.state.phase matches .delay)) := by
  rw [looks, scans_eq h, h, Option.isSome_some, Bool.true_and]

/-- What a loop takes down of the time of a move. -/
inductive Notes (m : Pace PollLoop) (l : PollLoop) : Prop
  | starts (hlooks : m.looks = true) (hphase : m.state.Unstarted) (hstarted : ¬ l.Unstarted)
    (hscan : l.lastScan = m.nanos)
  | scans (hlooks : m.looks = true)
    (hdue : m.site.timing.scanPeriod.nanos ≤ m.nanos - m.state.lastScan)
    (hphase : ¬ m.state.Unstarted) (hstarted : ¬ l.Unstarted) (hscan : l.lastScan = m.nanos)
  | nothing (hlooks : m.looks = false) (hstarted : l.Unstarted ↔ m.state.Unstarted)
    (hscan : l.lastScan = m.state.lastScan)

theorem notes_of_next? (h : m.next? = some l) : m.Notes l := by
  have hlooks := looks_eq h
  have hcomes := m.state.comesTo_step m.site
  rw [next?] at h
  generalize (m.state.step m.site).1 = p at h hcomes
  cases hcomes with
  | ends hp => exact absurd (hp.symm.trans h) (by simp)
  | starts hphase _ _ hscan hphase' =>
    obtain rfl := Option.some.inj h
    refine .starts ?_ (.inr hphase) ?_ hscan
    · rw [hlooks, hphase, Bool.or_true]
    · simp [PollLoop.Unstarted, PollLoop.AtGate, hphase']
  | scans hphase _ _ hdue _ hscan hphase' =>
    obtain rfl := Option.some.inj h
    refine .scans ?_ hdue ?_ ?_ hscan
    · rw [hlooks, hphase', Bool.true_or]
    · simp [PollLoop.Unstarted, PollLoop.AtGate, hphase]
    · simp [PollLoop.Unstarted, PollLoop.AtGate, hphase']
  | fetches hphase _ _ _ _ hscan hphase' | skips hphase _ _ _ hscan hphase' =>
    obtain rfl := Option.some.inj h
    refine .nothing ?_ ?_ hscan
    · simp [hlooks, hphase, hphase']
    · simp [PollLoop.Unstarted, PollLoop.AtGate, hphase, hphase']
  | @calls _ expired _ hphase hp =>
    obtain rfl := Option.some.inj (hp.symm.trans h)
    refine .nothing ?_ ?_ rfl
    · cases expired <;> simp [hlooks, hphase, calling]
    · cases expired <;> simp [PollLoop.Unstarted, PollLoop.AtGate, hphase, calling]
  | @granted expired _ hphase =>
    obtain rfl := Option.some.inj h
    refine .nothing ?_ ?_ rfl
    · cases expired <;> simp [hlooks, hphase, calling]
    · cases expired <;> simp [PollLoop.Unstarted, PollLoop.AtGate, hphase, calling]
  | executes hphase _ hp =>
    obtain rfl := Option.some.inj (hp.symm.trans h)
    refine .nothing ?_ ?_ rfl
    · simp [hlooks, hphase]
    · simp [PollLoop.Unstarted, PollLoop.AtGate, hphase]
  | waits hphase | looksAgain hphase | enters hphase | turns hphase | rests hphase
  | concludes hphase | wakes hphase =>
    obtain rfl := Option.some.inj h
    refine .nothing ?_ ?_ rfl
    · simp [hlooks, hphase]
    · simp [PollLoop.Unstarted, PollLoop.AtGate, hphase]

/-- What an iteration begins with. -/
inductive Begins (m : Pace PollLoop) (l : PollLoop) : Prop
  | scan (hinit : m.site.store.initialized = true)
    (hdue : m.site.timing.scanPeriod.nanos ≤ m.nanos - m.state.lastScan)
    (hphase : l.phase = calling true .start)
  | fetch (hinit : m.site.store.initialized = true)
    (hdue : ¬ m.site.timing.scanPeriod.nanos ≤ m.nanos - m.state.lastScan)
    (hphase : l.phase = calling false .start)
  | rest (hinit : m.site.store.initialized = false) (hphase : l.phase = .idle)

theorem Opens.exists_begins (h : m.Opens) : ∃ l, m.next? = some l ∧ m.Begins l := by
  obtain ⟨htop, hpool⟩ := h
  obtain ⟨l, hnext, -⟩ := PollLoop.looksFurther_of_top htop hpool
  refine ⟨l, hnext, ?_⟩
  have hcomes := m.state.comesTo_step m.site
  generalize (m.state.step m.site).1 = p at hnext hcomes
  cases hcomes with
  | ends hp => exact absurd (hp.symm.trans hnext) (by simp)
  | scans _ _ hinit hdue _ _ hphase =>
    obtain rfl := Option.some.inj hnext
    exact .scan hinit hdue hphase
  | fetches _ _ hinit hdue _ _ hphase =>
    obtain rfl := Option.some.inj hnext
    exact .fetch hinit hdue hphase
  | skips _ _ hinit _ _ hphase =>
    obtain rfl := Option.some.inj hnext
    exact .rest hinit hphase
  | @calls _ expired _ hphase | @granted expired _ hphase =>
    cases expired <;> exact absurd (htop.symm.trans hphase) (by simp [calling])
  | waits hphase | looksAgain hphase | enters hphase | starts hphase | turns hphase | rests hphase
  | executes hphase | concludes hphase | wakes hphase =>
    exact absurd (htop.symm.trans hphase) (by simp)

/-- At the top a loop looks for expired leases just if the store is initialized and it is time. -/
theorem scans_iff (h : m.Opens) : m.scans = true ↔ m.site.store.initialized = true ∧
    m.site.timing.scanPeriod.nanos ≤ m.nanos - m.state.lastScan := by
  obtain ⟨l, hnext, hbegins⟩ := h.exists_begins
  rw [scans_eq hnext]
  cases hbegins with
  | scan hinit hdue hphase => simp [hphase, hinit, hdue, calling]
  | fetch hinit hdue hphase => simp [hphase, hdue, calling]
  | rest hinit hphase => simp [hphase, hinit]

end Pace

/-! ## Calls of an iteration -/

/-- The calls that a loop may still make in an iteration: whether they are for expired leases. -/
def callsLeft : LoopPhase → List Bool
  | .scanning .start => [true, false]
  | .scanning (.underway _) | .fetching .start => [false]
  | .fetching (.underway _) | .executing _ | .idle | .top | .gate | .gateSleep | .delay => []

/-- The moves up to the next time that a loop is at the top. -/
def iteration (paces : List (Pace PollLoop)) : List (Pace PollLoop) :=
  paces.takeWhile (!·.state.isTop)

def callsOf (paces : List (Pace PollLoop)) : List Bool := paces.filterMap Pace.call?

namespace Pace

variable {m : Pace PollLoop} {l : PollLoop}

/-- A call that is begun was left, and is not left any more. -/
theorem callsLeft_of_next? (h : m.next? = some l) (htop : m.state.isTop = false) :
    m.call?.toList ++ callsLeft l.phase <+: callsLeft m.state.phase := by
  cases (m.state.proceeds_step m.site l h).2 with
  | waits hphase hphase' =>
    rcases hphase with hphase | hphase <;> rcases hphase' with hphase' | hphase' <;>
      simp [call?, callsLeft, hphase, hphase']
  | wakes hphase _ hphase' =>
    rcases hphase with hphase | hphase <;> simp [call?, callsLeft, hphase, hphase']
  | begins hphase | skips hphase => simp [PollLoop.isTop, hphase] at htop
  | @calls expired _ hphase hphase' =>
    cases expired <;> simp [call?, callsLeft, calling, hphase, hphase']
  | @granted expired _ hphase _ hphase' =>
    cases expired <;> simp [call?, callsLeft, calling, hphase, hphase']
  | enters hphase _ hphase' | turns hphase _ _ hphase' | rests hphase _ _ hphase'
  | executes hphase _ hphase' | concludes hphase _ hphase' =>
    simp [call?, callsLeft, hphase, hphase']

/-- No call is begun that was not left. -/
theorem call?_left (m : Pace PollLoop) : m.call?.toList <+: callsLeft m.state.phase := by
  unfold call?
  split <;> simp [callsLeft, *]

end Pace

namespace Walk

variable {s t : Site} {p q : Progress PollLoop Unit} {m : Pace PollLoop} {l : PollLoop}
  {paces before after : List (Pace PollLoop)}

/-- In the rest of an iteration a loop makes no calls but those that are left, in their order. -/
theorem calls_left (h : Walk PollLoop.step s p paces t q) (hp : p.state? = some l) :
    callsOf (iteration paces) <+: callsLeft l.phase := by
  induction h generalizing l with
  | nil => exact List.nil_prefix
  | @cons s t p q m rest _ hresumes hrest ih =>
    obtain rfl := Option.some.inj (hp.symm.trans hresumes.state?)
    cases htop : m.state.isTop with
    | true => simp [iteration, callsOf, htop]
    | false =>
      have hcalls : callsOf (iteration (m :: rest)) =
          m.call?.toList ++ callsOf (iteration rest) := by
        simp [iteration, callsOf, htop, List.filterMap_cons]
        cases m.call? <;> rfl
      rw [hcalls]
      cases hnext : m.next? with
      | none =>
        rw [hrest.eq_nil hnext]
        simpa [iteration, callsOf] using m.call?_left
      | some l' =>
        have hleft := m.callsLeft_of_next? hnext htop
        exact ((List.prefix_append_right_inj _).mpr (ih hnext)).trans hleft

/-- A loop that is to begin a call does so in its next move. -/
theorem head_call (h : Walk PollLoop.step s p paces t q) (hp : p.state? = some l)
    (hne : paces ≠ []) {expired : Bool} (hphase : l.phase = calling expired .start) :
    (callsOf (iteration paces)).head? = some expired := by
  cases h with
  | nil => exact absurd rfl hne
  | @cons _ _ _ _ m rest _ hresumes _ =>
    obtain rfl := Option.some.inj (hp.symm.trans hresumes.state?)
    cases expired <;> simp [iteration, callsOf, PollLoop.isTop, Pace.call?, hphase, calling]

/-! ## Looks for expired leases -/

/-- What a loop has taken down is the time of its last look. -/
theorem lastScan_eq (h : Walk PollLoop.step s p (before ++ m :: after) t q)
    (hp : p.state? = some l) :
    (before.filter Pace.looks = [] ∧ m.state.lastScan = l.lastScan ∧
        (m.state.Unstarted ↔ l.Unstarted)) ∨
      ∃ z ∈ (before.filter Pace.looks).getLast?, m.state.lastScan = z.nanos := by
  induction before generalizing s p l with
  | nil =>
    cases h with
    | cons _ hresumes _ =>
      obtain rfl := Option.some.inj (hp.symm.trans hresumes.state?)
      exact .inl ⟨rfl, rfl, Iff.rfl⟩
  | cons b rest ih =>
    cases h with
    | cons _ hresumes hrest =>
      obtain rfl := Option.some.inj (hp.symm.trans hresumes.state?)
      obtain ⟨l', hnext⟩ := hrest.exists_state?
      have hlater := ih hrest hnext
      have hlook : b.looks = true → l'.lastScan = b.nanos →
          ∃ z ∈ ((b :: rest).filter Pace.looks).getLast?, m.state.lastScan = z.nanos := by
        intro hlooks hscan
        rw [List.filter_cons_of_pos hlooks]
        rcases hlater with ⟨hnone, hkept, -⟩ | ⟨z, hz, hscan'⟩
        · exact ⟨b, by simp [hnone], hkept.trans hscan⟩
        · exact ⟨z, by simp [List.getLast?_cons, Option.mem_def.mp hz], hscan'⟩
      cases b.notes_of_next? hnext with
      | starts hlooks _ _ hscan => exact .inr (hlook hlooks hscan)
      | scans hlooks _ _ _ hscan => exact .inr (hlook hlooks hscan)
      | nothing hlooks hstarted hscan =>
        rw [List.filter_cons_of_neg (by simp [hlooks])]
        exact hlater.imp_left fun h => ⟨h.1, h.2.1.trans hscan, h.2.2.trans hstarted⟩

end Walk

/-- Whether the next look of a loop is due at a time or later. Before the first one there is nothing
to keep. -/
def AwaitsLook (timing : Timing) (due : Nat) (s : Site) (p : Progress PollLoop Unit) : Prop :=
  s.timing = timing ∧ ∀ l, p.state? = some l → l.lastScan ≤ s.nanos ∧ (l.Unstarted → due = 0) ∧
    due ≤ l.lastScan + timing.scanPeriod.nanos

theorem AwaitsLook.step {timing : Timing} {due : Nat} {s : Site} {p : Progress PollLoop Unit}
    {m : Pace PollLoop} (h : AwaitsLook timing due s p) (hlater : s.Later m.site)
    (hresumes : p.Resumes m.site m.state) :
    if m.looks then due ≤ m.nanos ∧
      AwaitsLook timing (m.nanos + timing.scanPeriod.nanos) m.site (m.state.step m.site).1
    else AwaitsLook timing due m.site (m.state.step m.site).1 := by
  obtain ⟨hset, hstate⟩ := h
  obtain ⟨hscan, hstarted, hdue⟩ := hstate m.state hresumes.state?
  have htiming : m.site.timing = timing := hlater.timing.trans hset
  have hnanos : s.nanos ≤ m.nanos := hlater.nanos
  have hnow : m.site.nanos = m.nanos := rfl
  cases hnext : m.next? with
  | none =>
    have hlooks : m.looks = false := by simp [Pace.looks, Pace.scans, hnext]
    rw [hlooks, if_neg Bool.false_ne_true]
    exact ⟨htiming, fun l hl => absurd (hnext.symm.trans hl) (by simp)⟩
  | some l' =>
    have hafter : ∀ {due' : Nat}, (l'.lastScan ≤ m.nanos ∧ (l'.Unstarted → due' = 0) ∧
        due' ≤ l'.lastScan + timing.scanPeriod.nanos) →
        AwaitsLook timing due' m.site (m.state.step m.site).1 := by
      intro due' hl'
      refine ⟨htiming, fun l hl => ?_⟩
      obtain rfl := Option.some.inj (hnext.symm.trans hl)
      exact hl'
    cases m.notes_of_next? hnext with
    | starts hlooks hphase hstarted' hscan' =>
      rw [if_pos hlooks, hstarted hphase]
      exact ⟨Nat.zero_le _, hafter ⟨by omega, fun h => absurd h hstarted', by omega⟩⟩
    | scans hlooks hdue' hphase hstarted' hscan' =>
      rw [htiming] at hdue'
      rw [if_pos hlooks]
      exact ⟨by omega, hafter ⟨by omega, fun h => absurd h hstarted', by omega⟩⟩
    | nothing hlooks hstarted' hscan' =>
      rw [if_neg (by simp [hlooks])]
      exact hafter ⟨by omega, fun h => hstarted (hstarted'.mp h), by omega⟩

namespace Walk

variable {s t : Site} {p q : Progress PollLoop Unit} {c : Pace PollLoop} {l : PollLoop}
  {paces before after : List (Pace PollLoop)}

/-- Looks are a period apart, and the first one is a period after the end of the first delay. -/
theorem looks_apart (h : Walk PollLoop.step s p paces t q) (hp : p.state? = some l)
    (hl : l.lastScan ≤ s.nanos) : (paces.filter Pace.looks).Pairwise fun a b =>
      a.nanos + s.timing.scanPeriod.nanos ≤ b.nanos := by
  have hawaits : AwaitsLook s.timing 0 s p := by
    refine ⟨rfl, fun x hx => ?_⟩
    obtain rfl := Option.some.inj (hp.symm.trans hx)
    exact ⟨hl, fun _ => rfl, Nat.zero_le _⟩
  exact (h.apart (fun _ _ _ _ h hlater hr => h.step hlater hr) hawaits).2

/-- A loop that calls for a job has begun an iteration, and has not been at the top since. -/
theorem exists_opens (h : Walk PollLoop.step s p (before ++ c :: after) t q)
    (hp : p.state? = some l) (hl : ¬ l.Polls) (hc : c.state.Polls) :
    ∃ first m rest, before = first ++ m :: rest ∧ m.Opens ∧ ∀ x ∈ rest, x.state.isTop = false := by
  induction before using List.reverseRecOn generalizing c after with
  | nil =>
    cases h with
    | cons _ hresumes _ =>
      obtain rfl := Option.some.inj (hp.symm.trans hresumes.state?)
      exact absurd hc hl
  | append_singleton init b ih =>
    rw [List.append_assoc, List.singleton_append] at h
    have hnext : b.next? = some c.state := h.resumes.state?
    rcases (b.state.proceeds_step b.site c.state hnext).2.polls_cases hc with
      hpolls | ⟨htop, hpool, -⟩
    · obtain ⟨first, m, rest, rfl, hopens, htops⟩ := ih h hpolls
      refine ⟨first, m, rest ++ [b], by simp, hopens, ?_⟩
      intro x hx
      rcases List.mem_append.mp hx with hx | hx
      · exact htops x hx
      · obtain rfl := List.mem_singleton.mp hx
        obtain ⟨stage, hphase | hphase⟩ := hpolls <;> simp [PollLoop.isTop, hphase]
    · exact ⟨init, b, [], rfl, ⟨htop, hpool⟩, by simp⟩

end Walk

end LeasedWork.Engine
