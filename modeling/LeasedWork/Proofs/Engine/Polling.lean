import LeasedWork.Proofs.Engine.Breakdown

/-!
# The round of a loop

A loop that is let through its gate goes round: it looks around at the top, calls for an expired
lease if it is time and for a waiting job if there was none, executes what it was given, and is at
the top again. What a move comes to is said once, down to what the loop waits for and when it last
looked for expired leases; how each move leads to the next one, with what the loop has seen in it,
follows from that. The loop stays with its queue and its pool all the time.
-/
namespace LeasedWork.Engine

variable {s t : Site} {l l' : PollLoop}

namespace PollLoop

/-- Whether a loop has not been let through its gate. -/
def AtGate (l : PollLoop) : Prop := l.phase = .gate ∨ l.phase = .gateSleep

/-- Whether a loop is in the middle of a call for a job. -/
def Polls (l : PollLoop) : Prop :=
  ∃ stage, l.phase = .scanning stage ∨ l.phase = .fetching stage

/-- Whether a loop is about to begin an iteration. -/
def isTop (l : PollLoop) : Bool := l.phase matches .top

/-- Whether a loop is asleep because it has found no job. -/
def isIdle (l : PollLoop) : Bool := l.phase matches .idle

/-- The phase of a loop that calls for an expired lease or for a waiting job. -/
def calling (expired : Bool) (stage : CallStage) : LoopPhase :=
  if expired then .scanning stage else .fetching stage

/-- What the store says to the call of a loop, unless it breaks down. -/
def asked? (s : Site) (l : PollLoop) (expired : Bool) : Option (Except Refusal (Option Job)) :=
  (s.askDequeue (l.request s expired) (s.isCancelled l.pool)).1

theorem isTop_iff : l.isTop = true ↔ l.phase = .top := by
  unfold isTop
  split <;> simp_all

theorem isIdle_iff : l.isIdle = true ↔ l.phase = .idle := by
  unfold isIdle
  split <;> simp_all

theorem polls_iff : l.Polls ↔ ∃ expired stage, l.phase = calling expired stage := by
  constructor
  · rintro ⟨stage, h | h⟩
    · exact ⟨true, stage, h⟩
    · exact ⟨false, stage, h⟩
  · rintro ⟨expired, stage, h⟩
    cases expired with
    | true => exact ⟨stage, .inl h⟩
    | false => exact ⟨stage, .inr h⟩

/-- How a loop goes on in a move. -/
inductive Goes (s : Site) (l l' : PollLoop) : Prop
  /-- It goes on looking whether the storage is ready. -/
  | waits (h : l.AtGate) (h' : l'.AtGate)
  | enters (h : l.phase = .gate) (hready : s.ready = true) (h' : l'.phase = .delay)
  /-- It goes to the top after its delay or its sleep. -/
  | wakes (h : l.phase = .delay ∨ l.phase = .idle) (hpool : s.isCancelled l.pool = false)
    (h' : l'.phase = .top)
  | begins {expired : Bool} (h : l.phase = .top) (hpool : s.isCancelled l.pool = false)
    (hinit : s.store.initialized = true) (h' : l'.phase = calling expired .start)
  /-- It does not call for a job because the store is not initialized. -/
  | skips (h : l.phase = .top) (hpool : s.isCancelled l.pool = false)
    (hinit : s.store.initialized = false) (h' : l'.phase = .idle)
  | calls {expired crashes : Bool} (h : l.phase = calling expired .start)
    (h' : l'.phase = calling expired (.underway crashes))
  | granted {expired : Bool} {job : Job} (h : l.phase = calling expired (.underway false))
    (hasked : l.asked? s expired = some (.ok (some job)))
    (h' : l'.phase = .executing (.fresh job l.pool))
  /-- It has found no expired lease and calls for a waiting job. -/
  | turns {answer : Except Refusal (Option Job)} (h : l.phase = .scanning (.underway false))
    (hasked : l.asked? s true = some answer) (hnone : ∀ job, answer ≠ .ok (some job))
    (h' : l'.phase = .fetching .start)
  /-- It has found no job at all. -/
  | rests {answer : Except Refusal (Option Job)} (h : l.phase = .fetching (.underway false))
    (hasked : l.asked? s false = some answer) (hnone : ∀ job, answer ≠ .ok (some job))
    (h' : l'.phase = .idle)
  | executes {x x' : Execution} (h : l.phase = .executing x) (hgo : x.Goes s x')
    (h' : l'.phase = .executing x')
  | concludes {x : Execution} {result : ExecutionResult} (h : l.phase = .executing x)
    (hdone : (x.step s).1 = .done result) (h' : l'.phase = .top)

/-- Whether two loops differ only in what they are doing and in when they have looked around. -/
structure SameLoop (l l' : PollLoop) : Prop where
  queue : l'.queue = l.queue
  worker : l'.worker = l.worker
  slot : l'.slot = l.slot
  pool : l'.pool = l.pool

theorem SameLoop.refl (l : PollLoop) : l.SameLoop l := ⟨rfl, rfl, rfl, rfl⟩

theorem SameLoop.at (h : l.SameLoop l') (phase : LoopPhase) :
    l.SameLoop { l' with phase := phase } := ⟨h.queue, h.worker, h.slot, h.pool⟩

theorem SameLoop.of_phase (l : PollLoop) (phase : LoopPhase) :
    l.SameLoop { l with phase := phase } := (SameLoop.refl l).at phase

theorem SameLoop.trans {l₁ l₂ l₃ : PollLoop} (h : l₁.SameLoop l₂) (h' : l₂.SameLoop l₃) :
    l₁.SameLoop l₃ :=
  ⟨h'.queue.trans h.queue, h'.worker.trans h.worker, h'.slot.trans h.slot, h'.pool.trans h.pool⟩

/-- Whether a move of a loop leads where a loop can go, and nowhere else. -/
def Proceeds (s : Site) (l : PollLoop) (p : Progress PollLoop Unit) : Prop :=
  ∀ l', p.state? = some l' → l.SameLoop l' ∧ l.Goes s l'

/-- What a loop does at the top, after it has said that it is alive if it is time for that. -/
theorem exists_iterate (s : Site) (l : PollLoop) : ∃ (t : Site) (m : PollLoop), l.SameLoop m ∧
    m.lastScan = l.lastScan ∧ s.Aside t ∧ t.store = s.store ∧ iterate s l =
      if !t.store.initialized then rest t m
      else if t.timing.scanPeriod.nanos ≤ t.nanos - m.lastScan then
        (.more { m with lastScan := t.nanos, phase := .scanning .start },
          t.writeLog ⟨.debug, target, "Checking for jobs with expired leases", []⟩)
      else fetch t m := by
  unfold iterate
  by_cases halive : s.timing.alivePeriod.nanos < s.nanos - l.lastAlive
  · simp only [if_pos halive]
    exact ⟨s.writeLog (l.line .info "Worker is running"), { l with lastAlive := s.nanos },
      ⟨rfl, rfl, rfl, rfl⟩, rfl, Site.aside_writeLog _ _, rfl, rfl⟩
  · simp only [if_neg halive]
    exact ⟨s, l, .refl l, rfl, .refl s, rfl, rfl⟩

/-- What a loop does with the answer to its call. -/
def takeUp (t : Site) (l : PollLoop) (expired : Bool) (answer : Except Refusal (Option Job)) :
    Progress PollLoop Unit × Site :=
  if expired then afterScan t l answer else afterFetch t l answer

/-- A loop that calls for a job follows the call, and then takes up the answer. -/
theorem step_of_calling {expired : Bool} {stage : CallStage}
    (hphase : l.phase = calling expired stage) :
    (l.step s).1 = (s.callDequeue stage (l.request s expired) l.pool).1.within
      (fun stage => { l with phase := calling expired stage })
      fun answer => (takeUp (s.callDequeue stage (l.request s expired) l.pool).2 l expired
        answer).1 := by
  cases expired with
  | true =>
    simp only [calling, if_true] at hphase
    simp only [step, hphase]
    cases (s.callDequeue stage (l.request s true) l.pool).1 <;> rfl
  | false =>
    simp only [calling, Bool.false_eq_true, if_false] at hphase
    simp only [step, hphase]
    cases (s.callDequeue stage (l.request s false) l.pool).1 <;> rfl

/-- What comes of the call of a loop at each of its stages. -/
theorem call_stages (s : Site) (l : PollLoop) (expired : Bool) (stage : CallStage) :
    (∃ crashes, stage = .start ∧
      (s.callDequeue stage (l.request s expired) l.pool).1.state? = some (.underway crashes)) ∨
    (stage = .underway true ∧ (s.callDequeue stage (l.request s expired) l.pool).1 = .crash) ∨
    (stage = .underway false ∧ (s.callDequeue stage (l.request s expired) l.pool).1 =
      (l.asked? s expired).elim .crash .done) :=
  s.call_stages _ _ _

/-- A loop whose call is answered takes up the answer. -/
theorem step_of_asked {expired : Bool} {answer : Except Refusal (Option Job)}
    (hphase : l.phase = calling expired (.underway false))
    (hasked : l.asked? s expired = some answer) : (l.step s).1 =
      (takeUp (s.callDequeue (.underway false) (l.request s expired) l.pool).2 l expired
        answer).1 := by
  have hcall : (s.callDequeue (.underway false) (l.request s expired) l.pool).1 =
      .done answer := by
    rcases l.call_stages s expired (.underway false) with ⟨_, h, -⟩ | ⟨h, -⟩ | ⟨-, h⟩
    · exact absurd h (by simp)
    · exact absurd h (by simp)
    · rw [h, hasked]
      rfl
  rw [step_of_calling hphase, hcall]
  rfl

/-- A loop that is given a job goes on to execute it. -/
theorem state?_of_granted {expired : Bool} {job : Job}
    (hphase : l.phase = calling expired (.underway false))
    (hasked : l.asked? s expired = some (.ok (some job))) :
    (l.step s).1.state? = some { l with phase := .executing (.fresh job l.pool) } := by
  rw [step_of_asked hphase hasked]
  cases expired <;> rfl

/-- A loop that is given no expired lease goes on to call for a waiting job. -/
theorem state?_of_turned {answer : Except Refusal (Option Job)}
    (hphase : l.phase = calling true (.underway false)) (hasked : l.asked? s true = some answer)
    (hnone : ∀ job, answer ≠ .ok (some job)) :
    (l.step s).1.state? = some { l with phase := .fetching .start } := by
  rw [step_of_asked hphase hasked]
  rcases answer with refusal | (_ | job)
  · rfl
  · rfl
  · exact absurd rfl (hnone job)

/-! ## What a move comes to -/

/-- The wait of a loop that sleeps from a site on. -/
def sleep (s : Site) (l : PollLoop) (length : Time.Duration) : Wait :=
  .untilOrCancel (s.afterSleep length) l.pool

/-- What a move of a loop comes to. -/
inductive ComesTo (s : Site) (l : PollLoop) : Progress PollLoop Unit → Prop
  | ends {p : Progress PollLoop Unit} (hp : p.state? = none) : ComesTo s l p
  | waits (h : l.phase = .gate) :
    ComesTo s l (.wait (l.sleep s s.timing.readinessSleep) { l with phase := .gateSleep })
  | looksAgain (h : l.phase = .gateSleep) : ComesTo s l (.more { l with phase := .gate })
  | enters {w : Wait} (h : l.phase = .gate) (hready : s.ready = true) :
    ComesTo s l (.wait w { l with phase := .delay })
  | starts {l' : PollLoop} (h : l.phase = .delay) (hpool : s.isCancelled l.pool = false)
      (hl : l.SameLoop l') (hscan : l'.lastScan = s.nanos) (h' : l'.phase = .top) :
    ComesTo s l (.more l')
  | scans {l' : PollLoop} (h : l.phase = .top) (hpool : s.isCancelled l.pool = false)
      (hinit : s.store.initialized = true)
      (hdue : s.timing.scanPeriod.nanos ≤ s.nanos - l.lastScan) (hl : l.SameLoop l')
      (hscan : l'.lastScan = s.nanos) (h' : l'.phase = .scanning .start) : ComesTo s l (.more l')
  | fetches {l' : PollLoop} (h : l.phase = .top) (hpool : s.isCancelled l.pool = false)
      (hinit : s.store.initialized = true)
      (hdue : ¬ s.timing.scanPeriod.nanos ≤ s.nanos - l.lastScan) (hl : l.SameLoop l')
      (hscan : l'.lastScan = l.lastScan) (h' : l'.phase = .fetching .start) : ComesTo s l (.more l')
  | skips {l' : PollLoop} (h : l.phase = .top) (hpool : s.isCancelled l.pool = false)
      (hinit : s.store.initialized = false) (hl : l.SameLoop l')
      (hscan : l'.lastScan = l.lastScan) (h' : l'.phase = .idle) :
    ComesTo s l (.wait (l.sleep s s.timing.idleSleep) l')
  | calls {p : Progress PollLoop Unit} {expired crashes : Bool}
      (h : l.phase = calling expired .start)
      (hp : p.state? = some { l with phase := calling expired (.underway crashes) }) : ComesTo s l p
  | granted {expired : Bool} {job : Job} (h : l.phase = calling expired (.underway false))
      (hasked : l.asked? s expired = some (.ok (some job))) :
    ComesTo s l (.more { l with phase := .executing (.fresh job l.pool) })
  | turns {answer : Except Refusal (Option Job)} (h : l.phase = .scanning (.underway false))
      (hasked : l.asked? s true = some answer) (hnone : ∀ job, answer ≠ .ok (some job)) :
    ComesTo s l (.more { l with phase := .fetching .start })
  | rests {answer : Except Refusal (Option Job)} (h : l.phase = .fetching (.underway false))
      (hasked : l.asked? s false = some answer) (hnone : ∀ job, answer ≠ .ok (some job)) :
    ComesTo s l (.wait (l.sleep s s.timing.idleSleep) { l with phase := .idle })
  | executes {p : Progress PollLoop Unit} {x x' : Execution} (h : l.phase = .executing x)
      (hx : (x.step s).1.state? = some x')
      (hp : p.state? = some { l with phase := .executing x' }) : ComesTo s l p
  | concludes {x : Execution} {result : ExecutionResult} (h : l.phase = .executing x)
      (hdone : (x.step s).1 = .done result) : ComesTo s l (.more { l with phase := .top })
  | wakes (h : l.phase = .idle) (hpool : s.isCancelled l.pool = false) :
    ComesTo s l (.more { l with phase := .top })

theorem sleep_congr {m : PollLoop} (length : Time.Duration) (hclock : t.clock = s.clock)
    (htimer : t.timer = s.timer) (hpool : m.pool = l.pool) :
    m.sleep t length = l.sleep s length := by
  simp only [sleep, Site.afterSleep, Site.after, Site.nanos, hclock, htimer, hpool]

theorem comesTo_passGate (hphase : l.phase = .gate) : l.ComesTo s (passGate s l).1 := by
  unfold passGate
  split
  · exact .ends rfl
  · split
    · rename_i hready
      rw [Bool.and_eq_true] at hready
      exact .enters hphase hready.1
    · exact .waits (s := s) hphase

theorem comesTo_iterate (hphase : l.phase = .top) (hpool : s.isCancelled l.pool = false) :
    l.ComesTo s (iterate s l).1 := by
  obtain ⟨t, m, hm, hscan, haside, hstore, hiterate⟩ := exists_iterate s l
  have hnanos : t.nanos = s.nanos := congrArg (· * Time.nanosPerMilli) haside.clock
  rw [hiterate, hstore, haside.timing, hnanos, hscan]
  split
  · rename_i hinit
    have hsleep := sleep_congr t.timing.idleSleep haside.clock haside.timer hm.pool
    rw [rest, ← sleep, hsleep, haside.timing]
    exact .skips hphase hpool (by simpa using hinit) (hm.at _) hscan rfl
  · rename_i hinit
    have hinit : s.store.initialized = true := by simpa using hinit
    split
    · rename_i hdue
      exact .scans hphase hpool hinit hdue ⟨hm.queue, hm.worker, hm.slot, hm.pool⟩ rfl rfl
    · rename_i hdue
      exact .fetches hphase hpool hinit hdue (hm.at _) hscan rfl

/-- What a loop makes of the answer to its call, at the same time and with the same settings. -/
theorem comesTo_takeUp {expired : Bool} {answer : Except Refusal (Option Job)}
    (hclock : t.clock = s.clock) (halike : s.SetAlike t)
    (hphase : l.phase = calling expired (.underway false))
    (hasked : l.asked? s expired = some answer) : l.ComesTo s (takeUp t l expired answer).1 := by
  have hsleep : l.sleep t t.timing.idleSleep = l.sleep s s.timing.idleSleep := by
    rw [sleep_congr _ hclock halike.timer rfl, halike.timing]
  cases expired with
  | true =>
    rcases answer with refusal | (_ | job)
    · exact .turns hphase hasked (by simp)
    · exact .turns hphase hasked (by simp)
    · exact .granted hphase hasked
  | false =>
    rcases answer with refusal | (_ | job)
    · have hrest := ComesTo.rests (s := s) hphase hasked (by simp)
      rwa [← hsleep] at hrest
    · have hrest := ComesTo.rests (s := s) hphase hasked (by simp)
      rwa [← hsleep] at hrest
    · exact .granted hphase hasked

theorem comesTo_calling (expired : Bool) {stage : CallStage}
    (hphase : l.phase = calling expired stage) : l.ComesTo s (l.step s).1 := by
  rw [step_of_calling hphase]
  have haside := s.aside_callDequeue stage (l.request s expired) l.pool
  have hclock := haside.clock.trans (s.clock_onAll _)
  have halike := (s.setAlike_onAll _).trans haside.setAlike
  rcases l.call_stages s expired stage with ⟨crashes, rfl, hcall⟩ | ⟨-, hcall⟩ | ⟨rfl, hcall⟩
  · refine .calls hphase (?_ : _ = some { l with phase := calling expired (.underway crashes) })
    cases hp : (s.callDequeue .start (l.request s expired) l.pool).1 with
    | more stage | wait w stage =>
      rw [hp] at hcall
      obtain rfl := Option.some.inj hcall
      rfl
    | _ => simp [hp, Progress.state?] at hcall
  · rw [hcall]
    exact .ends rfl
  · rw [hcall]
    cases hasked : l.asked? s expired with
    | none => exact .ends rfl
    | some answer => exact comesTo_takeUp hclock halike hphase hasked

theorem comesTo_executing {x : Execution} (hphase : l.phase = .executing x) :
    l.ComesTo s (l.step s).1 := by
  rw [step_of_executing s hphase]
  cases hp : (x.step s).1 with
  | more x' => exact .executes hphase (congrArg Progress.state? hp) rfl
  | wait w x' => exact .executes hphase (congrArg Progress.state? hp) rfl
  | done result => exact .concludes hphase hp
  | crash => exact .ends rfl

/-- Every move of a loop comes to one of the known things. -/
theorem comesTo_step (s : Site) (l : PollLoop) : l.ComesTo s (l.step s).1 := by
  cases hphase : l.phase with
  | scanning stage => exact comesTo_calling true hphase
  | fetching stage => exact comesTo_calling false hphase
  | executing x => exact comesTo_executing hphase
  | gate =>
    simp only [step, hphase]
    exact comesTo_passGate hphase
  | gateSleep =>
    simp only [step, hphase]
    split
    · exact .ends rfl
    · exact .looksAgain hphase
  | delay =>
    simp only [step, hphase]
    split
    · exact .ends rfl
    · rename_i hpool
      exact .starts hphase (by simpa using hpool) ⟨rfl, rfl, rfl, rfl⟩ rfl rfl
  | top =>
    simp only [step, hphase]
    split
    · exact .ends rfl
    · rename_i hpool
      exact comesTo_iterate hphase (by simpa using hpool)
  | idle =>
    simp only [step, hphase]
    split
    · exact .ends rfl
    · rename_i hpool
      exact .wakes hphase (by simpa using hpool)

namespace ComesTo

variable {p : Progress PollLoop Unit} (h : l.ComesTo s p) (hp : p.state? = some l')

include h hp

/-- A loop is asleep for lack of a job only when it has just gone to sleep. -/
theorem of_idle (hidle : l'.phase = .idle) :
    p = .wait (l.sleep s s.timing.idleSleep) l' ∧ l.SameLoop l' := by
  cases h with
  | skips _ _ _ hl =>
    obtain rfl := Option.some.inj hp
    exact ⟨rfl, hl⟩
  | rests =>
    obtain rfl := Option.some.inj hp
    exact ⟨rfl, .of_phase l _⟩
  | ends hend => exact absurd (hend.symm.trans hp) (by simp)
  | starts _ _ _ _ h' | scans _ _ _ _ _ _ h' | fetches _ _ _ _ _ _ h' =>
    obtain rfl := Option.some.inj hp
    exact absurd (h'.symm.trans hidle) (by simp)
  | @calls _ expired _ _ hcall =>
    obtain rfl := Option.some.inj (hcall.symm.trans hp)
    cases expired <;> simp [calling] at hidle
  | executes _ _ hgo =>
    obtain rfl := Option.some.inj (hgo.symm.trans hp)
    simp at hidle
  | waits | looksAgain | enters | granted | turns | concludes | wakes =>
    obtain rfl := Option.some.inj hp
    simp at hidle

/-- A loop that is to call for an expired lease does so without waiting. -/
theorem of_scanning (hphase : l'.phase = .scanning .start) : p = .more l' := by
  cases h with
  | scans => rw [Option.some.inj hp]
  | ends hend => exact absurd (hend.symm.trans hp) (by simp)
  | starts _ _ _ _ h' | fetches _ _ _ _ _ _ h' | skips _ _ _ _ _ h' =>
    obtain rfl := Option.some.inj hp
    exact absurd (h'.symm.trans hphase) (by simp)
  | @calls _ expired _ _ hcall =>
    obtain rfl := Option.some.inj (hcall.symm.trans hp)
    cases expired <;> simp [calling] at hphase
  | executes _ _ hgo =>
    obtain rfl := Option.some.inj (hgo.symm.trans hp)
    simp at hphase
  | waits | looksAgain | enters | granted | turns | rests | concludes | wakes =>
    obtain rfl := Option.some.inj hp
    simp at hphase

/-- A loop at its gate goes to sleep, or is let through. -/
theorem of_gate (hgate : l.phase = .gate) :
    p = .wait (l.sleep s s.timing.readinessSleep) { l with phase := .gateSleep } ∨
      ¬ l'.AtGate := by
  cases h with
  | waits => exact .inl rfl
  | enters =>
    obtain rfl := Option.some.inj hp
    exact .inr (by simp [AtGate])
  | ends hend => exact absurd (hend.symm.trans hp) (by simp)
  | @calls _ expired _ hphase | @granted expired _ hphase =>
    cases expired <;> exact absurd (hgate.symm.trans hphase) (by simp [calling])
  | looksAgain hphase | starts hphase | scans hphase | fetches hphase | skips hphase
  | turns hphase | rests hphase | executes hphase | concludes hphase | wakes hphase =>
    exact absurd (hgate.symm.trans hphase) (by simp)

end ComesTo

/-- A loop goes on in one of the known ways. -/
theorem proceeds_step (s : Site) (l : PollLoop) : l.Proceeds s (l.step s).1 := by
  intro l' h
  have hcomes := l.comesTo_step s
  generalize (l.step s).1 = p at h hcomes
  cases hcomes with
  | ends hp => exact absurd (hp.symm.trans h) (by simp)
  | waits hphase =>
    obtain rfl := Option.some.inj h
    exact ⟨.of_phase l _, .waits (.inl hphase) (.inr rfl)⟩
  | looksAgain hphase =>
    obtain rfl := Option.some.inj h
    exact ⟨.of_phase l _, .waits (.inr hphase) (.inl rfl)⟩
  | enters hphase hready =>
    obtain rfl := Option.some.inj h
    exact ⟨.of_phase l _, .enters hphase hready rfl⟩
  | starts hphase hpool hl hscan hphase' =>
    obtain rfl := Option.some.inj h
    exact ⟨hl, .wakes (.inl hphase) hpool hphase'⟩
  | scans hphase hpool hinit hdue hl hscan hphase' =>
    obtain rfl := Option.some.inj h
    exact ⟨hl, .begins hphase hpool hinit (show _ = calling true .start from hphase')⟩
  | fetches hphase hpool hinit hdue hl hscan hphase' =>
    obtain rfl := Option.some.inj h
    exact ⟨hl, .begins hphase hpool hinit (show _ = calling false .start from hphase')⟩
  | skips hphase hpool hinit hl hscan hphase' =>
    obtain rfl := Option.some.inj h
    exact ⟨hl, .skips hphase hpool hinit hphase'⟩
  | calls hphase hp =>
    obtain rfl := Option.some.inj (hp.symm.trans h)
    exact ⟨.of_phase l _, .calls hphase rfl⟩
  | granted hphase hasked =>
    obtain rfl := Option.some.inj h
    exact ⟨.of_phase l _, .granted hphase hasked rfl⟩
  | turns hphase hasked hnone =>
    obtain rfl := Option.some.inj h
    exact ⟨.of_phase l _, .turns hphase hasked hnone rfl⟩
  | rests hphase hasked hnone =>
    obtain rfl := Option.some.inj h
    exact ⟨.of_phase l _, .rests hphase hasked hnone rfl⟩
  | executes hphase hx hp =>
    obtain rfl := Option.some.inj (hp.symm.trans h)
    exact ⟨.of_phase l _, .executes hphase (Execution.goes_of_state? hx) rfl⟩
  | concludes hphase hdone =>
    obtain rfl := Option.some.inj h
    exact ⟨.of_phase l _, .concludes hphase hdone rfl⟩
  | wakes hphase hpool =>
    obtain rfl := Option.some.inj h
    exact ⟨.of_phase l _, .wakes (.inr hphase) hpool rfl⟩

/-- A loop that calls for a job did so before, or has just begun its iteration. -/
theorem Goes.polls_cases (h : l.Goes s l') (hpolls : l'.Polls) :
    l.Polls ∨ l.phase = .top ∧ s.isCancelled l.pool = false ∧ s.store.initialized = true := by
  have hnot : ∀ phase, l'.phase = phase → (∀ stage, phase ≠ .scanning stage ∧
      phase ≠ .fetching stage) → False := by
    rintro phase rfl hne
    obtain ⟨stage, hphase | hphase⟩ := hpolls
    · exact (hne stage).1 hphase
    · exact (hne stage).2 hphase
  cases h with
  | begins h hpool hinit => exact .inr ⟨h, hpool, hinit⟩
  | calls h => exact .inl (polls_iff.mpr ⟨_, _, h⟩)
  | turns h => exact .inl ⟨_, .inl h⟩
  | waits _ h' => rcases h' with h' | h' <;> exact (hnot _ h' (by simp)).elim
  | enters _ _ h' | wakes _ _ h' | skips _ _ _ h' | granted _ _ h' | rests _ _ _ h'
  | executes _ _ h' | concludes _ _ h' => exact (hnot _ h' (by simp)).elim

/-- A loop does not go back to its gate. -/
theorem Goes.atGate (h : l.Goes s l') (hgate : l'.AtGate) : l.AtGate := by
  cases h with
  | waits h => exact h
  | @begins expired _ _ _ h' | @calls expired _ _ h' =>
    cases expired <;> simp [AtGate, calling, h'] at hgate
  | enters _ _ h' | wakes _ _ h' | skips _ _ _ h' | granted _ _ h' | turns _ _ _ h'
  | rests _ _ _ h' | executes _ _ h' | concludes _ _ h' => simp [AtGate, h'] at hgate

/-- A loop that neither calls for a job nor executes one ends when its pool is cancelled. -/
theorem step_of_cancelled (hpool : s.isCancelled l.pool = true) (hpolls : ¬ l.Polls)
    (hidle : ∀ x, l.phase ≠ .executing x) : (l.step s).1 = .done () := by
  unfold step
  cases hphase : l.phase with
  | scanning stage => exact absurd ⟨stage, .inl hphase⟩ hpolls
  | fetching stage => exact absurd ⟨stage, .inr hphase⟩ hpolls
  | executing x => exact absurd hphase (hidle x)
  | gate => simp only [passGate, if_pos hpool, leaveGate]
  | _ => simp only [if_pos hpool, leaveGate]

end PollLoop

end LeasedWork.Engine
