import LeasedWork.Proofs.Engine.Finalization
import LeasedWork.Proofs.Engine.Polling
import Mathlib.Algebra.BigOperators.Group.List.Basic
import Mathlib.Algebra.GroupWithZero.Nat
import Mathlib.Algebra.Order.BigOperators.Group.List
import Mathlib.Algebra.Order.Group.Nat

/-!
# Handlers that return without a wait

A handler is prompt if it never sleeps and only looks around: it touches neither the store nor
tokens. If the store answers at once too, a loop that executes jobs with prompt handlers goes on
from move to move without a wait until it has found no job at all. What it still has to do is
counted here, up to there or to the next job that it is given, and every move lessens it.
-/
namespace LeasedWork.Engine

variable {s : Site} {x x' : Execution} {l l' : PollLoop}

/-! ## What prompt handlers do -/

/-- Whether an action touches neither the store nor tokens. -/
def Action.Looks (action : Action) : Prop := action ≠ .shutdown ∧ ∀ op, ¬ action.Asks op

/-- Whether a step is done at once, and only looks. -/
def Step.Prompt : Step → Prop
  | .act action => action.Looks
  | .sleep _ | .sleepOrCancel _ | .waitCancel => False

/-- Whether a handler returns without a wait and only looks before, in each of its invocations. -/
def Handler.Prompt (h : Handler) : Prop := ∀ n, ∀ step ∈ (h.turn n).steps, step.Prompt

/-- Whether an invocation will return without a wait and only look before. -/
structure Invocation.Prompt (i : Invocation) : Prop where
  ready : i.phase = .ready
  steps : ∀ step ∈ i.steps, step.Prompt

/-- Whether the handler of an execution, if it has been started, is prompt. -/
def Execution.Prompt (x : Execution) : Prop :=
  ∀ i k beats, x.phase = .handling i k beats → i.Prompt

/-- Whether all handlers of a site are prompt. -/
def Site.HandlesPromptly (s : Site) : Prop := ∀ entry ∈ s.registry.entries, entry.2.Prompt

theorem Site.actDeeds_of_looks {action : Action} (h : action.Looks) : s.actDeeds action = [] := by
  cases action with
  | shutdown => exact absurd rfl h.1
  | enqueue => exact absurd .enqueue (h.2 _)
  | requestCancel => exact absurd .requestCancel (h.2 _)
  | age => exact absurd .age (h.2 _)
  | setInitialized => exact absurd .setInitialized (h.2 _)
  | setFailing => exact absurd .setFailing (h.2 _)
  | dequeue => exact absurd .dequeue (h.2 _)
  | dequeueNow => exact absurd .dequeueNow (h.2 _)
  | heartbeat => exact absurd .heartbeat (h.2 (.heartbeat default))
  | complete => exact absurd .complete (h.2 (.complete default _))
  | _ => rfl

/-- Looking around does not break down. -/
theorem Site.act_of_looks {action : Action} (h : action.Looks) (fault : Time.DateFault) :
    (s.act action).1 ≠ .crashed fault := by
  cases action with
  | enqueue => exact absurd .enqueue (h.2 _)
  | age => exact absurd .age (h.2 _)
  | dequeue => exact absurd .dequeue (h.2 _)
  | dequeueNow => exact absurd .dequeueNow (h.2 _)
  | heartbeat => exact absurd .heartbeat (h.2 (.heartbeat default))
  | complete => exact absurd .complete (h.2 (.complete default _))
  | _ => exact nofun

/-- A prompt invocation goes on at once, or returns as its turn says. -/
theorem Invocation.step_of_prompt {i : Invocation} (h : i.Prompt) (s : Site) :
    (i.steps = [] ∧ (i.step s).1 = .done (i.ending.outcome i.job)) ∨
      ∃ step rest, i.steps = step :: rest ∧ (i.step s).1 = .more { i with steps := rest } := by
  obtain ⟨hready, hsteps⟩ := h
  unfold step
  simp only [hready]
  cases hi : i.steps with
  | nil => exact .inl ⟨rfl, rfl⟩
  | cons step rest =>
    right
    have hprompt := hsteps step (hi ▸ List.mem_cons_self)
    refine ⟨step, rest, rfl, ?_⟩
    cases step with
    | act action =>
      dsimp only
      split
      · rename_i fault _ hact
        exact absurd (congrArg Prod.fst hact) (Site.act_of_looks hprompt fault)
      · rfl
    | _ => exact absurd hprompt id

theorem Invocation.Prompt.of_state? {i i' : Invocation} (h : i.Prompt)
    (hi : (i.step s).1.state? = some i') : i'.Prompt ∧ i'.ending = i.ending := by
  rcases i.step_of_prompt h s with ⟨-, hdone⟩ | ⟨step, rest, hsteps, hmore⟩
  · rw [hdone] at hi
    exact absurd hi (by simp [Progress.state?])
  · rw [hmore] at hi
    obtain rfl := Option.some.inj hi
    exact ⟨⟨h.ready, fun step hstep => h.steps step (hsteps ▸ List.mem_cons_of_mem _ hstep)⟩, rfl⟩

/-! ## Executions -/

/-- An execution that has begun has its handler started, under a token of its own. -/
theorem Execution.started_of_fresh (hphase : x.phase = .fresh)
    (h : (x.step s).1.state? = some x') : ∃ handler t,
      s.registry.handler? x.job = some handler ∧ x'.job = x.job ∧ x'.shutdown = x.shutdown ∧
      x'.phase = .handling (Invocation.start t handler x.job (s.newToken x.shutdown)).1
        (s.newToken x.shutdown) s.nextTask := by
  rw [step_of_fresh s hphase] at h
  cases hh : s.registry.handler? x.job with
  | none =>
    rw [begin_of_no_handler hh] at h
    exact absurd h (by simp [Progress.state?])
  | some handler =>
    obtain ⟨since, t, hbegin⟩ := begin_of_handler hh
    rw [hbegin] at h
    obtain rfl := Option.some.inj h
    exact ⟨handler, t, rfl, rfl, rfl, rfl⟩

theorem Invocation.phase_start (s : Site) (handler : Handler) (job : Job) (token : Token) :
    (start s handler job token).1.phase = .ready := by
  cases handler <;> rfl

theorem Invocation.prompt_start {handler : Handler} (h : handler.Prompt) (s : Site) (job : Job)
    (token : Token) : (start s handler job token).1.Prompt := by
  refine ⟨phase_start s handler job token, fun step hstep => ?_⟩
  obtain ⟨n, hsteps⟩ := steps_start s handler job token
  exact h n step (hsteps ▸ hstep)

theorem Execution.Prompt.of_state? (hx : x.Prompt) (hs : s.HandlesPromptly)
    (h : (x.step s).1.state? = some x') : x'.Prompt := by
  intro i' k beats hphase'
  cases hphase : x.phase with
  | fresh =>
    obtain ⟨handler, t, hh, -, -, hstarted⟩ := started_of_fresh hphase h
    obtain ⟨rfl, -, -⟩ := ExecutionPhase.handling.inj (hstarted.symm.trans hphase')
    obtain ⟨key, hmem⟩ := exists_of_handler? hh
    exact Invocation.prompt_start (hs _ hmem) t x.job _
  | _ =>
    cases goes_of_state? h with
    | begun hfresh => exact absurd (hphase.symm.trans hfresh) (by simp)
    | handles hhandling hi =>
      obtain ⟨rfl, -, -⟩ := ExecutionPhase.handling.inj hphase'
      exact ((hx _ _ _ hhandling).of_state? hi).1
    | decided => exact absurd hphase' (by simp)
    | calls => exact absurd hphase' (by simp)

/-! ## What is left to do -/

/-- No turn of a handler has more steps than this. -/
def Handler.length : Handler → Nat
  | .noop => 0
  | .scripted _ _ turns => (turns.map (·.steps.length)).sum

/-- No turn of a registered handler has more steps than this. -/
def Site.longestTurn (s : Site) : Nat := (s.registry.entries.map (·.2.length)).sum

/-- How many moves an execution can still make, at most. -/
def Execution.toDo (longest : Nat) (x : Execution) : Nat :=
  match x.phase with
  | .fresh => 2 * longest + 5
  | .handling _ _ _ | .finalizing _ _ _ _ _ => x.ahead

/-- Whether a loop is past its start delay, and not asleep. -/
def PollLoop.Busy (l : PollLoop) : Prop :=
  match l.phase with
  | .gate | .gateSleep | .delay | .idle => False
  | .top | .scanning _ | .fetching _ | .executing _ => True

/-- How many moves a busy loop can still make until it rests or is given another job, at most. -/
def PollLoop.toDo (longest : Nat) (l : PollLoop) : Nat :=
  match l.phase with
  | .gate | .gateSleep | .delay | .idle => 0
  | .fetching (.underway _) => 1
  | .fetching .start => 2
  | .scanning (.underway _) => 3
  | .scanning .start => 4
  | .top => 5
  | .executing x => x.toDo longest + 5

theorem Handler.length_turn_le (handler : Handler) (n : Nat) :
    (handler.turn n).steps.length ≤ handler.length := by
  cases handler with
  | noop => exact Nat.le_refl 0
  | scripted key name turns =>
    rcases turn_cases key name turns n with hturn | hnil
    · exact List.le_sum_of_mem (List.mem_map_of_mem hturn)
    · rw [hnil]
      exact Nat.zero_le _

theorem Site.length_le_longestTurn {job : Job} {handler : Handler}
    (h : s.registry.handler? job = some handler) : handler.length ≤ s.longestTurn := by
  obtain ⟨key, hmem⟩ := exists_of_handler? h
  exact List.le_sum_of_mem (List.mem_map_of_mem hmem)

theorem Invocation.ahead_le (i : Invocation) : i.ahead ≤ 2 * i.steps.length + 1 := by
  unfold ahead
  split <;> omega

theorem Execution.toDo_pos (longest : Nat) (x : Execution) : 0 < x.toDo longest := by
  unfold toDo ahead
  split
  · omega
  · rename_i hphase
    simp only [hphase]
    omega
  · rename_i stage hphase
    cases stage <;> simp [hphase]

theorem Execution.Goes.toDo_lt (h : x.Goes s x') :
    x'.toDo s.longestTurn < x.toDo s.longestTurn := by
  cases h with
  | @begun handler i n since hphase hh hi =>
    have hturn := handler.length_turn_le n
    have hlongest := Site.length_le_longestTurn hh
    have hahead := i.ahead_le
    rw [hi] at hahead
    simp only [toDo, ahead, hphase]
    omega
  | handles hphase hi =>
    have hlt := Invocation.ahead_lt hi
    simp only [toDo, ahead, hphase]
    omega
  | decided hphase =>
    simp only [toDo, ahead, hphase]
    omega
  | calls hphase =>
    simp only [toDo, ahead, hphase]
    omega

namespace PollLoop

theorem busy_calling {expired : Bool} {stage : CallStage} (h : l.phase = calling expired stage) :
    l.Busy := by
  cases expired <;> simp [Busy, h, calling]

/-- A busy loop that does not rest is given a job, or has less to do than before. -/
theorem Goes.busy_cases (h : l.Goes s l') (hb : l.Busy) (hrest : l'.phase ≠ .idle) : l'.Busy ∧
    ((∃ expired job, l.phase = calling expired (.underway false) ∧
        l.asked? s expired = some (.ok (some job)) ∧ l'.phase = .executing (.fresh job l.pool)) ∨
      l'.toDo s.longestTurn < l.toDo s.longestTurn) := by
  cases h with
  | waits h => rcases h with h | h <;> simp [Busy, h] at hb
  | enters h => simp [Busy, h] at hb
  | wakes h => rcases h with h | h <;> simp [Busy, h] at hb
  | @begins expired h _ _ h' =>
    refine ⟨busy_calling h', .inr ?_⟩
    cases expired <;> simp [toDo, h, h', calling]
  | skips _ _ _ h' => exact absurd h' hrest
  | @calls expired crashes h h' =>
    refine ⟨busy_calling h', .inr ?_⟩
    cases expired <;> simp [toDo, h, h', calling]
  | granted h hasked h' => exact ⟨by simp [Busy, h'], .inl ⟨_, _, h, hasked, h'⟩⟩
  | turns h _ _ h' => exact ⟨by simp [Busy, h'], .inr (by simp [toDo, h, h'])⟩
  | rests _ _ _ h' => exact absurd h' hrest
  | executes h hgo h' =>
    refine ⟨by simp [Busy, h'], .inr ?_⟩
    have hlt := hgo.toDo_lt
    simp only [toDo, h, h']
    omega
  | @concludes x _ h _ h' =>
    refine ⟨by simp [Busy, h'], .inr ?_⟩
    have hpos := x.toDo_pos s.longestTurn
    simp only [toDo, h, h']
    omega

/-- A loop that has just been given a job has this much to do. -/
theorem toDo_of_granted {job : Job} {k : Token} (longest : Nat)
    (h : l.phase = .executing (.fresh job k)) : l.toDo longest = 2 * longest + 10 := by
  simp [toDo, h, Execution.toDo, Execution.fresh]

theorem toDo_pos (h : l.Busy) (longest : Nat) : 0 < l.toDo longest := by
  unfold Busy at h
  unfold toDo
  split at h <;> rename_i hphase
  all_goals first | exact absurd h id | skip
  · simp [hphase]
  · simp only [hphase]
    split <;> simp_all
  · simp only [hphase]
    split <;> simp_all
  · simp [hphase]

end PollLoop

/-! ## Calls that are answered at once -/

/-- Whether calls of the store take no time and do not break down by themselves. -/
structure Site.Swift (s : Site) : Prop where
  delays : ∀ call n, (s.faults.of call).delays.getD n (s.faults.of call).steadyDelay = 0
  crashes : ∀ call, (s.faults.of call).crashes = []

theorem Site.SetAlike.swift_iff {t : Site} (h : s.SetAlike t) : t.Swift ↔ s.Swift := by
  have hdelays := h.faults.delays
  have hsteady := h.faults.steadyDelay
  have hcrashes := h.faults.crashes
  constructor
  · rintro ⟨hd, hc⟩
    exact ⟨fun call n => by rw [← hdelays, ← hsteady]; exact hd call n,
      fun call => (hcrashes call).symm.trans (hc call)⟩
  · rintro ⟨hd, hc⟩
    exact ⟨fun call n => by rw [hdelays, hsteady]; exact hd call n,
      fun call => (hcrashes call).trans (hc call)⟩

theorem Site.Swift.call_start (hs : s.Swift) {ρ : Type} (call : Call)
    (perform : Site → Option ρ × Site) :
    (s.call call .start perform).1 = .more (.underway false) := by
  have hunbroken : (s.beginCall call).2.1 = false := by
    simp only [Site.beginCall, hs.crashes]
    rfl
  rw [s.call_start call perform (hs.delays call _), hunbroken]

/-- Whether no call of an execution is going to break down by itself. -/
def Execution.Unbroken (x : Execution) : Prop :=
  ∀ k d o record, x.phase ≠ .finalizing k d o record (.underway true)

/-- Whether no call of a loop is going to break down by itself. -/
structure PollLoop.Unbroken (l : PollLoop) : Prop where
  calls : ∀ expired, l.phase ≠ calling expired (.underway true)
  execution : ∀ x, l.phase = .executing x → x.Unbroken

/-- An execution with a prompt handler goes on at once. -/
theorem Execution.step_of_prompt (hs : s.Swift) (hx : x.Prompt)
    (h : (x.step s).1.state? = some x') : (x.step s).1 = .more x' ∧ x'.Unbroken := by
  have hswift : (x.inSpan s).Swift := ⟨hs.delays, hs.crashes⟩
  cases hphase : x.phase with
  | fresh =>
    obtain ⟨handler, t, -, -, -, hstarted⟩ := started_of_fresh hphase h
    refine ⟨?_, fun k d o record hfinal => absurd (hstarted.symm.trans hfinal) (by simp)⟩
    rw [step_of_fresh s hphase, begin] at h ⊢
    cases hh : (x.inSpan s).registry.handler? x.job with
    | none =>
      rw [hh] at h
      exact absurd h (by simp [Progress.state?])
    | some handler =>
      rw [hh] at h
      exact congrArg Progress.more (Option.some.inj h)
  | handling i k beats =>
    rcases Invocation.step_of_prompt (hx i k beats hphase) (x.inSpan s) with
      ⟨-, hdone⟩ | ⟨_, _, -, hmore⟩
    · rw [step_of_return hphase hdone] at h ⊢
      split at h
      · exact absurd h (by simp [Progress.state?])
      · obtain rfl := Option.some.inj h
        exact ⟨rfl, by simp [Unbroken]⟩
    · rw [step_of_handling s hphase, hmore] at h ⊢
      obtain rfl := Option.some.inj h
      exact ⟨rfl, by simp [Unbroken]⟩
  | finalizing k d o record stage =>
    cases stage with
    | start =>
      rw [step_of_finalizing s hphase, Site.callComplete, hswift.call_start] at h ⊢
      obtain rfl := Option.some.inj h
      exact ⟨rfl, by simp [Unbroken]⟩
    | underway crashes =>
      cases goes_of_state? h with
      | begun hfresh => exact absurd (hphase.symm.trans hfresh) (by simp)
      | handles hhandling => exact absurd (hphase.symm.trans hhandling) (by simp)
      | decided hhandling => exact absurd (hphase.symm.trans hhandling) (by simp)
      | calls hstart => exact absurd (hphase.symm.trans hstart) (by simp)

theorem Execution.not_breaksDown (hx : x.Unbroken) (hdated : s.isDated = true) :
    ¬ x.BreaksDown s := by
  unfold BreaksDown
  cases hphase : x.phase with
  | finalizing k d o record stage =>
    rintro (rfl | ⟨-, hnone⟩)
    · exact hx k d o record hphase
    · rcases s.askComplete_cases record d.force with ⟨hundated, -⟩ | ⟨hsome, -⟩
      · exact absurd (hdated.symm.trans hundated) (by simp)
      · exact absurd (hnone.symm.trans hsome) (by simp)
  | _ => exact id

namespace PollLoop

theorem asked?_ne_none (hdated : s.isDated = true) (l : PollLoop) (expired : Bool) :
    l.asked? s expired ≠ none := by
  unfold asked?
  rcases s.askDequeue_cases (l.request s expired) (s.isCancelled l.pool) with ⟨hundated, -⟩ | ⟨h, -⟩
  · exact absurd (hdated.symm.trans hundated) (by simp)
  · rw [h]
    exact Option.some_ne_none _

/-- A loop whose calls are answered ends only by its cancellation. -/
theorem not_breaksDown (hl : l.Unbroken) (hdated : s.isDated = true) : ¬ l.BreaksDown s := by
  unfold BreaksDown
  cases hphase : l.phase with
  | scanning stage =>
    rintro (rfl | ⟨-, hnone⟩)
    · exact hl.calls true hphase
    · exact l.asked?_ne_none hdated true hnone
  | fetching stage =>
    rintro (rfl | ⟨-, hnone⟩)
    · exact hl.calls false hphase
    · exact l.asked?_ne_none hdated false hnone
  | executing x => exact x.not_breaksDown (hl.execution x hphase) hdated
  | _ => exact id

theorem unbroken_of_top (h : l.phase = .top) : l.Unbroken := by
  refine ⟨fun expired => ?_, fun x => ?_⟩
  · cases expired <;> simp [h, calling]
  · simp [h]

theorem unbroken_of_calling {expired : Bool} {stage : CallStage}
    (h : l.phase = calling expired stage) (hstage : stage ≠ .underway true) : l.Unbroken := by
  refine ⟨fun expired' => ?_, fun x => ?_⟩
  · cases expired <;> cases expired' <;> simp_all [calling]
  · cases expired <;> simp [h, calling]

/-- A call of the store that leaves the loop busy is followed by the next move at once. -/
theorem step_of_swift_calling (hs : s.Swift) {expired : Bool} {stage : CallStage}
    (hphase : l.phase = calling expired stage) (h : (l.step s).1.state? = some l')
    (hb : l'.Busy) : (l.step s).1 = .more l' ∧ l'.Unbroken := by
  rw [step_of_calling hphase] at h ⊢
  rcases l.call_stages s expired stage with ⟨_, rfl, -⟩ | ⟨-, hcall⟩ | ⟨rfl, hcall⟩
  · rw [Site.callDequeue, hs.call_start] at h ⊢
    obtain rfl := Option.some.inj h
    exact ⟨rfl, unbroken_of_calling rfl (by simp)⟩
  · rw [hcall] at h
    exact absurd h (by simp [Progress.within, Progress.state?])
  · rw [hcall] at h ⊢
    cases hasked : l.asked? s expired with
    | none =>
      rw [hasked] at h
      exact absurd h (by simp [Progress.within, Progress.state?])
    | some answer =>
      rw [hasked] at h
      have hexecuting : ∀ job, PollLoop.Unbroken
          { l with phase := .executing (.fresh job l.pool) } :=
        fun job => ⟨fun expired => by cases expired <;> simp [calling],
          fun x hx => by
            obtain rfl := LoopPhase.executing.inj hx
            simp [Execution.Unbroken, Execution.fresh]⟩
      have hfetching : PollLoop.Unbroken { l with phase := .fetching .start } :=
        unbroken_of_calling (rfl : _ = calling false .start) (by simp)
      cases expired with
      | true =>
        rcases answer with refusal | (_ | job) <;> obtain rfl := Option.some.inj h
        · exact ⟨rfl, hfetching⟩
        · exact ⟨rfl, hfetching⟩
        · exact ⟨rfl, hexecuting job⟩
      | false =>
        rcases answer with refusal | (_ | job) <;> obtain rfl := Option.some.inj h
        · exact absurd hb id
        · exact absurd hb id
        · exact ⟨rfl, hexecuting job⟩

/-- A loop that is busy after a move can make the next one at once, if handlers are prompt and calls
are answered. -/
theorem step_of_swift (hs : s.Swift) (hx : ∀ x, l.phase = .executing x → x.Prompt)
    (h : (l.step s).1.state? = some l') (hb : l'.Busy) :
    (l.step s).1 = .more l' ∧ l'.Unbroken := by
  cases hphase : l.phase with
  | scanning stage =>
    exact step_of_swift_calling hs (show l.phase = calling true stage from hphase) h hb
  | fetching stage =>
    exact step_of_swift_calling hs (show l.phase = calling false stage from hphase) h hb
  | gate =>
    cases (proceeds_step s l l' h).2 with
    | waits _ h' => rcases h' with h' | h' <;> simp [Busy, h'] at hb
    | enters _ _ h' => simp [Busy, h'] at hb
    | wakes hwakes => rcases hwakes with hwakes | hwakes <;> simp [hphase] at hwakes
    | @calls expired _ hcall => cases expired <;> simp [hphase, calling] at hcall
    | @granted expired _ hcall => cases expired <;> simp [hphase, calling] at hcall
    | _ => simp_all
  | gateSleep =>
    simp only [step, hphase] at h
    split at h
    · exact absurd h (by simp [leaveGate, Progress.state?])
    · obtain rfl := Option.some.inj h
      exact absurd hb id
  | executing x =>
    simp only [step, hphase] at h ⊢
    cases hstate : (x.step s).1.state? with
    | some x' =>
      obtain ⟨hmore, hunbroken⟩ := x.step_of_prompt hs (hx x hphase) hstate
      rw [hmore] at h ⊢
      obtain rfl := Option.some.inj h
      refine ⟨rfl, fun expired => by cases expired <;> simp [calling], fun y hy => ?_⟩
      obtain rfl := LoopPhase.executing.inj hy
      exact hunbroken
    | none =>
      cases hstep : (x.step s).1 with
      | done result =>
        rw [hstep] at h
        obtain rfl := Option.some.inj h
        exact ⟨rfl, unbroken_of_top rfl⟩
      | crash =>
        rw [hstep] at h
        exact absurd h (by simp [Progress.within, Progress.state?])
      | _ => simp [hstep, Progress.state?] at hstate
  | top =>
    obtain ⟨t, m, -, -, -, -, hiterate⟩ := exists_iterate s l
    simp only [step, hphase, hiterate] at h ⊢
    cases hcancel : s.isCancelled l.pool with
    | true =>
      rw [hcancel] at h
      exact absurd h (by simp [Progress.state?])
    | false =>
      simp only [hcancel, Bool.false_eq_true, if_false] at h ⊢
      cases hinit : t.store.initialized with
      | false =>
        rw [hinit] at h
        obtain rfl := Option.some.inj h
        exact absurd hb id
      | true =>
        simp only [hinit, Bool.not_true, Bool.false_eq_true, if_false] at h ⊢
        by_cases hscan : t.timing.scanPeriod.nanos ≤ t.nanos - m.lastScan
        · rw [if_pos hscan] at h ⊢
          obtain rfl := Option.some.inj h
          exact ⟨rfl, unbroken_of_calling (rfl : _ = calling true .start) (by simp)⟩
        · rw [if_neg hscan] at h ⊢
          obtain rfl := Option.some.inj h
          exact ⟨rfl, unbroken_of_calling (rfl : _ = calling false .start) (by simp)⟩
  | _ =>
    simp only [step, hphase] at h ⊢
    cases hcancel : s.isCancelled l.pool with
    | true =>
      rw [hcancel] at h
      exact absurd h (by simp [Progress.state?])
    | false =>
      simp only [hcancel, Bool.false_eq_true, if_false] at h ⊢
      obtain rfl := Option.some.inj h
      exact ⟨rfl, unbroken_of_top rfl⟩

end PollLoop

end LeasedWork.Engine
