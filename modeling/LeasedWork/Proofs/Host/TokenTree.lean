import LeasedWork.Proofs.Host.Guarding
import LeasedWork.Proofs.Host.Reach

/-!
# The tree of tokens

The tokens in use form a tree. Those of the caller, of the service and of pools have others below
them; those of executions have none. It stays so because every new token has a number that no other
one has, and is made below a token that others live under. A task cancels such a token only if it was
given it to ask for shutdown by, or watches the fleet that lives under it.
-/
namespace LeasedWork

/-! ## Paths -/

/-- A token that covers a new one below another covers the other, or is the new one. -/
theorem Token.covers_child_iff {c parent u : Token} {n : Nat} (hu : u.path = parent.path ++ [n]) :
    c.covers u = true ↔ c.covers parent = true ∨ c = u := by
  rw [covers_iff, hu, List.prefix_concat_iff, ← covers_iff, or_comm, ← hu]
  cases c
  cases u
  simp

/-- Whether every number on the path of a token was given out. -/
def Tokens.Knows (ts : Tokens) (t : Token) : Prop := ∀ n ∈ t.path, n < ts.next

namespace Tokens

variable {ts us : Tokens} {t parent : Token}

theorem Knows.made (h : ts.Knows t) : ts.Made t := fun n hn => h n (List.mem_of_getLast? hn)

theorem Knows.of_le (h : ts.Knows t) (hle : ts.next ≤ us.next) : us.Knows t :=
  fun n hn => Nat.lt_of_lt_of_le (h n hn) hle

theorem mem_cancelled_cancel {k : Token} (h : k ∈ (ts.cancel t).cancelled) :
    k ∈ ts.cancelled ∨ k = t := by
  unfold cancel at h
  split at h
  · exact .inl h
  · exact (List.mem_cons.mp h).symm

theorem mem_cancelled_abandon {k : Token} (h : k ∈ (ts.abandon t).2.cancelled) :
    k ∈ ts.cancelled ∨ k = t := by
  unfold abandon at h
  split at h
  · exact mem_cancelled_cancel h
  · rcases mem_cancelled_cancel h with hk | hk
    · exact .inl hk
    · exact .inr hk

theorem cancelled_release (ts : Tokens) (t : Token) : (ts.release t).cancelled = ts.cancelled := by
  unfold release
  split <;> simp only [cancelled_detach]

end Tokens

namespace Engine

variable {s : Site} {t : Site} {deeds : List Deed} {x : Execution} {k parent : Token} {d : Deed}

theorem Site.knows_newToken (h : s.tokens.Knows parent)
    (hmade : t.tokens.Made (s.newToken parent)) : t.tokens.Knows (s.newToken parent) := by
  have hnext : s.tokens.next < t.tokens.next :=
    (Tokens.made_child_iff s.tokens t.tokens parent).mp hmade
  intro n hn
  have hpath : (s.newToken parent).path = parent.path ++ [s.tokens.next] := rfl
  rw [hpath] at hn
  rcases List.mem_append.mp hn with hn | hn
  · exact Nat.lt_trans (h n hn) hnext
  · exact List.mem_singleton.mp hn ▸ hnext

theorem Site.isCancelled_of_child {n : Nat} (hk : k.path = parent.path ++ [n])
    (h : s.isCancelled parent = true) : s.isCancelled k = true := by
  simp only [isCancelled, Tokens.isCancelled, List.any_eq_true] at h ⊢
  obtain ⟨c, hc, hcovers⟩ := h
  exact ⟨c, hc, (Token.covers_child_iff hk).mpr (.inl hcovers)⟩

theorem Deed.mem_cancelled_on (h : k ∈ (d.on s).tokens.cancelled) :
    k ∈ s.tokens.cancelled ∨ d = .cancel k ∨ d = .abandon k := by
  cases d with
  | cancel t =>
    rcases Tokens.mem_cancelled_cancel h with h | rfl
    · exact .inl h
    · exact .inr (.inl rfl)
  | abandon t =>
    rcases Tokens.mem_cancelled_abandon h with h | rfl
    · exact .inl h
    · exact .inr (.inr rfl)
  | release t =>
    have hsame : ((Deed.release t).on s).tokens.cancelled = s.tokens.cancelled :=
      Tokens.cancelled_release s.tokens t
    exact .inl (hsame ▸ h)
  | _ => exact .inl h

/-- Only what is cancelled or abandoned is noted as cancelled. -/
theorem Deed.mem_cancelled_onAll (h : k ∈ (onAll s deeds).tokens.cancelled) :
    k ∈ s.tokens.cancelled ∨ .cancel k ∈ deeds ∨ .abandon k ∈ deeds := by
  induction deeds generalizing s with
  | nil => exact .inl h
  | cons d rest ih =>
    rcases ih h with h | h
    · rcases mem_cancelled_on h with h | rfl | rfl
      · exact .inl h
      · exact .inr (.inl List.mem_cons_self)
      · exact .inr (.inr List.mem_cons_self)
    · exact .inr (h.imp (List.mem_cons_of_mem _) (List.mem_cons_of_mem _))

/-! ## Who cancels -/

theorem Site.shutdown_of_cancel {action : Action} (h : .cancel k ∈ s.actDeeds action) :
    k = s.shutdown := by
  rcases mem_actDeeds h with h | ⟨-, h⟩ | ⟨op, h, -⟩
  · exact absurd h (by simp)
  · exact Deed.cancel.inj h
  · exact absurd h (by simp)

theorem cancel_not_mem_deedsOfStage {α : Type} {stage : CallStage} {answer : Option α}
    {op : Operation} : .cancel k ∉ Site.deedsOfStage stage answer op := by
  intro h
  obtain ⟨-, -, h⟩ := mem_deedsOfStage h
  exact absurd h (by simp)

/-- An execution cancels nothing but the token of the surroundings, when its handler asks for it. -/
theorem Execution.shutdown_of_cancel (h : .cancel k ∈ x.deeds s) : k = s.shutdown := by
  unfold deeds at h
  split at h
  · unfold beginDeeds at h
    dsimp only at h
    split at h
    · cases x.job.cancelRequested <;> simp at h
    · simp at h
  · rcases List.mem_append.mp h with h | h
    · unfold Invocation.deeds at h
      split at h
      · have hshutdown : k = (x.inSpan s).shutdown := Site.shutdown_of_cancel h
        exact hshutdown
      · exact absurd h List.not_mem_nil
    · split at h
      · unfold decideDeeds at h
        split at h <;> simp at h
      · exact absurd h List.not_mem_nil
  · rcases List.mem_append.mp h with h | h
    · exact absurd h cancel_not_mem_deedsOfStage
    · split at h <;> simp at h

/-- Beginning an execution cancels at most the token of the execution. -/
theorem Execution.eq_abandon_of_begun (hphase : x.phase = .fresh)
    (hh : (s.registry.handler? x.job).isSome = true) (hd : d ∈ x.deeds s) (hk : d.Cancels k) :
    d = .abandon (s.newToken x.shutdown) := by
  rw [deeds_of_begun s hphase hh] at hd
  simp only [List.cons_append, List.nil_append, List.mem_cons, List.mem_append, List.not_mem_nil,
    or_false] at hd
  obtain rfl | rfl | hd | rfl | rfl := hd
  · exact hk.elim
  · exact hk.elim
  · split at hd
    · exact List.mem_singleton.mp hd
    · exact absurd hd List.not_mem_nil
  · exact hk.elim
  · exact hk.elim

theorem Heartbeat.eq_abandon {h : Heartbeat} (hd : d ∈ h.deeds s) (hk : d.Cancels k) :
    d = .abandon h.execution := by
  unfold deeds at hd
  split at hd
  · exact absurd hd List.not_mem_nil
  · exact absurd hd List.not_mem_nil
  · rcases List.mem_append.mp hd with hd | hd
    · obtain ⟨-, -, rfl⟩ := mem_deedsOfStage hd
      exact hk.elim
    · split at hd
      · exact List.mem_singleton.mp hd
      · obtain rfl := List.mem_singleton.mp hd
        exact hk.elim
      · exact absurd hd List.not_mem_nil
  · obtain rfl := List.mem_singleton.mp hd
    exact hk.elim

/-- A fleet cancels its own token. -/
theorem Fleet.scope_of_cancel {f : Fleet} (h : .cancel k ∈ f.deeds s) :
    (∃ id ∈ f.running, s.hasEnded id = true) ∧ f.scope = k := by
  obtain ⟨hended, -⟩ := Fleet.cancels_cases h (Tokens.covers_refl k)
  unfold deeds at h
  split at h
  · exact absurd h List.not_mem_nil
  · exact ⟨hended, (Deed.cancel.inj (List.mem_singleton.mp h)).symm⟩

/-! ## What stays -/

theorem Pool.shutdown_of_state? {p p' : Pool} (h : (p.step s).1.state? = some p') :
    p'.shutdown = p.shutdown := by
  simp only [step, Site.within] at h
  cases hphase : p.phase with
  | fresh =>
    simp only [hphase] at h
    obtain rfl := Option.some.inj h
    rfl
  | watching loops =>
    simp only [hphase] at h
    cases hp : (loops.step { s with span := some p.span }).1 with
    | more =>
      simp only [hp] at h
      obtain rfl := Option.some.inj h
      rfl
    | wait =>
      simp only [hp] at h
      obtain rfl := Option.some.inj h
      rfl
    | _ => simp [hp, Progress.state?] at h

theorem Service.shutdown_of_state? {v v' : Service} (h : (v.step s).1.state? = some v') :
    v'.shutdown = v.shutdown := by
  unfold step at h
  cases hphase : v.phase with
  | fresh =>
    simp only [hphase] at h
    split at h
    · simp [Progress.state?] at h
    · obtain rfl := Option.some.inj h
      rfl
  | waiting =>
    simp only [hphase] at h
    split at h
    · simp [Progress.state?] at h
    · obtain rfl := Option.some.inj h
      rfl
  | watching pools =>
    simp only [hphase] at h
    cases hp : (pools.step s).1 with
    | more =>
      simp only [hp] at h
      obtain rfl := Option.some.inj h
      rfl
    | wait =>
      simp only [hp] at h
      obtain rfl := Option.some.inj h
      rfl
    | _ => simp [hp, Progress.state?] at h

end Engine

namespace Host

open Engine

variable {lapse : Ensemble → Nat → Prop} {start sys next : Ensemble} {history : List Move}
  {m : Move} {a b : Activity} {s : Site} {t t' : Task} {f : Fleet} {ids : List TaskId}
  {k u parent : Token} {d : Deed}

/-- Why a task cancels a token for its own sake. -/
inductive Task.Closes (s : Site) (t : Task) (k : Token) : Prop
  | shutdown (hk : k = s.shutdown)
  | fleet {f : Fleet} (hf : t.fleet? = some f) (hk : f.scope = k)
      (hended : ∃ id ∈ f.running, s.hasEnded id = true)
  | conductor {c : Conductor} (ht : t = .conductor c) (hk : c.token = k)

theorem Task.closes_of_fleet (hf : t.fleet? = some f) (h : .cancel k ∈ f.deeds s) :
    t.Closes s k := by
  obtain ⟨hended, hk⟩ := Fleet.scope_of_cancel h
  exact .fleet hf hk hended

theorem Task.closes_of_conductor {c : Conductor} (h : .cancel k ∈ c.deeds s) :
    (Task.conductor c).Closes s k := by
  suffices hk : k = c.token from .conductor rfl hk.symm
  unfold Conductor.deeds at h
  split at h
  · simp at h
  · split at h
    · exact absurd h List.not_mem_nil
    · split at h
      · exact Deed.cancel.inj (List.mem_singleton.mp h)
      · exact absurd h List.not_mem_nil
  · split at h
    · exact Deed.cancel.inj (List.mem_singleton.mp h)
    · exact absurd h List.not_mem_nil
  · exact absurd h List.not_mem_nil
  · exact absurd h List.not_mem_nil

theorem Task.closes_of_cancel (h : .cancel k ∈ t.deeds s) : t.Closes s k := by
  cases t with
  | heartbeat b =>
    have heq := Heartbeat.eq_abandon h (Tokens.covers_refl k)
    exact absurd heq (by simp)
  | loop l =>
    cases hphase : l.phase with
    | executing x =>
      simp only [deeds, PollLoop.deeds, hphase] at h
      exact .shutdown (Execution.shutdown_of_cancel h)
    | scanning stage =>
      simp only [deeds, PollLoop.deeds, hphase] at h
      exact absurd h cancel_not_mem_deedsOfStage
    | fetching stage =>
      simp only [deeds, PollLoop.deeds, hphase] at h
      exact absurd h cancel_not_mem_deedsOfStage
    | _ => simp [deeds, PollLoop.deeds, hphase] at h
  | pool p =>
    cases hphase : p.phase with
    | fresh => simp [deeds, Pool.deeds, hphase] at h
    | watching loops =>
      simp only [deeds, Pool.deeds, hphase] at h
      rcases List.mem_append.mp h with h | h
      · exact closes_of_fleet (by simp only [fleet?, hphase]) h
      · split at h <;> simp at h
  | service v =>
    cases hphase : v.phase with
    | fresh => simp [deeds, Service.deeds, hphase] at h
    | waiting =>
      simp only [deeds, Service.deeds, hphase] at h
      split at h <;> simp at h
    | watching pools =>
      simp only [deeds, Service.deeds, hphase] at h
      exact closes_of_fleet (by simp only [fleet?, hphase]) h
  | timeline l =>
    simp only [deeds, Timeline.deeds] at h
    split at h
    · exact absurd h List.not_mem_nil
    · rename_i action _ _
      split at h
      · have hk : k = (s.note (.action action.name)).shutdown := Site.shutdown_of_cancel h
        exact .shutdown hk
      · exact absurd h List.not_mem_nil
  | listener l => exact absurd h List.not_mem_nil
  | eventLog l => exact absurd h List.not_mem_nil
  | runs r =>
    simp only [deeds, Runs.deeds] at h
    split at h
    · exact absurd h List.not_mem_nil
    · split at h
      · exact absurd h List.not_mem_nil
      · rcases List.mem_append.mp h with h | h
        · split at h
          · exact .shutdown (Deed.cancel.inj (List.mem_singleton.mp h))
          · exact absurd h List.not_mem_nil
        · obtain ⟨-, h⟩ := mem_deedsOfCall h
          exact absurd h (by simp)
      · split at h
        · exact .shutdown (Execution.shutdown_of_cancel h)
        · unfold Execution.dropDeeds at h
          split at h <;> simp at h
  | conductor c => exact closes_of_conductor h
  | watch w =>
    simp only [deeds, Watch.deeds] at h
    split at h
    · exact absurd h List.not_mem_nil
    · rename_i action _ _
      split at h
      · cases action with
        | act action => exact .shutdown (Site.shutdown_of_cancel h)
        | _ => simp [Watch.actionDeeds] at h
      · exact absurd h List.not_mem_nil

theorem Watch.eq_abandon {w : Watch} (h : .abandon u ∈ w.deeds s) (hd : d ∈ w.deeds s) :
    d = .abandon u := by
  unfold Watch.deeds at h
  split at h
  · exact absurd h List.not_mem_nil
  · rename_i time action rest hpending
    split at h
    · rename_i hdue
      simp only [Watch.deeds, hpending, if_pos hdue] at hd
      cases action with
      | act action => rcases mem_actDeeds h with h | ⟨-, h⟩ | ⟨op, h, -⟩ <;> exact absurd h (by simp)
      | abandon =>
        rw [List.mem_singleton.mp h]
        exact List.mem_singleton.mp hd
      | _ => simp [Watch.actionDeeds] at h
    · exact absurd h List.not_mem_nil

/-- Who abandons an execution cancels nothing else in the same move. -/
theorem Task.eq_abandon (h : .abandon u ∈ t.deeds s) (hd : d ∈ t.deeds s) (hk : d.Cancels k) :
    d = .abandon u := by
  have horigin := Task.origin_of_mem_deeds t.within_trivial h
  cases horigin with
  | beatAbandon ht =>
    subst ht
    exact Heartbeat.eq_abandon hd hk
  | beginAbandon hx hphase hh =>
    rw [deeds_of_acting? hx] at hd
    exact Execution.eq_abandon_of_begun hphase hh hd hk
  | watchAbandon ht =>
    subst ht
    exact Watch.eq_abandon h hd

/-! ## Tokens in use -/

/-- Whether a task lives under a token, or has others live under it. -/
inductive Task.HasScope (t : Task) (k : Token) : Prop
  | loop {l : PollLoop} (ht : t = .loop l) (hk : l.pool = k)
  | pool {p : Pool} (ht : t = .pool p) (hk : p.shutdown = k)
  | service {v : Service} (ht : t = .service v) (hk : v.shutdown = k)
  | conductor {c : Conductor} (ht : t = .conductor c) (hk : c.token = k)
  | fleet {f : Fleet} (hf : t.fleet? = some f) (hk : f.scope = k)
  | execution {x : Execution} (hx : t.execution? = some x) (hk : x.shutdown = k)

/-- Whether a task runs an execution under a token, or may abandon the one that runs under it. -/
inductive Task.HasExecution (t : Task) (k : Token) : Prop
  | runs {x : Execution} (hx : t.execution? = some x) (hk : x.token? = some k)
  | beats {h : Heartbeat} (ht : t = .heartbeat h) (hk : h.execution = k)
  | watches {w : Watch} (ht : t = .watch w) (hk : w.execution = k)

/-- Whether a token is that of a pool, of the service or of the caller. -/
def Ensemble.IsScope (sys : Ensemble) (k : Token) : Prop :=
  k = sys.site.shutdown ∨ ∃ a ∈ sys.activities, a.task.HasScope k

/-- Whether a token is that of an execution. -/
def Ensemble.IsExecution (sys : Ensemble) (k : Token) : Prop :=
  ∃ a ∈ sys.activities, a.task.HasExecution k

/-! ## Tokens in use after a move -/

theorem Conductor.token_of_state? {c c' : Conductor} (h : (c.step s).1.state? = some c') :
    c'.token = c.token := by
  unfold step at h
  split at h
  · obtain rfl := Option.some.inj h
    rfl
  · dsimp only at h
    split at h
    · split at h
      · obtain rfl := Option.some.inj h
        rfl
      · split at h <;> obtain rfl := Option.some.inj h <;> rfl
    · split at h <;> obtain rfl := Option.some.inj h <;> rfl
  · split at h <;> obtain rfl := Option.some.inj h <;> rfl
  · split at h <;> obtain rfl := Option.some.inj h <;> rfl
  · obtain rfl := Option.some.inj h
    rfl

/-- What a run executes lives under the token of the surroundings. -/
theorem Runs.shutdown_of_begin {r r' : Runs} {plan : RunPlan} {x : Execution} {wait : Option Wait}
    {deadline : Option Nat} (h : (r.begin s plan).1.state? = some r')
    (hx : r'.phase = .executing x wait deadline) : x.shutdown = s.shutdown := by
  have hasked := (Site.aside_askDequeue (plan.opened s) plan.request false).shutdown
  rw [(Site.setAlike_onAll _ _).shutdown] at hasked
  have hopened : (plan.opened s).shutdown = s.shutdown := by
    unfold RunPlan.opened
    split <;> rfl
  simp only [Runs.begin] at h
  split at h
  · simp [Progress.state?] at h
  · obtain rfl := Option.some.inj h
    simp at hx
  · obtain rfl := Option.some.inj h
    simp only [RunsPhase.executing.injEq] at hx
    rw [← hx.1]
    exact hasked.trans hopened

theorem Task.scope_of_execution? {x' : Execution} (h : (t.step s).1.state? = some t')
    (hx : t'.execution? = some x') : t.HasScope x'.shutdown ∨ x'.shutdown = s.shutdown := by
  rcases execution_cases h hx with ⟨x, hacting, hgo⟩ | ⟨hsame, -⟩ | ⟨job, k, hfresh, hobtains⟩
  · exact .inl (.execution (execution?_of_acting? hacting) hgo.job_eq.2.symm)
  · exact .inl (.execution hsame rfl)
  · cases hobtains with
    | @loop l expired ht hphase hasked =>
      subst ht
      obtain ⟨l', hl, rfl⟩ : ∃ l', (l.step s).1.state? = some l' ∧ Task.loop l' = t' :=
        state?_within h
      simp only [execution?] at hx
      split at hx
      · rename_i hexecuting
        obtain rfl := Option.some.inj hx
        rcases executing_of_loop hl hexecuting with ⟨x, hx, -⟩ | ⟨-, job, hjob, -⟩
        · cases expired <;> simp [hphase] at hx
        · rw [hjob]
          exact .inl (.loop rfl rfl)
      · exact absurd hx (by simp)
    | @runs r plan rest found ht hpending hphase hasked hjob =>
      subst ht
      obtain ⟨r', hr, rfl⟩ : ∃ r', (r.step s).1.state? = some r' ∧ Task.runs r' = t' :=
        state?_within h
      simp only [execution?] at hx
      split at hx
      · rename_i hexecuting
        obtain rfl := Option.some.inj hx
        simp only [Runs.step, hpending, hphase] at hr
        exact .inr (Runs.shutdown_of_begin hr hexecuting)
      · exact absurd hx (by simp)

/-- A task goes on to live under the tokens that it has, unless it opens a fleet. -/
theorem Task.HasScope.of_state? (hs : s.starting = []) (h : (t.step s).1.state? = some t')
    (hk : t'.HasScope k) : t.HasScope k ∨ k = s.shutdown ∨
      ∃ parent, t.OpensFleet s parent ∧ k = s.newToken parent := by
  cases hk with
  | @loop l' ht hk =>
    subst ht
    cases t with
    | loop l =>
      obtain ⟨_, hl, heq⟩ : ∃ l', (l.step s).1.state? = some l' ∧ Task.loop l' = _ := state?_within h
      obtain rfl := Task.loop.inj heq
      exact .inl (.loop rfl ((PollLoop.pool_of_state? hl).symm.trans hk))
    | _ =>
      obtain ⟨_, -, heq⟩ := state?_within h
      exact absurd heq (by simp)
  | @pool p' ht hk =>
    subst ht
    cases t with
    | pool p =>
      obtain ⟨_, hp, heq⟩ : ∃ p', (p.step s).1.state? = some p' ∧ Task.pool p' = _ := state?_within h
      obtain rfl := Task.pool.inj heq
      exact .inl (.pool rfl ((Pool.shutdown_of_state? hp).symm.trans hk))
    | _ =>
      obtain ⟨_, -, heq⟩ := state?_within h
      exact absurd heq (by simp)
  | @service v' ht hk =>
    subst ht
    cases t with
    | service v =>
      obtain ⟨_, hv, heq⟩ : ∃ v', (v.step s).1.state? = some v' ∧ Task.service v' = _ :=
        state?_within h
      obtain rfl := Task.service.inj heq
      exact .inl (.service rfl ((Service.shutdown_of_state? hv).symm.trans hk))
    | _ =>
      obtain ⟨_, -, heq⟩ := state?_within h
      exact absurd heq (by simp)
  | @conductor c' ht hk =>
    subst ht
    cases t with
    | conductor c =>
      obtain ⟨_, hc, heq⟩ : ∃ c', (c.step s).1.state? = some c' ∧ Task.conductor c' = _ :=
        state?_within h
      obtain rfl := Task.conductor.inj heq
      exact .inl (.conductor rfl ((Conductor.token_of_state? hc).symm.trans hk))
    | _ =>
      obtain ⟨_, -, heq⟩ := state?_within h
      exact absurd heq (by simp)
  | fleet hf hk =>
    rcases fleet_cases hs h hf with ⟨g, hg, hscope, -⟩ | ⟨parent, hopens, hscope⟩
    · exact .inl (.fleet hg (hscope.symm.trans hk))
    · exact .inr (.inr ⟨parent, hopens, hk.symm.trans hscope⟩)
  | execution hx hk =>
    rcases scope_of_execution? h hx with hscope | hshutdown
    · exact .inl (hk ▸ hscope)
    · exact .inr (.inl (hk.symm.trans hshutdown))

theorem Task.HasScope.of_stop (h : t.stop.HasScope k) : t.HasScope k := by
  cases t with
  | heartbeat b =>
    cases h with
    | fleet hf => simp [Task.stop, Task.fleet?] at hf
    | execution hx => simp [Task.stop, Task.execution?] at hx
    | _ ht => simp [Task.stop] at ht
  | _ => exact h

/-- What is started lives under the token of a fleet that is opened, or under that of the
conductor. -/
theorem Task.scope_of_spawn {word : Start} (h : .spawn word ∈ t.deeds s)
    (hk : (Task.ofStart word).HasScope k) :
    t.HasScope k ∨ ∃ parent, t.OpensFleet s parent ∧ k = s.newToken parent := by
  have hnone : ∀ word : Start, (Task.ofStart word).fleet? = none ∧
      (Task.ofStart word).execution? = none := by
    intro word
    cases word <;> exact ⟨rfl, rfl⟩
  have hgiven : (∃ l, Task.ofStart word = .loop l ∧ l.pool = k) ∨
      (∃ p, Task.ofStart word = .pool p ∧ p.shutdown = k) ∨
      ∃ v, Task.ofStart word = .service v ∧ v.shutdown = k := by
    cases hk with
    | loop ht hk => exact .inl ⟨_, ht, hk⟩
    | pool ht hk => exact .inr (.inl ⟨_, ht, hk⟩)
    | service ht hk => exact .inr (.inr ⟨_, ht, hk⟩)
    | conductor ht => cases word <;> simp [Task.ofStart] at ht
    | fleet hf => simp [hnone] at hf
    | execution hx => simp [hnone] at hx
  cases Task.origin_of_mem_deeds t.within_trivial h with
  | @spawnLoop q slot ht hphase =>
    simp only [Task.ofStart, Task.loop.injEq, reduceCtorEq, false_and, exists_false, or_false,
      exists_eq_left'] at hgiven
    exact .inr ⟨q.shutdown, .pool ht hphase rfl, hgiven.symm⟩
  | @spawnPool v hosted ht hphase hready =>
    simp only [Task.ofStart, Task.pool.injEq, reduceCtorEq, false_and, exists_false, or_false,
      false_or, exists_eq_left'] at hgiven
    exact .inr ⟨v.shutdown, .service ht hphase hready rfl, hgiven.symm⟩
  | @spawnHosting c ht hphase =>
    left
    unfold Conductor.task at hgiven
    split at hgiven
    · simp only [Task.ofStart, Task.pool.injEq, reduceCtorEq, false_and, exists_false, or_false,
        false_or, exists_eq_left'] at hgiven
      exact .conductor ht hgiven
    · simp only [Task.ofStart, Task.service.injEq, reduceCtorEq, false_and, exists_false, false_or,
        exists_eq_left'] at hgiven
      exact .conductor ht hgiven
  | beats => simp [Execution.beats, Task.ofStart] at hgiven

namespace Ensemble

/-- A token that others live under after a move was one before, or that of a fleet that the move has
opened. -/
theorem Sound.scope_move (hs : sys.Sound) (ha : a ∈ sys.activities)
    (hk : (sys.move a).IsScope k) : sys.IsScope k ∨
      ∃ parent, a.task.OpensFleet sys.site parent ∧ k = sys.site.newToken parent := by
  rcases hk with hk | ⟨b, hb, hk⟩
  · exact .inl (.inl (hk.trans (sys.setAlike_move a).shutdown))
  revert k
  refine hs.tasks_move (Q := fun t => ∀ {k}, t.HasScope k → sys.IsScope k ∨
    ∃ parent, a.task.OpensFleet sys.site parent ∧ k = sys.site.newToken parent)
    (fun t ht k hk => ht hk.of_stop) (fun b hb _ k hk => .inl (.inr ⟨b, hb, hk⟩))
    (fun t ht k hk => ?_) (fun word hword k hk => ?_) b hb
  · rcases hk.of_state? hs.starting ht with hk | hk | hk
    · exact .inl (.inr ⟨a, ha, hk⟩)
    · exact .inl (.inl hk)
    · exact .inr hk
  · have hspawn := Move.spawn_of_starting (m := ⟨sys, a⟩) hs hword
    exact (Task.scope_of_spawn hspawn hk).imp_left fun hk => .inr ⟨a, ha, hk⟩

/-- The token of an execution after a move was that of one before, or the execution is begun in the
move. -/
theorem Sound.isExecution_move (hs : sys.Sound) (ha : a ∈ sys.activities)
    (hk : (sys.move a).IsExecution k) :
    sys.IsExecution k ∨ ∃ x, Move.Begins ⟨sys, a⟩ x k := by
  obtain ⟨b, hb, hk⟩ := hk
  cases hk with
  | @runs x' hx' hk =>
    rcases hs.execution_move hb hx' with
      ⟨c, hc, -, -, hx⟩ | ⟨-, ⟨x, hx, hgo⟩ | ⟨hx, -⟩ | ⟨job, k, rfl, -⟩⟩
    · exact .inl ⟨c, hc, .runs hx hk⟩
    · rcases hgo.token?_eq with ⟨hphase, hh, hnew⟩ | hsame
      · exact .inr ⟨x, hx, hphase, hh, Option.some.inj (hnew.symm.trans hk)⟩
      · exact .inl ⟨a, ha, .runs (Task.execution?_of_acting? hx) (hsame ▸ hk)⟩
    · exact .inl ⟨a, ha, .runs hx hk⟩
    · exact absurd hk (by simp [Execution.fresh, Execution.token?])
  | @beats h ht hk =>
    rcases hs.heartbeat_move ha hb ht with ⟨c, hc, g, hg, -, he⟩ | ⟨x, hx, hphase, hh, -, he⟩
    · exact .inl ⟨c, hc, .beats hg (he.symm.trans hk)⟩
    · exact .inr ⟨x, hx, hphase, hh, he.symm.trans hk⟩
  | @watches w ht hk =>
    obtain ⟨c, hc, v, hv, he, -⟩ := hs.watch_move ha hb ht
    exact .inl ⟨c, hc, .watches hv (he.symm.trans hk)⟩

end Ensemble

theorem Task.OpensFleet.hasScope (h : t.OpensFleet s parent) : t.HasScope parent := by
  cases h with
  | pool ht _ hk => exact .pool ht hk
  | service ht _ _ hk => exact .service ht hk

theorem Task.OpensFleet.child_mem (h : t.OpensFleet s parent) : .child parent ∈ t.deeds s := by
  cases h with
  | pool ht hphase hk =>
    subst ht hk
    simp [Task.deeds, Pool.deeds, hphase]
  | service ht hphase hready hk =>
    subst ht hk
    simp [Task.deeds, Service.deeds, hphase, hready]

/-- Who opens a fleet executes nothing. -/
theorem Task.OpensFleet.not_acting {x : Execution} (h : t.OpensFleet s parent)
    (hx : t.acting? s = some x) : False := by
  cases h with
  | pool ht =>
    subst ht
    exact absurd hx (by simp [Task.acting?])
  | service ht =>
    subst ht
    exact absurd hx (by simp [Task.acting?])

theorem isExecution_of_abandon (ha : a ∈ sys.activities) (h : .abandon k ∈ a.task.deeds sys.site) :
    sys.IsExecution k ∨ ∃ x, Move.Begins ⟨sys, a⟩ x k := by
  cases Task.origin_of_mem_deeds a.task.within_trivial h with
  | beatAbandon ht => exact .inl ⟨a, ha, .beats ht rfl⟩
  | beginAbandon hx hphase hh => exact .inr ⟨_, hx, hphase, hh, rfl⟩
  | watchAbandon ht => exact .inl ⟨a, ha, .watches ht rfl⟩

/-! ## The tree of tokens -/

/-- Whether all tokens of an ensemble were made on its site, and nothing lives under the token of an
execution, be it the token of another execution or one that others live under. -/
structure Ensemble.Rooted (sys : Ensemble) : Prop where
  cancelled : ∀ k ∈ sys.site.tokens.cancelled, sys.site.tokens.Knows k
  scopes : ∀ k, sys.IsScope k → sys.site.tokens.Knows k
  executions : ∀ k, sys.IsExecution k → sys.site.tokens.Knows k
  leaves : ∀ k u, sys.IsExecution k → sys.IsScope u → k.covers u = false
  apart : ∀ k u, sys.IsExecution k → sys.IsExecution u → k.covers u = true → u = k

namespace Ensemble

/-- An execution is begun under a token that others live under. -/
theorem isScope_of_begins {x : Execution} (ha : a ∈ sys.activities)
    (h : Move.Begins ⟨sys, a⟩ x k) : sys.IsScope x.shutdown :=
  .inr ⟨a, ha, .execution h.execution rfl⟩

theorem isScope_of_opensFleet (ha : a ∈ sys.activities)
    (h : a.task.OpensFleet sys.site parent) : sys.IsScope parent :=
  .inr ⟨a, ha, h.hasScope⟩

theorem Rooted.knows_of_begins {x : Execution} (h : sys.Rooted) (ha : a ∈ sys.activities)
    (hx : Move.Begins ⟨sys, a⟩ x k) : (sys.move a).site.tokens.Knows k := by
  obtain rfl := hx.token
  exact Site.knows_newToken (h.scopes _ (isScope_of_begins ha hx)) hx.not_made.2

theorem Rooted.knows_of_opensFleet (h : sys.Rooted) (ha : a ∈ sys.activities)
    (hopens : a.task.OpensFleet sys.site parent) :
    (sys.move a).site.tokens.Knows (sys.site.newToken parent) :=
  Site.knows_newToken (h.scopes parent (isScope_of_opensFleet ha hopens))
    (Move.made_newToken (m := ⟨sys, a⟩) hopens.child_mem).2

/-- The token of an execution does not cover what is made below a token that others live under, unless
it is that very token. -/
theorem Rooted.eq_newToken_of_covers (h : sys.Rooted) (hk : sys.IsExecution k)
    (hparent : sys.IsScope parent) (hcovers : k.covers (sys.site.newToken parent) = true) :
    k = sys.site.newToken parent := by
  refine ((Token.covers_child_iff rfl).mp hcovers).resolve_left fun hcovers => ?_
  exact absurd ((h.leaves k parent hk hparent).symm.trans hcovers) (by simp)

theorem Rooted.leaves_move (h : sys.Rooted) (hs : sys.Sound) (ha : a ∈ sys.activities)
    (hk : (sys.move a).IsExecution k) (hu : (sys.move a).IsScope u) : k.covers u = false := by
  rcases hs.isExecution_move ha hk with hk | ⟨x, hbegins⟩
  · rcases hs.scope_move ha hu with hu | ⟨parent, hopens, rfl⟩
    · exact h.leaves k u hk hu
    · rw [Bool.eq_false_iff]
      intro hcovers
      obtain rfl := h.eq_newToken_of_covers hk (isScope_of_opensFleet ha hopens) hcovers
      exact (Move.made_newToken (m := ⟨sys, a⟩) hopens.child_mem).1 (h.executions _ hk).made
  · rcases hs.scope_move ha hu with hu | ⟨parent, hopens, rfl⟩
    · exact Token.not_covers_of_not_made hbegins.not_made.1 (h.scopes u hu)
    · exact (hopens.not_acting hbegins.acts).elim

theorem Rooted.apart_move (h : sys.Rooted) (hs : sys.Sound) (ha : a ∈ sys.activities)
    (hk : (sys.move a).IsExecution k) (hu : (sys.move a).IsExecution u)
    (hcovers : k.covers u = true) : u = k := by
  rcases hs.isExecution_move ha hk with hk | ⟨x, hbegins⟩
  · rcases hs.isExecution_move ha hu with hu | ⟨y, hy⟩
    · exact h.apart k u hk hu hcovers
    · obtain rfl := hy.token
      exact (h.eq_newToken_of_covers hk (isScope_of_begins ha hy) hcovers).symm
  · rcases hs.isExecution_move ha hu with hu | ⟨y, hy⟩
    · rw [Token.not_covers_of_not_made hbegins.not_made.1 (h.executions u hu)] at hcovers
      exact absurd hcovers (by simp)
    · obtain rfl := Option.some.inj (hbegins.acts.symm.trans hy.acts)
      exact hy.token.symm.trans hbegins.token

theorem Rooted.cancelled_move (h : sys.Rooted) (ha : a ∈ sys.activities)
    (hk : k ∈ (sys.move a).site.tokens.cancelled) : (sys.move a).site.tokens.Knows k := by
  have hkeep : ∀ {t}, sys.site.tokens.Knows t → (sys.move a).site.tokens.Knows t :=
    fun ht => ht.of_le (Move.next_le_after ⟨sys, a⟩)
  have htokens : (sys.move a).site.tokens = (Deed.onAll sys.site (a.task.deeds sys.site)).tokens :=
    Move.tokens_after ⟨sys, a⟩
  rw [htokens] at hk
  rcases Deed.mem_cancelled_onAll hk with hk | hk | hk
  · exact hkeep (h.cancelled k hk)
  · cases Task.closes_of_cancel hk with
    | shutdown hk => exact hkeep (h.scopes k (.inl hk))
    | fleet hf hk => exact hkeep (h.scopes k (.inr ⟨a, ha, .fleet hf hk⟩))
    | conductor ht hk => exact hkeep (h.scopes k (.inr ⟨a, ha, .conductor ht hk⟩))
  · rcases isExecution_of_abandon ha hk with hk | ⟨x, hbegins⟩
    · exact hkeep (h.executions k hk)
    · exact h.knows_of_begins ha hbegins

theorem Rooted.move (h : sys.Rooted) (hs : sys.Sound) (ha : a ∈ sys.activities) :
    (sys.move a).Rooted := by
  have hkeep : ∀ {t}, sys.site.tokens.Knows t → (sys.move a).site.tokens.Knows t :=
    fun ht => ht.of_le (Move.next_le_after ⟨sys, a⟩)
  constructor
  case cancelled => exact fun k hk => h.cancelled_move ha hk
  case scopes =>
    intro k hk
    rcases hs.scope_move ha hk with hk | ⟨parent, hopens, rfl⟩
    · exact hkeep (h.scopes k hk)
    · exact h.knows_of_opensFleet ha hopens
  case executions =>
    intro k hk
    rcases hs.isExecution_move ha hk with hk | ⟨x, hbegins⟩
    · exact hkeep (h.executions k hk)
    · exact h.knows_of_begins ha hbegins
  case leaves => exact fun k u hk hu => h.leaves_move hs ha hk hu
  case apart => exact fun k u hk hu hcovers => h.apart_move hs ha hk hu hcovers

end Ensemble

theorem Pause.isScope (hp : Pause lapse sys next) (h : next.IsScope k) : sys.IsScope k := by
  obtain ⟨clock, -, hsite⟩ := hp.site_eq
  rcases h with h | ⟨b, hb, hk⟩
  · rw [hsite] at h
    exact .inl h
  · obtain ⟨c, hc, -, htask⟩ := hp.exists_task hb
    exact .inr ⟨c, hc, htask ▸ hk⟩

theorem Pause.isExecution (hp : Pause lapse sys next) (h : next.IsExecution k) :
    sys.IsExecution k := by
  obtain ⟨b, hb, hk⟩ := h
  obtain ⟨c, hc, -, htask⟩ := hp.exists_task hb
  exact ⟨c, hc, htask ▸ hk⟩

theorem Ensemble.Rooted.pause (h : sys.Rooted) (hp : Pause lapse sys next) : next.Rooted := by
  have htokens : next.site.tokens = sys.site.tokens := by
    obtain ⟨clock, -, hsite⟩ := hp.site_eq
    rw [hsite]
  constructor
  case cancelled => exact htokens ▸ h.cancelled
  case scopes => exact fun k hk => htokens ▸ h.scopes k (hp.isScope hk)
  case executions => exact fun k hk => htokens ▸ h.executions k (hp.isExecution hk)
  case leaves => exact fun k u hk hu => h.leaves k u (hp.isExecution hk) (hp.isScope hu)
  case apart => exact fun k u hk hu => h.apart k u (hp.isExecution hk) (hp.isExecution hu)

/-- The tree stays a tree, whoever moves. -/
theorem Interleaving.rooted (h : Interleaving lapse start history sys) (hs : start.Sound)
    (hr : start.Rooted) : sys.Rooted := by
  induction h with
  | nil => exact hr
  | move h ha _ ih => exact ih.move (h.sound hs) ha
  | pause _ hp ih => exact ih.pause hp

/-! ## Where a tree begins -/

theorem Ensemble.rooted_ofSite (hcancelled : s.tokens.cancelled = [])
    (hshutdown : s.tokens.Knows s.shutdown) : (Ensemble.ofSite s).Rooted := by
  have hnone : ∀ k, ¬ (Ensemble.ofSite s).IsExecution k :=
    fun k ⟨_, hb, _⟩ => absurd hb List.not_mem_nil
  constructor
  case cancelled => exact fun k hk => absurd (hcancelled ▸ hk) List.not_mem_nil
  case scopes =>
    rintro k (rfl | ⟨b, hb, -⟩)
    · exact hshutdown
    · exact absurd hb List.not_mem_nil
  case executions => exact fun k hk => absurd hk (hnone k)
  case leaves => exact fun k u hk => absurd hk (hnone k)
  case apart => exact fun k u hk => absurd hk (hnone k)

/-- A task may be added that lives under a token in use and has to do with no execution. -/
theorem Ensemble.Rooted.host (h : sys.Rooted) (hscope : ∀ k, t.HasScope k → sys.IsScope k)
    (hnone : ∀ k, ¬ t.HasExecution k) : (sys.host t).Rooted := by
  have hscopes : ∀ k, (sys.host t).IsScope k → sys.IsScope k := by
    rintro k (hk | ⟨b, hb, hk⟩)
    · exact .inl hk
    · rcases Ensemble.mem_host hb with hb | rfl
      · exact .inr ⟨b, hb, hk⟩
      · exact hscope k hk
  have hexecutions : ∀ k, (sys.host t).IsExecution k → sys.IsExecution k := by
    rintro k ⟨b, hb, hk⟩
    rcases Ensemble.mem_host hb with hb | rfl
    · exact ⟨b, hb, hk⟩
    · exact absurd hk (hnone k)
  constructor
  case cancelled => exact h.cancelled
  case scopes => exact fun k hk => h.scopes k (hscopes k hk)
  case executions => exact fun k hk => h.executions k (hexecutions k hk)
  case leaves => exact fun k u hk hu => h.leaves k u (hexecutions k hk) (hscopes u hu)
  case apart => exact fun k u hk hu => h.apart k u (hexecutions k hk) (hexecutions u hu)

end Host

end LeasedWork
