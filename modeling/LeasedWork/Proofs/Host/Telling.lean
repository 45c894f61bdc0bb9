import LeasedWork.Proofs.Host.Parallelism

/-!
# What is told in a move

Events come from pools and from executions only. An execution says first that it has begun, and one
move later on says what came of it, if it says that at all; so what has been told of a lease can be
read off the state of its execution until it ends, and off the way in which it ends after that.
-/
namespace LeasedWork

namespace Engine

variable {s : Site} {x x' : Execution} {l : PollLoop} {p p' : Pool}

/-- Deeds that send no events. -/
theorem Deed.events_eq_nil {deeds : List Deed} (h : ∀ d ∈ deeds, ∀ e, d ≠ .publish e) :
    deeds.filterMap event? = [] := by
  rw [List.filterMap_eq_nil_iff]
  intro d hd
  cases d with
  | publish e => exact absurd rfl (h _ hd e)
  | _ => rfl

theorem Site.events_deedsOfStage {α : Type} (stage : CallStage) (answer : Option α)
    (op : Operation) : (Site.deedsOfStage stage answer op).filterMap Deed.event? = [] := by
  refine Deed.events_eq_nil fun d hd e hpublish => ?_
  obtain ⟨-, -, hop⟩ := mem_deedsOfStage hd
  exact absurd (hop.symm.trans hpublish) (by simp)

/-- Handlers send no events. -/
theorem Invocation.events_deeds (s : Site) (i : Invocation) :
    (i.deeds s).filterMap Deed.event? = [] := by
  refine Deed.events_eq_nil fun d hd e hpublish => ?_
  unfold deeds at hd
  split at hd
  · rcases mem_actDeeds hd with h | ⟨-, h⟩ | ⟨op, h, -⟩ <;>
      exact absurd (h.symm.trans hpublish) (by simp)
  · exact absurd hd List.not_mem_nil

theorem Fleet.events_deeds (s : Site) (f : Fleet) : (f.deeds s).filterMap Deed.event? = [] := by
  unfold deeds
  split <;> rfl

namespace Execution

/-- What an execution that goes on has told of its job. -/
def toldSoFar (x : Execution) : List Event :=
  match x.phase with
  | .fresh => []
  | .handling _ _ _ | .finalizing _ _ _ _ _ => [.jobStarted x.job.id x.job.queue]

/-- All that is told of a job by an execution that ends in its next move. -/
inductive Account (s : Site) (x : Execution) : List Event → Prop
  /-- There is no handler for the job. -/
  | skipped (hphase : x.phase = .fresh) (hh : s.registry.handler? x.job = none) :
    Account s x [.jobSkipped x.job.id x.job.queue]
  /-- The handler has come to an outcome, and the job is left to its lease. -/
  | interrupted {i : Invocation} {k : Token} {beats : TaskId} {o : Outcome}
      (hphase : x.phase = .handling i k beats) (hi : (i.step (x.inSpan s)).1 = .done o)
      (hd : Disposition.classify o (s.tokens.isAbandoned k) (s.isCancelled x.shutdown) = none) :
    Account s x [.jobStarted x.job.id x.job.queue, .jobInterrupted x.job.id x.job.queue]
  /-- The store takes the result. -/
  | accepted {k : Token} {d : Disposition} {o : Outcome} {settlement : Settlement} {e : Event}
      (hphase : x.phase = .finalizing k d o (finalRecord x.job o d) (.underway false))
      (hanswer : (s.store.complete (finalRecord x.job o d) d.force s.now).1 = .ok settlement)
      (hevent : Event.Tells x.job d.status d.force e) :
    Account s x [.jobStarted x.job.id x.job.queue, e]
  /-- The store refuses the result. -/
  | refused {k : Token} {d : Disposition} {o : Outcome} {refusal : Refusal}
      (hphase : x.phase = .finalizing k d o (finalRecord x.job o d) (.underway false))
      (hanswer : (s.store.complete (finalRecord x.job o d) d.force s.now).1 = .error refusal) :
    Account s x [.jobStarted x.job.id x.job.queue]

/-- The events of a move in which the handler comes to its outcome. -/
theorem events_of_return {i : Invocation} {k : Token} {beats : TaskId} {o : Outcome}
    (hphase : x.phase = .handling i k beats) (ho : (i.step (x.inSpan s)).1 = .done o) :
    (x.deeds s).filterMap Deed.event? =
      match Disposition.classify o (s.tokens.isAbandoned k) (s.isCancelled x.shutdown) with
      | none => [.jobInterrupted x.job.id x.job.queue]
      | some _ => [] := by
  have htokens : ((i.step (x.inSpan s)).2.stop beats).tokens = s.tokens :=
    Invocation.tokens_of_done (s := x.inSpan s) ho
  have hcancelled : ((i.step (x.inSpan s)).2.stop beats).isCancelled x.shutdown =
      s.isCancelled x.shutdown := by
    simp only [Site.isCancelled, htokens]
  simp only [deeds, hphase, ho, List.filterMap_append, Invocation.events_deeds, decideDeeds,
    htokens, hcancelled]
  cases Disposition.classify o (s.tokens.isAbandoned k) (s.isCancelled x.shutdown) <;> rfl

/-- In a move after which it goes on, an execution tells that it has begun, or nothing. -/
theorem told_of_state? (h : (x.step s).1.state? = some x') :
    x.toldSoFar ++ (x.deeds s).filterMap Deed.event? = x'.toldSoFar := by
  cases goes_of_state? h with
  | begun hphase hh =>
    rw [deeds_of_begun s hphase (by rw [hh]; rfl)]
    simp only [toldSoFar, hphase]
    split <;> rfl
  | handles hphase hi =>
    simp only [toldSoFar, deeds, hphase, List.filterMap_append, Invocation.events_deeds]
    split
    · rename_i o ho
      exact absurd hi (by rw [ho]; simp [Progress.state?])
    · rfl
  | decided hphase hi hd =>
    rw [events_of_return hphase hi, hd]
    simp only [toldSoFar, hphase]
    rfl
  | calls hphase =>
    simp only [toldSoFar, deeds, hphase, List.filterMap_append, Site.events_deedsOfStage]
    split
    · rename_i hdone
      exact absurd (Site.callComplete_done hdone).1 (by simp)
    · rfl
    · rfl
    · rfl

/-- In the move in which it ends, an execution completes the account that it gives of its job. -/
theorem account_of_done {result : ExecutionResult} (hk : x.KeepsRecord)
    (h : (x.step s).1 = .done result) :
    x.Account s (x.toldSoFar ++ (x.deeds s).filterMap Deed.event?) := by
  cases ends_of_done h with
  | unsupported hphase hh =>
    have hnone : (x.inSpan s).registry.handler? x.job = none := hh
    simp only [toldSoFar, deeds, hphase, beginDeeds, hnone]
    exact .skipped hphase hh
  | interrupted hphase hi hd =>
    rw [events_of_return hphase hi, hd]
    simp only [toldSoFar, hphase]
    exact .interrupted hphase hi hd
  | @finalized k d o record _ hphase =>
    obtain rfl := hk _ _ _ _ _ hphase
    rw [step_of_finalizing s hphase] at h
    simp only [toldSoFar, deeds, hphase, List.filterMap_append, Site.events_deedsOfStage]
    cases hcall : ((x.inSpan s).callComplete (.underway false) (finalRecord x.job o d) d.force
        none).1 with
    | done settled =>
      have hsettled : (s.store.complete (finalRecord x.job o d) d.force s.now).1 = settled :=
        (Site.callComplete_done hcall).2
      cases settled with
      | ok settlement =>
        rw [event_finalRecord]
        exact .accepted hphase hsettled (tells_event _ _ _)
      | error refusal => exact .refused hphase hsettled
    | _ =>
      rw [hcall] at h
      exact absurd h (by simp)

theorem events_of_crash (h : (x.step s).1 = .crash) : (x.deeds s).filterMap Deed.event? = [] := by
  cases hphase : x.phase with
  | finalizing k d o record stage =>
    rw [step_of_finalizing s hphase] at h
    simp only [deeds, hphase, List.filterMap_append, Site.events_deedsOfStage]
    cases hcall : ((x.inSpan s).callComplete stage record d.force none).1 with
    | done settled =>
      rw [hcall] at h
      exact absurd h (by simp)
    | _ => rfl
  | _ => simpa [BreaksDown, hphase] using (x.step_eq_crash_iff s).mp h

theorem Account.of_mem {told : List Event} {e : Event} (h : x.Account s told) (he : e ∈ told) :
    e.job? = some x.job.id ∧ e.queue = x.job.queue := by
  cases h with
  | skipped | refused =>
    obtain rfl := List.mem_singleton.mp he
    exact ⟨rfl, rfl⟩
  | interrupted =>
    obtain rfl | rfl := List.mem_pair.mp he <;> exact ⟨rfl, rfl⟩
  | accepted _ _ hevent =>
    obtain rfl | rfl := List.mem_pair.mp he
    · exact ⟨rfl, rfl⟩
    · exact hevent.about

/-- An execution tells of its own job only. -/
theorem of_mem_told {e : Event} (hk : x.KeepsRecord)
    (he : e ∈ (x.deeds s).filterMap Deed.event?) :
    e.job? = some x.job.id ∧ e.queue = x.job.queue := by
  have hgoes : ∀ x', (x.step s).1.state? = some x' →
      e.job? = some x.job.id ∧ e.queue = x.job.queue := by
    intro x' h
    have hmem : e ∈ x'.toldSoFar := told_of_state? h ▸ List.mem_append_right _ he
    rw [← (goes_of_state? h).job_eq.1]
    unfold toldSoFar at hmem
    split at hmem
    · exact absurd hmem List.not_mem_nil
    all_goals
      obtain rfl := List.mem_singleton.mp hmem
      exact ⟨rfl, rfl⟩
  cases hp : (x.step s).1 with
  | more x' => exact hgoes x' (by rw [hp]; rfl)
  | wait w x' => exact hgoes x' (by rw [hp]; rfl)
  | done result => exact (account_of_done hk hp).of_mem (List.mem_append_right _ he)
  | crash => exact absurd (events_of_crash hp ▸ he) List.not_mem_nil

end Execution

/-- A loop that executes no job sends no events. -/
theorem PollLoop.events_of_idle (hx : ∀ x, l.phase ≠ .executing x) :
    (l.deeds s).filterMap Deed.event? = [] := by
  unfold deeds
  split
  · exact Site.events_deedsOfStage _ _ _
  · exact Site.events_deedsOfStage _ _ _
  · rename_i x hphase
    exact absurd hphase (hx x)
  all_goals rfl

theorem Pool.events_of_fresh (hphase : p.phase = .fresh) :
    (p.deeds s).filterMap Deed.event? = [.workerStarted p.queue] := by
  have hloops : ((List.range p.size).map fun slot =>
      Deed.spawn (.loop p.queue p.worker slot (s.newToken p.shutdown))).filterMap Deed.event? =
        [] := by
    refine Deed.events_eq_nil fun d hd e hpublish => ?_
    obtain ⟨slot, -, hspawn⟩ := List.mem_map.mp hd
    exact absurd (hspawn.trans hpublish) (by simp)
  simp only [deeds, hphase, List.filterMap_append, hloops]
  rfl

/-- A pool that watches its loops says that it has stopped when it ends, and nothing before. -/
theorem Pool.events_of_watching {f : Fleet} (hphase : p.phase = .watching f) :
    (f.running ≠ [] ∧ (p.deeds s).filterMap Deed.event? = [] ∧ (p.step s).1.end? = none) ∨
    (f.running = [] ∧ (p.deeds s).filterMap Deed.event? = [.workerStopped p.queue] ∧
      (p.step s).1.end? = some false) := by
  simp only [deeds, hphase, List.filterMap_append, Fleet.events_deeds, step, Site.within]
  rcases f.step_cases { s with span := some p.span } with ⟨hr, hp⟩ | ⟨_, _, -, hr, hp⟩ | ⟨-, hr, hp⟩
  · rw [hp]
    exact .inr ⟨hr, rfl, rfl⟩
  · rw [hp]
    exact .inl ⟨hr, rfl, rfl⟩
  · rw [hp]
    exact .inl ⟨hr, rfl, rfl⟩

end Engine

end LeasedWork
