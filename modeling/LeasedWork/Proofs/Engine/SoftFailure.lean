import LeasedWork.Proofs.Engine.Promptness

/-!
# Soft failures

A handler may ask for its job to be tried again. If it does so in each of its invocations, and
nobody asks for the job to be cancelled, then every execution of the job ends with a soft failure
that is handed to the store.
-/
namespace LeasedWork

open Engine

/-- Whether a handler asks for its job to be tried again, in each of its invocations. -/
def Engine.Handler.FailsSoftly (h : Handler) : Prop :=
  ∀ n, ∃ error byCustomer, (h.turn n).ending = .returns (.error (.softFailed error byCustomer))

/-- Whether a job fails softly whenever it is executed: nobody asked for it to be cancelled, and its
handler fails softly. -/
structure Job.FailsSoftly (registry : Registry Handler) (job : Job) : Prop where
  spared : job.cancelRequested = false
  handled : ∃ handler, registry.handler? job = some handler ∧ handler.FailsSoftly

/-- The handler of a job depends on its queue and its definition only. -/
theorem Job.FailsSoftly.congr {registry : Registry Handler} {job job' : Job}
    (h : job.FailsSoftly registry) (hcancel : job'.cancelRequested = job.cancelRequested)
    (hqueue : job'.queue = job.queue) (hdefinition : job'.definition = job.definition) :
    job'.FailsSoftly registry := by
  obtain ⟨hspared, handler, hhandler, hfails⟩ := h
  refine ⟨hcancel.trans hspared, handler, ?_, hfails⟩
  rw [← hhandler, Registry.handler?, Job.kind?, hqueue, hdefinition]
  rfl

namespace Engine

variable {s t : Site} {x x' : Execution} {i : Invocation} {k : Token} {beats : TaskId} {o : Outcome}

/-- A handler that fails softly does so in the invocation that is started. -/
theorem Invocation.ending_start {handler : Handler} (h : handler.FailsSoftly) (s : Site) (job : Job)
    (token : Token) : ∃ error byCustomer, (start s handler job token).1.ending =
      .returns (.error (.softFailed error byCustomer)) := by
  cases handler with
  | noop =>
    obtain ⟨_, _, hending⟩ := h 0
    exact absurd hending (by simp [Handler.turn])
  | scripted key name turns => exact h (s.invocationsOf key)

/-- Whether what an execution has come to leads to a soft failure: its handler is going to fail
softly, or it was decided that it did. -/
def Execution.FailsSoftly (x : Execution) : Prop :=
  match x.phase with
  | .fresh => True
  | .handling i _ _ =>
    ∃ error byCustomer, i.ending = .returns (.error (.softFailed error byCustomer))
  | .finalizing _ d _ _ _ => d = .softFailed

namespace Execution.FailsSoftly

theorem ending_eq (h : x.FailsSoftly) (hphase : x.phase = .handling i k beats) :
    ∃ error byCustomer, i.ending = .returns (.error (.softFailed error byCustomer)) := by
  simpa only [FailsSoftly, hphase] using h

/-- What the handler comes to is a soft failure. -/
theorem outcome_eq (h : x.FailsSoftly) (hx : x.Prompt) (hphase : x.phase = .handling i k beats)
    (hi : (i.step t).1 = .done o) :
    ∃ error byCustomer, o = .error (.softFailed error byCustomer) := by
  obtain ⟨error, byCustomer, hending⟩ := h.ending_eq hphase
  refine ⟨error, byCustomer, ?_⟩
  rcases Invocation.step_of_prompt (hx i k beats hphase) t with ⟨-, hdone⟩ | ⟨_, _, -, hmore⟩
  · rw [Progress.done.inj (hi.symm.trans hdone), hending]
    rfl
  · exact absurd (hmore.symm.trans hi) (by simp)

/-- An execution that leads to a soft failure goes on to lead to it, unless it is abandoned. -/
theorem of_state? (h : x.FailsSoftly) (hx : x.Prompt) (hjob : x.job.FailsSoftly s.registry)
    (hk : ∀ k, x.token? = some k → s.tokens.isAbandoned k = false)
    (hstate : (x.step s).1.state? = some x') : x'.FailsSoftly := by
  cases goes_of_state? hstate with
  | begun hphase =>
    -- The relation does not say which invocation is begun, the step does.
    obtain ⟨handler, t, hhandler, -, -, hstarted⟩ := started_of_fresh hphase hstate
    obtain ⟨handler', hhandler', hfails⟩ := hjob.handled
    obtain rfl := Option.some.inj (hhandler.symm.trans hhandler')
    obtain ⟨rfl, -, -⟩ := ExecutionPhase.handling.inj hstarted
    exact Invocation.ending_start hfails t x.job _
  | handles hphase hi =>
    obtain ⟨error, byCustomer, hending⟩ := h.ending_eq hphase
    exact ⟨error, byCustomer, (Invocation.Prompt.of_state? (hx _ _ _ hphase) hi).2.trans hending⟩
  | @decided i k beats o d hphase hi hd =>
    obtain ⟨error, byCustomer, rfl⟩ := h.outcome_eq hx hphase hi
    rw [hk k (by simp only [token?, hphase])] at hd
    exact (Option.some.inj hd).symm
  | calls hphase => simpa only [Execution.FailsSoftly, hphase] using h

/-- An execution that leads to a soft failure ends with handing it to the store. -/
theorem of_done {result : ExecutionResult} (h : x.FailsSoftly) (hx : x.Prompt)
    (hjob : x.job.FailsSoftly s.registry) (hdone : (x.step s).1 = .done result) :
    ∃ k o record, x.phase = .finalizing k .softFailed o record (.underway false) := by
  cases ends_of_done hdone with
  | unsupported _ hnone =>
    obtain ⟨handler, hhandler, -⟩ := hjob.handled
    exact absurd (hhandler.symm.trans hnone) (by simp)
  | interrupted hphase hi hd =>
    obtain ⟨error, byCustomer, rfl⟩ := h.outcome_eq hx hphase hi
    exact absurd ((Disposition.classify_eq_none_iff _ _ _).mp hd).1 (by simp)
  | @finalized k d o record answer hphase =>
    obtain rfl : d = .softFailed := by simpa only [Execution.FailsSoftly, hphase] using h
    exact ⟨k, o, record, hphase⟩

end Execution.FailsSoftly

end Engine

end LeasedWork
