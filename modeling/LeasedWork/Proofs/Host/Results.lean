import LeasedWork.Proofs.Host.Abandonment
import LeasedWork.Proofs.Host.Outcome
import LeasedWork.Proofs.Job.Results

/-!
# Results in the store

The result that an execution hands over is that of the outcome its handler came to, and the store
keeps it as it is. A job that an execution brought to an end other than cancellation has a result,
because only a handler that was cancelled has none, and no later move changes it.
-/
namespace LeasedWork

namespace Engine

/-- Whether what was decided on an outcome follows from abandonment and shutdown. -/
def Execution.IsDecided (x : Execution) : Prop :=
  ∀ k d o record stage, x.phase = .finalizing k d o record stage →
    ∃ abandoned shutdown, Disposition.classify o abandoned shutdown = some d

theorem Execution.Goes.isDecided {s : Site} {x x' : Execution} (hgo : x.Goes s x')
    (h : x.IsDecided) : x'.IsDecided := by
  intro k d o record stage hphase
  cases hgo with
  | begun => simp at hphase
  | handles => simp at hphase
  | decided _ _ hd =>
    simp only [ExecutionPhase.finalizing.injEq] at hphase
    obtain ⟨-, rfl, rfl, -, -⟩ := hphase
    exact ⟨_, _, hd⟩
  | calls hx =>
    simp only [ExecutionPhase.finalizing.injEq] at hphase
    obtain ⟨rfl, rfl, rfl, rfl, -⟩ := hphase
    exact h _ _ _ _ _ hx

/-- How an invocation comes to an outcome: its handler returns or panics, gives up because it was
cancelled, or meets a fault of the host that it cannot handle. -/
inductive Invocation.Comes (i : Invocation) : Outcome → Prop
  | ends (phase : i.phase = .ready) (steps : i.steps = []) : Comes i (i.ending.outcome i.job)
  | givesUp (phase : i.phase = .cancellableSleep) : Comes i (.error .cancelled)
  | breaks (phase : i.phase = .ready) (message : String) : Comes i (panicOutcome (some message))

theorem Invocation.comes_of_done {s : Site} {i : Invocation} {o : Outcome}
    (h : (i.step s).1 = .done o) : i.Comes o := by
  unfold step at h
  split at h
  · rename_i hphase
    split at h
    · obtain rfl := Progress.done.inj h
      exact .givesUp hphase
    · cases h
  · rename_i hphase
    split at h
    · rename_i hsteps
      obtain rfl := Progress.done.inj h
      exact .ends hphase hsteps
    · cases h
    · cases h
    · cases h
    · split at h
      · obtain rfl := Progress.done.inj h
        exact .breaks hphase _
      · cases h

end Engine

namespace Store

theorem finalized_result (maxRetries : Int) (record : Job) (force : Bool) (now : Time.Instant)
    (e : Entry) : (finalized maxRetries record force now e).job.result = record.result := by
  unfold finalized
  split <;> rfl

theorem job?_of_verdict? {s : Store} {id : Int} {v : Verdict} (h : s.verdict? id = some v) :
    ∃ job, s.job? id = some job ∧ job.status = v.status ∧ job.result = v.result := by
  obtain ⟨e, he, hverdict⟩ := Option.bind_eq_some_iff.mp h
  unfold Entry.verdict? at hverdict
  split at hverdict
  · obtain rfl := Option.some.inj hverdict
    exact ⟨e.job, by rw [job?, he]; rfl, rfl, rfl⟩
  · cases hverdict

end Store

namespace Host

open Engine

variable {lapse : Ensemble → Nat → Prop} {start sys : Ensemble} {history : List Move} {m : Move}
  {x : Execution} {d : Disposition} {o : Outcome}

theorem Interleaving.isDecided (h : Interleaving lapse start history sys) (hs : start.Opening) :
    ∀ a ∈ sys.activities, ∀ x, a.task.execution? = some x → x.IsDecided := by
  apply h.execution_induction (Q := Execution.IsDecided) _ _ hs
  · intro job k k' d o record stage hphase
    exact absurd hphase (by simp [Execution.fresh])
  · exact fun s x x' hgo hx => hgo.isDecided hx

/-- The move in which the handler of an execution of a job comes to an outcome. -/
def Move.ComesTo (m : Move) (job : Job) (o : Outcome) : Prop :=
  ∃ y k i beats, m.Returns y k o ∧ y.job = job ∧ y.phase = .handling i k beats ∧ i.Comes o

theorem Move.Returns.comesTo {k : Token} (h : m.Returns x k o) : m.ComesTo x.job o := by
  obtain ⟨i, beats, hphase, hdone⟩ := h.ends
  exact ⟨x, k, i, beats, h, rfl, hphase, Invocation.comes_of_done hdone⟩

/-- What is handed over is what the handler of the execution came to before. -/
theorem Interleaving.comesTo {before after : List Move}
    (h : Interleaving lapse start (before ++ m :: after) sys) (hstart : start.Opening)
    (hover : m.HandsOver x d o) : ∃ r ∈ before, r.mover.id = m.mover.id ∧ r.ComesTo x.job o := by
  obtain ⟨hbefore, hmover, -⟩ := h.split
  obtain ⟨k, hphase⟩ := hover.phase
  have haccounted := hbefore.accounted hstart m.mover hmover x (Task.execution?_of_acting? hover.acts)
  simp only [Accounted, hphase] at haccounted
  obtain ⟨first, r, rest, y, rfl, hid, hreturns, hjob, -⟩ := haccounted
  exact ⟨r, by simp, hid, hjob ▸ hreturns.comesTo⟩

/-- An execution that ends its job otherwise than by cancellation has a result. -/
theorem Interleaving.exists_result? {before after : List Move}
    (h : Interleaving lapse start (before ++ m :: after) sys) (hstart : start.Opening)
    (hover : m.HandsOver x d o) (hd : d ≠ .cancelled) : ∃ text, o.result? = some text := by
  obtain ⟨hbefore, hmover, -⟩ := h.split
  obtain ⟨k, hphase⟩ := hover.phase
  obtain ⟨abandoned, shutdown, hclassify⟩ :=
    hbefore.isDecided hstart m.mover hmover x (Task.execution?_of_acting? hover.acts) k d o _ _ hphase
  exact Outcome.exists_result? hclassify hd

/-- A result is stored as it was handed over, unless it is turned away. -/
theorem Move.HandsOver.result?_after (h : m.HandsOver x d o) :
    m.published = [] ∧ m.after.site.store.entries = m.site.store.entries ∨
      m.published = [Execution.event x.job o d] ∧
        (m.after.site.store.job? x.job.id).map (·.result) = some o.result? := by
  rcases h.cases with hturned | ⟨hpublished, e, he, -, -, hentries⟩
  · exact .inl hturned
  · refine .inr ⟨hpublished, ?_⟩
    have hkeeps := Store.keepsNumber_finalized m.site.store.maxRetries
      (Execution.finalRecord x.job o d) d.force m.site.now
    rw [Store.job?, Store.entry?_congr hentries, Store.entry?_modify_self hkeeps he]
    exact congrArg some (Store.finalized_result _ _ _ _ _)

/-- An execution that brings its job to an end makes the verdict on it. -/
theorem Move.HandsOver.verdict?_after (h : m.HandsOver x d o) {status : Status}
    (htakes : m.Takes x.job.id .running status) (ht : status.isTerminal = true) :
    status = d.status ∧
      m.after.site.store.verdict? x.job.id = some ⟨x.job.version, status, o.result?⟩ := by
  obtain ⟨hrunning, hstatus⟩ := htakes
  rcases h.cases with ⟨-, hentries⟩ | ⟨-, e, he, hversion, -, hentries⟩
  · rw [Store.job?, Store.entry?_congr hentries, ← Store.job?, hrunning] at hstatus
    obtain rfl := Option.some.inj hstatus
    exact absurd ht (by decide)
  · have hkeeps := Store.keepsNumber_finalized m.site.store.maxRetries
      (Execution.finalRecord x.job o d) d.force m.site.now
    rw [Move.status?_after hkeeps he hentries] at hstatus
    rw [Store.verdict?_eq_of_entries hentries, Store.verdict?, Store.entry?_modify_self hkeeps he]
    rcases Store.finalized_verdict? m.site.store.maxRetries (Execution.finalRecord x.job o d)
      d.force (Disposition.isTerminal_status d) m.site.now e
      with ⟨hcreated, -⟩ | ⟨hfinal, hverdict⟩
    · rw [hcreated] at hstatus
      obtain rfl := Option.some.inj hstatus
      exact absurd ht (by decide)
    · rw [hfinal] at hstatus
      obtain rfl := Option.some.inj hstatus
      exact ⟨rfl, by rw [Option.bind_some, hverdict, hversion]; rfl⟩

/-- That results tell the submitter what happened, along a history and in what it leads to. -/
structure ResultsTell (history : List Move) (sys : Ensemble) : Prop where
  /-- What an execution hands over is the result of the outcome that its handler came to, and
  tells of it. -/
  handed : ∀ before m after, history = before ++ m :: after → ∀ x d o, m.HandsOver x d o →
    (∃ r ∈ before, r.mover.id = m.mover.id ∧ r.ComesTo x.job o) ∧
      o.IsToldBy (Execution.finalRecord x.job o d).result
  /-- A result that is taken is stored as it was handed over. -/
  stored : ∀ m ∈ history, ∀ x d o, m.HandsOver x d o →
    m.published = [] ∧ m.after.site.store.entries = m.site.store.entries ∨
      m.published = [Execution.event x.job o d] ∧
        (m.after.site.store.job? x.job.id).map (·.result) = some o.result?
  /-- A job that an execution has completed or failed has a result from then on. -/
  kept : ∀ m ∈ history, ∀ x d o, m.HandsOver x d o →
    ∀ status ∈ [Status.completed, Status.failed], m.Takes x.job.id .running status →
      ∃ job text, sys.site.store.job? x.job.id = some job ∧ job.status = status ∧
        job.result = some text ∧ o.IsToldBy (some text)

/-- Whatever the order in which tasks move and whatever else is done to the store, the results that
executions store tell how their handlers ended, a job that an execution has completed or failed has
one, and whose fault a failure was makes no difference to any of it. -/
theorem stored_results_tell (hstart : start.Opening) (hsound : start.site.store.Sound)
    (h : Interleaving anytime start history sys) :
    ResultsTell history sys ∧ ∀ (o : Outcome) (job : Job),
      (∀ abandoned shutdown, Disposition.classify o.causedByCustomer abandoned shutdown =
        Disposition.classify o abandoned shutdown) ∧
      ∀ d, Execution.finalRecord job o.causedByCustomer d = Execution.finalRecord job o d := by
  refine ⟨⟨?_, fun _ _ _ _ _ hover => hover.result?_after, ?_⟩, fun o job => ⟨?_, fun d => ?_⟩⟩
  · rintro before m after rfl x d o hover
    exact ⟨h.comesTo hstart hover, Outcome.isToldBy_result? o⟩
  · intro m hm x d o hover status hstatus htakes
    obtain ⟨before, after, rfl⟩ := List.append_of_mem hm
    obtain ⟨hbefore, hmover, hfree, hafter⟩ := h.split
    have hterminal : status.isTerminal = true := by
      simp only [List.mem_cons, List.not_mem_nil, or_false] at hstatus
      rcases hstatus with rfl | rfl <;> rfl
    obtain ⟨rfl, hverdict⟩ := hover.verdict?_after htakes hterminal
    have hcancelled : d ≠ .cancelled := by
      rintro rfl
      exact absurd hstatus (by decide)
    obtain ⟨text, htext⟩ := h.exists_result? hstart hover hcancelled
    have hlast : sys.site.store.verdict? x.job.id = some ⟨x.job.version, d.status, o.result?⟩ :=
      hafter.verdict?_of_some ((hbefore.move hmover hfree).store_sound hsound) hverdict
    obtain ⟨job, hjob, hjobStatus, hresult⟩ := Store.job?_of_verdict? hlast
    exact ⟨job, text, hjob, hjobStatus, hresult.trans htext, htext ▸ Outcome.isToldBy_result? o⟩
  · exact o.classify_causedByCustomer
  · rw [Execution.finalRecord, Outcome.result?_causedByCustomer]
    rfl

/-- The value that a job fails with. -/
def detail : Json.Value :=
  .object [("codes", .array [.number (.integer (-429)), .null]), ("why", .string "é\n")]

/-- An error with the causes behind it, the first of them in two lines. -/
def uploadError : Diagnostic := ⟨"upload failed", ["disk full:\n\"sda\"", "no space"]⟩

/-- Three jobs, of which the first makes its handler panic and the others fail. -/
def unlucky : Ensemble :=
  .lone .default [(0, .enqueue .exports "" none 3)] (.scripted 0 "unlucky"
    [⟨[], .panics (some "no \"disk\" \\ \x01 😀")⟩, ⟨[], .returns (.error (.failed detail true))⟩,
      ⟨[], .returns (.error (.unclassified uploadError))⟩])

def unluckyTurns : List Host.Turn :=
  [Host.Turn.go 0, .go 1, .pass 2000] ++ List.replicate 30 (Host.Turn.go 1)

theorem within_unlucky : unlucky.Within Action.SparesResults := by
  apply Ensemble.within_lone
  · intro entry hentry
    obtain rfl := List.mem_singleton.mp hentry
    exact trivial
  · intro turn hturn step hstep
    simp only [List.mem_cons, List.not_mem_nil, or_false] at hturn
    rcases hturn with rfl | rfl | rfl <;> exact absurd hstep List.not_mem_nil

theorem isExact_detail : detail.IsExact Json.depthLimit := by
  have hcodes : (Json.Value.array [.number (.integer (-429)), .null]).IsExact 126 := by
    apply Json.Value.IsExact.array
    intro v hv
    obtain rfl | rfl := List.mem_pair.mp hv
    · exact .integer _ (by decide) (by decide)
    · exact .null _
  apply Json.Value.IsExact.object
  · rw [List.pairwise_pair]
    decide
  · intro member hmember
    obtain rfl | rfl := List.mem_pair.mp hmember
    · exact hcodes
    · exact .string _ _

/-- What the submitter reads of the panic. -/
def panicReport : FailureReport :=
  let message := Outcome.panicMessage (some "no \"disk\" \\ \x01 😀")
  ⟨message, message⟩

def uploadReport : FailureReport :=
  ⟨"upload failed",
    "upload failed\n\nCaused by:\n    0: disk full:\n       \"sda\"\n    1: no space"⟩

theorem stored_results_tell_unlucky :
    let history := (unlucky.follow anytime unluckyTurns).1
    let sys := (unlucky.follow anytime unluckyTurns).2
    (∀ id ∈ [(1 : Int), 2, 3], ∃ m ∈ history, ∃ x d o, m.HandsOver x d o ∧ x.job.id = id ∧
      m.Takes id .running .failed ∧ ∃ job text, sys.site.store.job? id = some job ∧
        job.status = .failed ∧ job.result = some text ∧ o.IsToldBy (some text)) ∧
    (∃ text, (sys.site.store.job? 1).map (·.result) = some (some text) ∧
      FailureReport.read? text = some panicReport) ∧
    (∃ text, (sys.site.store.job? 2).map (·.result) = some (some text) ∧
      Json.Value.read? text = some detail) ∧
    ∃ text, (sys.site.store.job? 3).map (·.result) = some (some text) ∧
      FailureReport.read? text = some uploadReport := by
  intro history sys
  have hfollow : Interleaving anytime unlucky history sys :=
    Ensemble.interleaving_follow anytime unluckyTurns unlucky
  have hopening : unlucky.Opening := Ensemble.opening_lone _ _ _
  have hsound : unlucky.site.store.Sound := Store.sound_empty Store.defaultRetries
  have hresults := stored_results_tell hopening hsound hfollow
  have hreport : (sys.site.store.job? 1).map (·.result) =
      some (some (String.ofList panicReport.write)) := by decide +kernel
  have hdetail : (sys.site.store.job? 2).map (·.result) = some (some detail.text) := by
    decide +kernel
  have hupload : (sys.site.store.job? 3).map (·.result) =
      some (some (String.ofList uploadReport.write)) := by decide +kernel
  refine ⟨?_, ⟨_, hreport, panicReport.read?_write⟩, ⟨_, hdetail, isExact_detail.read?_text⟩,
    ⟨_, hupload, uploadReport.read?_write⟩⟩
  have hverdicts : ∀ id ∈ [(1 : Int), 2, 3],
      (sys.site.store.verdict? id).map (·.status) = some .failed := by decide +kernel
  intro id hid
  obtain ⟨v, hv, hstatus⟩ := Option.map_eq_some_iff.mp (hverdicts id hid)
  obtain ⟨m, hm, x, d, o, hover, hjob, hfinal, htakes⟩ :=
    hfollow.exists_handsOver hopening hsound within_unlucky (fun _ => rfl) hv
  have hfailed : d.status = .failed := by rw [← hstatus, hfinal]
  rw [hfailed, ← hjob] at htakes
  have hkept := hresults.1.kept m hm x d o hover .failed (by decide) htakes
  rw [hjob] at htakes hkept
  exact ⟨m, hm, x, d, o, hover, hjob, htakes, hkept⟩

end Host

end LeasedWork
