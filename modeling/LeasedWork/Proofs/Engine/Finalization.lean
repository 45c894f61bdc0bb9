import LeasedWork.Proofs.Engine.Journey

/-!
# How executions end

An execution always comes to a result, whatever its handler does, whatever the store answers and
whenever somebody asks for its abandonment or for shutdown. Without a handler it does nothing. With
one, the return of the handler decides: a job that gave way to shutdown is left alone, and every
other result is handed to the store in one call that nothing can cancel.
-/
namespace LeasedWork.Engine

/-- The status of a job whose handler has returned, and whether handing it over is to be a last sign
of life. -/
def Return.verdict (r : Return) : Status × Bool :=
  if r.abandoned then (.cancelled, true)
  else
    match r.outcome with
    | .ok _ => (.completed, true)
    | .error .cancelled => (.cancelled, true)
    | .error (.failed _ _) => (.failed, true)
    | .error (.unclassified _) => (.failed, true)
    | .error (.softFailed _ _) => (.failed, false)

/-- The text that is to be stored as the result of a job whose handler has returned. -/
def Return.text? (r : Return) : Option String :=
  match r.outcome with
  | .ok text => some text
  | .error .cancelled => none
  | .error (.failed error _) | .error (.softFailed error _) => some error.text
  | .error (.unclassified d) => some (String.ofList (FailureReport.mk d.message d.report).write)

/-- What a journey comes to with a job whose handler has returned. -/
structure Journey.Concludes (j : Journey) (job : Job) (r : Return) : Prop where
  interrupted : j.result = some .interrupted ↔
    r.outcome = .error .cancelled ∧ r.abandoned = false ∧ r.shutdown = true
  /-- An interrupted job is left to the expiry of its lease. -/
  left : j.result = some .interrupted → j.handovers = []
  handed : j.result ≠ some .interrupted → ∃ (d : Disposition) (taken : Bool),
    j.result = some (.finalized d taken) ∧ (d.status, d.force) = r.verdict ∧
    j.handovers =
      [⟨{ job with status := d.status, result := r.text? }, d.force, false, taken⟩]

variable {s t : Site} {x x' : Execution} {rest sites : List Site} {k : Token}

theorem Return.text?_eq_result? (r : Return) : r.text? = r.outcome.result? := by
  obtain ⟨outcome, -, -⟩ := r
  rcases outcome with (_ | _ | _ | _) | _ <;> rfl

/-- A disposition stands for the status and the force that the return of a handler calls for. -/
theorem Disposition.verdict_of_classify {r : Return} {d : Disposition}
    (h : classify r.outcome r.abandoned r.shutdown = some d) : (d.status, d.force) = r.verdict := by
  obtain ⟨outcome, abandoned, shutdown⟩ := r
  unfold classify at h
  unfold Return.verdict
  cases abandoned with
  | true =>
    obtain rfl := Option.some.inj h
    rfl
  | false =>
    simp only [Bool.false_eq_true, if_false] at h ⊢
    split at h
    · obtain rfl := Option.some.inj h
      rfl
    · split at h
      · exact absurd h (by simp)
      · obtain rfl := Option.some.inj h
        rfl
    · obtain rfl := Option.some.inj h
      rfl
    · obtain rfl := Option.some.inj h
      rfl
    · obtain rfl := Option.some.inj h
      rfl

/-- Once it is decided, the result is handed over in the next move but one, and the answer of the
store is the end. -/
theorem Execution.journey_of_start {d : Disposition} {o : Outcome} {record : Job} (rest : List Site)
    (hphase : x.phase = .finalizing k d o record .start) (hs : s.Answers) (ht : t.Answers) :
    ∃ taken, (x.journey (s :: t :: rest)).result = some (.finalized d taken) ∧
      (x.journey (s :: t :: rest)).handovers = [⟨record, d.force, false, taken⟩] ∧
      (x.journey (s :: t :: rest)).returns = [] := by
  obtain ⟨hquiet, hgoes, -⟩ := step_of_start s hphase
  have hreturn : Stride.return? ⟨s, x⟩ = none := by simp only [Stride.return?, hphase]
  obtain ⟨hresult, hhandovers, hreturns⟩ := journey_quiet (t :: rest) (hgoes hs) hquiet hreturn
  let y : Execution := { x with phase := .finalizing k d o record (.underway false) }
  obtain ⟨hdone, time, htrace⟩ := step_of_underway (x := y) ht rfl
  have hadded : (Stride.mk t y).after.trace =
      [(time, .complete record d.force false (t.store.complete record d.force t.now).1)] ++
        t.trace := htrace
  have hentries := Stride.entries_of_trace hadded
  rw [hresult, hhandovers, hreturns, journey_of_done rest hdone]
  refine ⟨(t.store.complete record d.force t.now).1.toBool, rfl, ?_, rfl⟩
  simp only [Journey.handovers, List.flatMap_cons, List.flatMap_nil, hentries, List.append_nil]
  rfl

theorem Journey.Concludes.ends {j : Journey} {job : Job} {r : Return} (h : j.Concludes job r) :
    ∃ result, j.result = some result ∧ result ≠ .unsupported := by
  by_cases hi : j.result = some .interrupted
  · exact ⟨_, hi, by simp⟩
  · obtain ⟨d, taken, hfinal, -⟩ := h.handed hi
    exact ⟨_, hfinal, by simp⟩

theorem Journey.Concludes.congr {j j' : Journey} {job : Job} {r : Return} (h : j.Concludes job r)
    (hresult : j'.result = j.result) (hhandovers : j'.handovers = j.handovers) :
    j'.Concludes job r := by
  constructor
  · rw [hresult]
    exact h.interrupted
  · rw [hresult, hhandovers]
    exact h.left
  · rw [hresult, hhandovers]
    exact h.handed

/-- An execution goes on as its handler does. -/
theorem Execution.goes_of_handler {i i' : Invocation} {beats : TaskId}
    (hphase : x.phase = .handling i k beats) (hi : (i.step (x.inSpan s)).1.state? = some i') :
    (x.step s).1.state? = some { x with phase := .handling i' k beats } ∧
      Stride.return? ⟨s, x⟩ = none := by
  rw [step_of_handling s hphase]
  simp only [Stride.return?, hphase]
  cases hprogress : (i.step (x.inSpan s)).1 with
  | more state =>
    rw [hprogress] at hi
    obtain rfl := Option.some.inj hi
    exact ⟨rfl, rfl⟩
  | wait w state =>
    rw [hprogress] at hi
    obtain rfl := Option.some.inj hi
    exact ⟨rfl, rfl⟩
  | _ => simp [hprogress, Progress.state?] at hi

/-- When its handler returns, an execution ends there or is about to hand the result over. -/
theorem Execution.step_of_return {i : Invocation} {beats : TaskId} {o : Outcome}
    (hphase : x.phase = .handling i k beats) (hi : (i.step (x.inSpan s)).1 = .done o) :
    (x.step s).1 =
      match Disposition.classify o (s.tokens.isAbandoned k) (s.isCancelled x.shutdown) with
      | none => .done .interrupted
      | some d => .more { x with phase := .finalizing k d o (finalRecord x.job o d) .start } := by
  have htokens : ((i.step (x.inSpan s)).2.stop beats).tokens = s.tokens :=
    Invocation.tokens_of_done (s := x.inSpan s) hi
  have hshutdown : ((i.step (x.inSpan s)).2.stop beats).isCancelled x.shutdown =
      s.isCancelled x.shutdown := by
    simp only [Site.isCancelled, htokens]
  have hstep : (x.step s).1 = (decide ((i.step (x.inSpan s)).2.stop beats) x k o).1 := by
    rw [step_of_handling s hphase, hi]
  rw [hstep]
  unfold decide
  rw [htokens, hshutdown]
  cases Disposition.classify o (s.tokens.isAbandoned k) (s.isCancelled x.shutdown) <;> rfl

/-- From the return of its handler on, an execution concludes as that return calls for. -/
theorem Execution.journey_of_return {i : Invocation} {beats : TaskId} {o : Outcome}
    (hphase : x.phase = .handling i k beats) (hi : (i.step (x.inSpan s)).1 = .done o)
    (hlength : 2 ≤ rest.length) (hrest : ∀ t ∈ rest, t.Answers) :
    let r : Return := ⟨o, s.tokens.isAbandoned k, s.isCancelled x.shutdown⟩
    (x.journey (s :: rest)).returns = [r] ∧ (x.journey (s :: rest)).Concludes x.job r := by
  intro r
  have hreturn : Stride.return? ⟨s, x⟩ = some r := by
    simp only [Stride.return?, hphase, hi]
    rfl
  have hhanded : (Stride.mk s x).entries.filterMap Trace.handover? = [] :=
    Stride.handovers_of_quiet (quiet_of_handling s hphase)
  have hstep := step_of_return hphase hi
  have hleft := Disposition.classify_eq_none_iff r.outcome r.abandoned r.shutdown
  cases hd : Disposition.classify r.outcome r.abandoned r.shutdown with
  | none =>
    rw [hd] at hstep
    rw [journey_of_done rest hstep]
    refine ⟨by simp [Journey.returns, hreturn], ⟨fun _ => hleft.mp hd, fun _ => rfl⟩, ?_, ?_⟩
    · intro _
      simp [Journey.handovers, hhanded]
    · intro hne
      exact absurd rfl hne
  | some d =>
    rw [hd] at hstep hleft
    have hstays : ¬ (r.outcome = .error .cancelled ∧ r.abandoned = false ∧ r.shutdown = true) :=
      fun h => absurd (hleft.mpr h) (by simp)
    obtain ⟨t, u, later, rfl⟩ : ∃ t u later, rest = t :: u :: later := by
      rcases rest with _ | ⟨t, _ | ⟨u, later⟩⟩
      · simp at hlength
      · simp at hlength
      · exact ⟨t, u, later, rfl⟩
    let y : Execution := { x with phase := .finalizing k d o (finalRecord x.job o d) .start }
    have hgoes : (x.step s).1.state? = some y := by
      rw [hstep]
      rfl
    obtain ⟨taken, hresult, hhandovers, hreturns⟩ :=
      journey_of_start (x := y) later rfl (hrest t (by simp)) (hrest u (by simp))
    have hfinal : (x.journey (s :: t :: u :: later)).result = some (.finalized d taken) := by
      rw [journey_of_state? _ hgoes]
      exact hresult
    refine ⟨?_, ⟨fun h => ?_, fun h => absurd h hstays⟩, fun h => ?_, fun _ => ?_⟩
    · rw [journey_of_state? _ hgoes, Journey.returns_cons, hreturn, hreturns]
      rfl
    · exact absurd (hfinal.symm.trans h) (by simp)
    · exact absurd (hfinal.symm.trans h) (by simp)
    · refine ⟨d, taken, hfinal, Disposition.verdict_of_classify hd, ?_⟩
      rw [journey_of_state? _ hgoes, Journey.handovers_cons, hhanded, hhandovers,
        r.text?_eq_result?]
      rfl

/-- From the start of its handler on, an execution comes to the return of it and concludes. -/
theorem Execution.journey_of_handling {i : Invocation} {beats : TaskId}
    (hphase : x.phase = .handling i k beats) (hlength : i.ahead + 3 ≤ sites.length)
    (hsites : ∀ s ∈ sites, s.Answers) :
    ∃ r, (x.journey sites).returns = [r] ∧ (x.journey sites).Concludes x.job r := by
  induction sites generalizing x i with
  | nil => simp at hlength
  | cons s rest ih =>
    have hrest : ∀ t ∈ rest, t.Answers := fun t ht => hsites t (List.mem_cons_of_mem _ ht)
    rw [List.length_cons] at hlength
    rcases i.step_cases (x.inSpan s) with ⟨i', hi⟩ | ⟨o, hi⟩
    · -- the handler goes on, and has less to do than before
      obtain ⟨hgoes, hreturn⟩ := goes_of_handler hphase hi
      obtain ⟨hresult, hhandovers, hreturns⟩ :=
        journey_quiet rest hgoes (quiet_of_handling s hphase) hreturn
      have hahead := Invocation.ahead_lt hi
      obtain ⟨r, hr, hconcludes⟩ :=
        ih (x := { x with phase := .handling i' k beats }) rfl (by omega) hrest
      exact ⟨r, hreturns.trans hr, hconcludes.congr hresult hhandovers⟩
    · exact ⟨_, journey_of_return hphase hi (by omega) hrest⟩

/-- Without a handler an execution ends in its first move and leaves no trace; otherwise it starts
the handler. -/
theorem Execution.first_move (s : Site) (hphase : x.phase = .fresh) :
    (s.registry.handler? x.job = none ∧ (x.step s).1 = .done .unsupported ∧
      (x.step s).2.trace = s.trace) ∨
    (s.registry.handler? x.job ≠ none ∧ ∃ x' i k beats, (x.step s).1.state? = some x' ∧
      x'.phase = .handling i k beats ∧ x'.job = x.job) := by
  cases hh : s.registry.handler? x.job with
  | none =>
    refine .inl ⟨rfl, ?_, ?_⟩
    · rw [step_of_fresh s hphase, begin_of_no_handler hh]
    · unfold step Site.within
      simp only [hphase, begin, hh]
      rfl
  | some handler =>
    refine .inr ⟨by simp, ?_⟩
    obtain ⟨since, t, hbegin⟩ := begin_of_handler hh
    rw [step_of_fresh s hphase, hbegin]
    exact ⟨_, _, _, _, rfl, rfl, rfl⟩

/-- Apart from its handler an execution waits for nothing but a time. -/
theorem Execution.wait_cases {w : Wait} (h : (x.step s).1 = .wait w x') :
    (∃ i k beats, x.phase = .handling i k beats) ∨ ∃ deadline, w = .time deadline := by
  cases hphase : x.phase with
  | fresh =>
    rcases first_move s hphase with ⟨-, hdone, -⟩ | ⟨hh, -⟩
    · rw [hdone] at h
      exact absurd h (by simp)
    · rw [step_of_fresh s hphase, begin] at h
      split at h
      · exact absurd h (by simp)
      · exact absurd h (by simp)
  | handling i k beats => exact .inl ⟨i, k, beats, rfl⟩
  | finalizing k d o record stage =>
    right
    cases stage with
    | start => exact (step_of_start s hphase).2.2 w x' h
    | underway crashes =>
      rw [step_of_finalizing s hphase] at h
      cases crashes with
      | true => simp [Site.callComplete, Site.call] at h
      | false =>
        have hcall : ((x.inSpan s).callComplete (.underway false) record d.force none).1 =
            ((x.inSpan s).askComplete record d.force).1.elim .crash .done := rfl
        rw [hcall] at h
        cases hasked : ((x.inSpan s).askComplete record d.force).1 with
        | none => simp [hasked] at h
        | some answer => simp [hasked] at h

/-- The job and the shutdown token of an execution are the same on its whole journey. -/
theorem Execution.journey_keeps (sites : List Site) (x : Execution) :
    ∀ m ∈ (x.journey sites).strides,
      m.execution.job = x.job ∧ m.execution.shutdown = x.shutdown := by
  induction sites generalizing x with
  | nil => exact fun m hm => absurd hm List.not_mem_nil
  | cons s rest ih =>
    intro m hm
    unfold journey at hm
    split at hm
    · rename_i x' hgoes
      obtain ⟨hjob, hshutdown⟩ := (goes_of_state? hgoes).job_eq
      rcases List.mem_cons.mp hm with rfl | hm
      · exact ⟨rfl, rfl⟩
      · rw [← hjob, ← hshutdown]
        exact ih x' m hm
    · rw [List.mem_singleton.mp hm]
      exact ⟨rfl, rfl⟩

/-- How many more moves an execution can need after one on a site. -/
def Execution.needs (s : Site) (x : Execution) : Nat := (x.step s).1.state?.elim 0 ahead

/-- If there is a handler, an execution comes to the return of it and concludes. -/
theorem Execution.journey_of_fresh (hphase : x.phase = .fresh)
    (hh : s.registry.handler? x.job ≠ none) (hlength : x.needs s ≤ rest.length)
    (hrest : ∀ t ∈ rest, t.Answers) :
    ∃ r, (x.journey (s :: rest)).returns = [r] ∧ (x.journey (s :: rest)).Concludes x.job r := by
  rcases first_move s hphase with ⟨hnone, -⟩ | ⟨-, x', i, k, beats, hgoes, hphase', hjob⟩
  · exact absurd hnone hh
  · have hneeds : x.needs s = i.ahead + 3 := by
      simp only [needs, hgoes, Option.elim_some, ahead, hphase']
    obtain ⟨r, hreturns, hconcludes⟩ := journey_of_handling hphase' (hneeds ▸ hlength) hrest
    have hreturn : Stride.return? ⟨s, x⟩ = none := by simp only [Stride.return?, hphase]
    obtain ⟨hresult, hhandovers, hbefore⟩ :=
      journey_quiet rest hgoes (quiet_of_fresh s hphase) hreturn
    rw [hjob] at hconcludes
    exact ⟨r, hbefore.trans hreturns, hconcludes.congr hresult hhandovers⟩

/-- For every leased job and whatever sites its execution finds, if they are enough and the store
answers: the execution comes to a result. If there is no handler for the job, then it does nothing;
otherwise the handler returns once, and the job is left alone if the handler gave way to shutdown,
and handed to the store once if not, under a token that is not cancelled and with the status, the
force and the result that the return calls for. On the way only the handler waits for anything but a
time. -/
theorem finalization_contract (job : Job) (shutdown : Token) (s : Site) (rest : List Site)
    (hlength : (Execution.fresh job shutdown).needs s ≤ rest.length)
    (hrest : ∀ t ∈ rest, t.Answers) :
    let j := (Execution.fresh job shutdown).journey (s :: rest)
    j.result.isSome = true ∧
    (j.result = some .unsupported ↔ s.registry.handler? job = none) ∧
    (j.result = some .unsupported →
      j.strides = [⟨s, .fresh job shutdown⟩] ∧ ∀ m ∈ j.strides, m.entries = []) ∧
    (j.result ≠ some .unsupported → ∃ r, j.returns = [r] ∧ j.Concludes job r) ∧
    ∀ m ∈ j.strides, (m.execution.job = job ∧ m.execution.shutdown = shutdown) ∧
      ∀ w x, (m.execution.step m.site).1 = .wait w x →
        (∃ i k beats, m.execution.phase = .handling i k beats) ∨
          ∃ deadline, w = .time deadline := by
  intro j
  have hway : ∀ m ∈ j.strides, (m.execution.job = job ∧ m.execution.shutdown = shutdown) ∧
      ∀ w x, (m.execution.step m.site).1 = .wait w x →
        (∃ i k beats, m.execution.phase = .handling i k beats) ∨ ∃ deadline, w = .time deadline :=
    fun m hm => ⟨Execution.journey_keeps _ _ m hm, fun w x h => Execution.wait_cases h⟩
  rcases Execution.first_move (x := .fresh job shutdown) s rfl with ⟨hnone, hdone, htrace⟩ | ⟨hh, -⟩
  · have hj : j = ⟨[⟨s, .fresh job shutdown⟩], some .unsupported⟩ :=
      Execution.journey_of_done rest hdone
    have hadded : (Stride.mk s (.fresh job shutdown)).after.trace = [] ++ s.trace := htrace
    have hentries := Stride.entries_of_trace hadded
    rw [hj] at hway ⊢
    refine ⟨rfl, ⟨fun _ => hnone, fun _ => rfl⟩, fun _ => ⟨rfl, fun m hm => ?_⟩,
      fun hne => absurd rfl hne, hway⟩
    rw [List.mem_singleton.mp hm, hentries]
    rfl
  · obtain ⟨r, hreturns, hconcludes⟩ := Execution.journey_of_fresh rfl hh hlength hrest
    obtain ⟨result, hends, hne⟩ := hconcludes.ends
    have hends' : j.result = some result := hends
    have hsupported : j.result ≠ some .unsupported := by
      rw [hends']
      exact fun h => hne (Option.some.inj h)
    exact ⟨by rw [hends']; rfl, ⟨fun h => absurd h hsupported, fun h => absurd h hh⟩,
      fun h => absurd h hsupported, fun _ => ⟨r, hreturns, hconcludes⟩, hway⟩

/-- A leased job whose handler sleeps and then fails softly. -/
def softened : Site :=
  let handler : Handler :=
    .scripted 0 "soft" [⟨[.sleep 5], .returns (.error (.softFailed (.string "later") false))⟩]
  { Site.initial with
    registry := Registry.empty.register .exports none handler
    store := Store.afterHistory 3 [(Site.start, .enqueue .exports "" none),
      (Site.start, .dequeue ⟨.exports, "a", 600, none, false⟩ false)] }

/-- Shutdown is asked for while the handler sleeps. -/
theorem finalization_contract_softened :
    let job := (softened.store.job? 1).getD default
    let rest := List.replicate 5 (softened.cancel softened.shutdown)
    let j := (Execution.fresh job softened.shutdown).journey (softened :: rest)
    (∀ t ∈ rest, t.Answers) ∧ j.result = some (.finalized .softFailed true) ∧
      j.handovers =
        [⟨{ job with status := .failed, result := some "\"later\"" }, false, false, true⟩] := by
  intro job rest j
  have hanswers : (softened.cancel softened.shutdown).Answers := ⟨rfl, by decide⟩
  have hrest : ∀ t ∈ rest, t.Answers := fun t ht => List.eq_of_mem_replicate ht ▸ hanswers
  have hresult : j.result = some (.finalized .softFailed true) := by decide +kernel
  have htexts : j.returns.map Return.text? = [some "\"later\""] := by decide +kernel
  obtain ⟨-, -, -, hreturn, -⟩ :=
    finalization_contract job softened.shutdown softened rest (by decide +kernel) hrest
  obtain ⟨r, hr, hconcludes⟩ := hreturn (by rw [hresult]; simp)
  obtain ⟨d, taken, hfinal, -, hhandovers⟩ := hconcludes.handed (by rw [hresult]; simp)
  obtain ⟨rfl, rfl⟩ := ExecutionResult.finalized.inj (Option.some.inj (hfinal.symm.trans hresult))
  have htext : r.text? = some "\"later\"" := by
    rw [hr] at htexts
    exact (List.cons.inj htexts).1
  rw [htext] at hhandovers
  exact ⟨hrest, hresult, hhandovers⟩

end LeasedWork.Engine
