import LeasedWork.Proofs.Engine.Finalization
import LeasedWork.Proofs.Store.Lifecycle

/-!
# Requests for cancellation

A request to cancel a job that is accepted stays with the stored record. What workers hand over
comes from records of their own, but no more than the status and the result of it is taken. So every
later lease shows the request and every later heartbeat tells of it; and an execution that is given
such a lease abandons its own token before the handler starts, which decides how it ends.
-/
namespace LeasedWork

open Time (Instant)

namespace Store

variable {s : Store} {id : Int} {e e' : Entry} {now : Instant} {op : Operation} {maxRetries : Int}

/-- Whether the job of a number was asked to be cancelled. -/
def Asked (s : Store) (id : Int) : Prop :=
  ∃ e, s.entry? id = some e ∧ e.job.cancelRequested = true

theorem Touch.cancelRequested (h : Touch maxRetries now e op e')
    (hc : e.job.cancelRequested = true) : e'.job.cancelRequested = true := by
  cases h with
  | leased => exact hc
  | beaten => exact hc
  | finalized =>
    unfold Store.finalized
    split
    · exact hc
    · exact hc
  | cancelled => rfl
  | aged => exact hc

/-- No operation takes a request back. -/
theorem Sound.asked_perform (hs : s.Sound) (h : s.Asked id) (now : Instant) (op : Operation) :
    Asked (s.perform now op).2 id := by
  obtain ⟨e, he, hc⟩ := h
  obtain ⟨e', he', rfl | htouch⟩ := hs.entry?_perform he now op
  · exact ⟨e', he', hc⟩
  · exact ⟨e', he', htouch.cancelRequested hc⟩

theorem Sound.asked_performAll (hs : s.Sound) (h : s.Asked id)
    (history : List (Instant × Operation)) : Asked (performAll history s).2 id := by
  induction history generalizing s with
  | nil => exact h
  | cons op rest ih => exact ih (sound_perform hs op.1 op.2) (hs.asked_perform h op.1 op.2)

theorem asked_of_accepted (h : (s.requestCancel id).1 = true) (now : Instant) :
    Asked (s.perform now (.requestCancel id)).2 id := by
  simp only [perform, requestCancel] at h ⊢
  cases he : s.entry? id with
  | none => simp [he] at h
  | some e =>
    cases ht : e.job.status.isTerminal with
    | true => simp [he, ht] at h
    | false =>
      simp only [ht, Bool.false_eq_true, if_false]
      exact ⟨_, entry?_modify_self (fun _ => rfl) he, rfl⟩

/-- A lease of a job that is to be cancelled says so. -/
theorem Sound.cancelRequested_of_dequeue (hs : s.Sound) {request : LeaseRequest} {cancelled : Bool}
    {job : Job} (hanswer : (s.dequeue request cancelled now).1 = .ok (some job))
    (h : s.Asked job.id) : job.cancelRequested = true := by
  rcases hs.dequeue_cases request cancelled now with ⟨-, hno⟩ | ⟨a, ha, -, -, hleased, -⟩
  · exact absurd hanswer (hno job)
  · rw [hleased] at hanswer
    obtain rfl := Option.some.inj (Except.ok.inj hanswer)
    obtain ⟨e, he, hc⟩ := h
    obtain rfl := Option.some.inj (ha.symm.trans he)
    exact hc

/-- A heartbeat for a job that is to be cancelled is told so, under whatever lease it comes. -/
theorem Asked.heartbeat {record : Job} (h : s.Asked record.id) : (s.heartbeat record now).1 =
    if s.failHeartbeat then .error (.injected .heartbeat) else .ok true := by
  obtain ⟨e, he, hc⟩ := h
  unfold Store.heartbeat
  cases s.failHeartbeat with
  | true => rfl
  | false =>
    simp only [he, hc, Bool.false_eq_true, if_false]
    split <;> rfl

end Store

namespace Engine

variable {s : Site} {x x' : Execution} {k : Token} {rest : List Site}

/-- Whether what was abandoned after one move of a journey is so on every site found later. -/
def Journey.Lasting (j : Journey) : Prop :=
  j.strides.Pairwise fun m m' => ∀ k ∈ m.after.tokens.abandoned, k ∈ m'.site.tokens.abandoned

/-- An execution that is given a job to be cancelled abandons the token of its handler. -/
theorem Execution.abandons_of_requested (hphase : x.phase = .fresh)
    (hc : x.job.cancelRequested = true) (hgoes : (x.step s).1.state? = some x') :
    ∃ k, x'.token? = some k ∧ k ∈ (x.step s).2.tokens.abandoned := by
  have hmove := goes_of_state? hgoes
  rcases hmove.token?_eq with ⟨-, hh, htoken⟩ | hkeeps
  · refine ⟨_, htoken, ?_⟩
    have habandon : .abandon (s.newToken x.shutdown) ∈ x.deeds s := by
      rw [deeds_of_begun s hphase hh, hc]
      simp
    have habandoned := (Deed.isAbandoned_onAll s (x.deeds s) (s.newToken x.shutdown)).mpr
      (.inr habandon)
    rw [← (x.aside_step s).tokens] at habandoned
    exact of_decide_eq_true habandoned
  · cases hmove with
    | begun => exact absurd hkeeps (by simp [token?, hphase])
    | handles h => exact absurd (hphase.symm.trans h) (by simp)
    | decided h => exact absurd (hphase.symm.trans h) (by simp)
    | calls h => exact absurd (hphase.symm.trans h) (by simp)

/-- An execution that has begun keeps its token on its journey. -/
theorem Execution.journey_token (sites : List Site) (hk : x.token? = some k) :
    ∀ m ∈ (x.journey sites).strides, m.execution.token? = some k := by
  induction sites generalizing x with
  | nil => exact fun m hm => absurd hm List.not_mem_nil
  | cons s rest ih =>
    intro m hm
    unfold journey at hm
    split at hm
    · rename_i x' hgoes
      rcases List.mem_cons.mp hm with rfl | hm
      · exact hk
      · refine ih ?_ m hm
        rcases (goes_of_state? hgoes).token?_eq with ⟨hphase, -⟩ | hkeeps
        · exact absurd hk (by simp [token?, hphase])
        · exact hkeeps.trans hk
    · rw [List.mem_singleton.mp hm]
      exact hk

/-- A handler whose token is abandoned returns to an abandoned execution. -/
theorem Stride.abandoned_of_return? {m : Stride} {r : Return} (h : m.return? = some r)
    (hk : m.execution.token? = some k) (habandoned : k ∈ m.site.tokens.abandoned) :
    r.abandoned = true := by
  unfold return? at h
  unfold Execution.token? at hk
  split at h
  · rename_i i k' beats hphase
    rw [hphase] at hk
    obtain rfl := Option.some.inj hk
    obtain ⟨o, -, rfl⟩ := Option.map_eq_some_iff.mp h
    exact decide_eq_true habandoned
  · exact absurd h (by simp)
  · exact absurd h (by simp)

/-- Whatever its handler returns and whether or not shutdown is asked for, an execution that is
given a job to be cancelled hands it over as cancelled. -/
theorem Execution.journey_of_requested (hphase : x.phase = .fresh)
    (hc : x.job.cancelRequested = true) (hh : s.registry.handler? x.job ≠ none)
    (hlength : x.needs s ≤ rest.length) (hrest : ∀ t ∈ rest, t.Answers)
    (hlasting : (x.journey (s :: rest)).Lasting) :
    ∃ taken, (x.journey (s :: rest)).result = some (.finalized .cancelled taken) := by
  obtain ⟨r, hreturns, hconcludes⟩ := journey_of_fresh hphase hh hlength hrest
  have habandoned : r.abandoned = true := by
    rcases first_move s hphase with ⟨hnone, -⟩ | ⟨-, x', i, _, beats, hgoes, -, -⟩
    · exact absurd hnone hh
    · obtain ⟨k, hk, hgone⟩ := abandons_of_requested hphase hc hgoes
      have hr : r ∈ (x.journey (s :: rest)).returns := by
        rw [hreturns]
        exact List.mem_singleton_self r
      obtain ⟨m, hm, hreturn⟩ := List.mem_filterMap.mp hr
      rw [journey_of_state? rest hgoes] at hm hlasting
      rcases List.mem_cons.mp hm with rfl | hm
      · simp [Stride.return?, hphase] at hreturn
      · exact Stride.abandoned_of_return? hreturn (journey_token rest hk m hm)
          ((List.pairwise_cons.mp hlasting).1 m hm k hgone)
  have hfinal : (x.journey (s :: rest)).result ≠ some .interrupted := by
    intro h
    have hkept := (hconcludes.interrupted.mp h).2.1
    exact absurd (habandoned.symm.trans hkept) (by simp)
  obtain ⟨d, taken, hresult, hverdict, -⟩ := hconcludes.handed hfinal
  have hd : d = .cancelled := by
    rw [Return.verdict, if_pos habandoned] at hverdict
    cases d <;> simp_all [Disposition.status]
  exact ⟨taken, hd ▸ hresult⟩

/-- Once a request to cancel a job is accepted, and whatever is done after that: it stays with the
job, every heartbeat for the job tells of it, and every lease of the job shows it. Any execution of
such a lease that has a handler ends with the job handed over as cancelled. -/
theorem cancel_request_lasts (maxRetries : Int) (history : List (Instant × Operation)) (id : Int)
    (h : ((Store.afterHistory maxRetries history).requestCancel id).1 = true) (now : Instant)
    (more : List (Instant × Operation)) :
    let s := Store.afterHistory maxRetries (history ++ (now, .requestCancel id) :: more)
    s.Asked id ∧
    (∀ (record : Job) (now : Instant), record.id = id → (s.heartbeat record now).1 =
      if s.failHeartbeat then .error (.injected .heartbeat) else .ok true) ∧
    ∀ (request : LeaseRequest) (cancelled : Bool) (now : Instant) (job : Job),
      (s.dequeue request cancelled now).1 = .ok (some job) → job.id = id →
      job.cancelRequested = true ∧
      ∀ (shutdown : Token) (found : Site) (rest : List Site),
        found.registry.handler? job ≠ none →
        (Execution.fresh job shutdown).needs found ≤ rest.length → (∀ t ∈ rest, t.Answers) →
        ((Execution.fresh job shutdown).journey (found :: rest)).Lasting →
        ∃ taken, ((Execution.fresh job shutdown).journey (found :: rest)).result =
          some (.finalized .cancelled taken) := by
  intro s
  have hbefore := Store.sound_afterHistory maxRetries history
  have hs : s.Sound := Store.sound_afterHistory maxRetries _
  have hasked : s.Asked id := by
    have haccepted := Store.asked_of_accepted h now
    have hlater := (Store.sound_perform hbefore now (.requestCancel id)).asked_performAll
      haccepted more
    have hsplit : s = (Store.performAll more ((Store.afterHistory maxRetries history).perform now
        (.requestCancel id)).2).2 := Store.afterHistory_append maxRetries history _
    exact hsplit ▸ hlater
  refine ⟨hasked, fun record now hid => Store.Asked.heartbeat (hid ▸ hasked), ?_⟩
  intro request cancelled now job hanswer hid
  have hc : job.cancelRequested = true := hs.cancelRequested_of_dequeue hanswer (hid ▸ hasked)
  refine ⟨hc, fun shutdown found rest hh hlength hrest hlasting => ?_⟩
  exact Execution.journey_of_requested rfl hc hh hlength hrest hlasting

/-- A running job is asked to be cancelled and then fails softly. -/
def withdrawn : List (Instant × Operation) :=
  let record : Job := Job.new 1 .exports Site.start
  [(Site.start, .enqueue .exports "" none),
    (Site.start, .dequeue ⟨.exports, "a", 600, none, false⟩ false),
    (Site.start, .requestCancel 1),
    (Site.start, .complete { record with version := 1, status := .failed } false)]

/-- Its next holder has a handler that takes no notice. -/
def unheeding : Site :=
  { Site.initial with
    registry := Registry.empty.register .exports none
      (.scripted 0 "stubborn" [⟨[.sleep 5], .returns (.ok "done")⟩])
    store := Store.afterHistory 3 withdrawn }

theorem cancel_request_lasts_withdrawn :
    let request : LeaseRequest := ⟨.exports, "b", 600, none, false⟩
    let job := (Site.leasedJob? (some
      (unheeding.store.dequeue request false Site.start).1)).getD default
    let x := Execution.fresh job unheeding.shutdown
    let rest := List.replicate 5 (x.step unheeding).2
    job.cancelRequested = true ∧
      ∃ taken, (x.journey (unheeding :: rest)).result = some (.finalized .cancelled taken) := by
  intro request job x rest
  have hanswer : (unheeding.store.dequeue request false Site.start).1 = .ok (some job) := rfl
  have hanswers : (x.step unheeding).2.Answers := ⟨by decide +kernel, by decide +kernel⟩
  have hlasting : (x.journey (unheeding :: rest)).Lasting := by
    unfold Journey.Lasting
    decide +kernel
  have hasked :=
    cancel_request_lasts 3 (withdrawn.take 2) 1 (by decide) Site.start (withdrawn.drop 3)
  obtain ⟨hc, hends⟩ := hasked.2.2 request false Site.start job hanswer (by decide)
  exact ⟨hc, hends _ unheeding rest (by decide +kernel) (by decide +kernel)
    (fun t ht => List.eq_of_mem_replicate ht ▸ hanswers) hlasting⟩

end Engine

end LeasedWork
