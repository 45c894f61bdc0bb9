import LeasedWork.Proofs.Host.Opening
import LeasedWork.Proofs.Store.Verdict

/-!
# One outcome per job

Several executions may work at one job, because leases expire while their holders live on. They all
hand their results to the store, which takes one at most under each lease, and an execution tells
of its result only if it was taken. So what was told of a job is what the store has, and once that
is a terminal status nothing more is told of it.
-/
namespace LeasedWork

namespace Engine

/-- Whether an action hands no result to the store. -/
def Action.SparesResults : Action → Prop
  | .complete _ _ _ => False
  | _ => True

theorem Action.SparesResults.ne_complete {action : Action} {op : Operation}
    (h : action.SparesResults) (ho : action.Asks op) (record : Job) (force : Bool) :
    op ≠ .complete record force := by
  rintro rfl
  cases ho
  exact h

/-- The statuses that a stored result may leave its job in. -/
def Disposition.results : Disposition → List Status
  | .completed => [.completed]
  | .failed => [.failed]
  | .softFailed => [.created, .failed]
  | .cancelled => [.cancelled]

/-- A job is left with the status that was handed over, unless it is put back for another try. -/
theorem Disposition.eq_or_of_mem_results {d : Disposition} {result : Status}
    (h : result ∈ d.results) : result = d.status ∨ d.force = false ∧ result = .created := by
  cases d with
  | softFailed => exact (List.mem_pair.mp h).symm.imp_right fun hcreated => ⟨rfl, hcreated⟩
  | _ => exact .inl (List.mem_singleton.mp h)

/-- Whether the record that an execution hands over is that of its job with what was decided. -/
def Execution.KeepsRecord (x : Execution) : Prop :=
  ∀ k d o record stage, x.phase = .finalizing k d o record stage → record = finalRecord x.job o d

theorem Execution.Goes.keepsRecord {s : Site} {x x' : Execution} (hgo : x.Goes s x')
    (h : x.KeepsRecord) : x'.KeepsRecord := by
  intro k d o record stage hphase
  cases hgo with
  | begun => simp at hphase
  | handles => simp at hphase
  | decided =>
    simp only [ExecutionPhase.finalizing.injEq] at hphase
    obtain ⟨-, rfl, rfl, rfl, -⟩ := hphase
    rfl
  | calls hx =>
    simp only [ExecutionPhase.finalizing.injEq] at hphase
    obtain ⟨rfl, rfl, rfl, rfl, -⟩ := hphase
    exact h _ _ _ _ _ hx

theorem Execution.job?_event (job : Job) (o : Outcome) (d : Disposition) :
    (event job o d).job? = some job.id := by
  cases d <;> rfl

theorem Execution.event_finalRecord (job : Job) (o : Outcome) (d d' : Disposition) :
    event (finalRecord job o d') o d = event job o d := by
  cases d <;> rfl

end Engine

namespace Host

open Engine

variable {lapse : Ensemble → Nat → Prop} {start sys : Ensemble} {history : List Move}

/-- What holds of every execution before its first move, and is kept by its moves, holds of all. -/
theorem Interleaving.execution_induction {Q : Execution → Prop}
    (hfresh : ∀ job k, Q (.fresh job k)) (hgoes : ∀ s x x', Execution.Goes s x x' → Q x → Q x')
    (h : Interleaving lapse start history sys) (hs : start.Opening) :
    ∀ a ∈ sys.activities, ∀ x, a.task.execution? = some x → Q x := by
  induction h with
  | nil =>
    intro a ha x hx
    rw [(hs.fresh a ha).execution?] at hx
    exact absurd hx (by simp)
  | @move history sys a h ha hf ih =>
    refine (h.sound hs.toSound).tasks_move (Q := fun t => ∀ x, t.execution? = some x → Q x)
      (fun t ht => ?_) (fun b hb _ => ih b hb) ?_ (fun start _ x hx => ?_)
    · cases t <;> exact ht
    · intro t ht x' hx'
      rcases Task.execution_cases ht hx' with ⟨x, hx, hgo⟩ | ⟨hx, -⟩ | ⟨job, k, rfl, -⟩
      · exact hgoes _ _ _ hgo (ih a ha x (Task.execution?_of_acting? hx))
      · exact ih a ha x' hx
      · exact hfresh job k
    · obtain ⟨id, start⟩ := start
      cases start <;> exact absurd hx (by simp [Task.ofStart, Task.execution?, PollLoop.fresh])
  | pause h hp ih =>
    intro b hb
    obtain ⟨c, hc, -, htask⟩ := hp.exists_task hb
    exact htask ▸ ih c hc

/-- Every execution hands over the record of its own job. -/
theorem Interleaving.keepsRecord (h : Interleaving lapse start history sys) (hs : start.Opening) :
    ∀ a ∈ sys.activities, ∀ x, a.task.execution? = some x → x.KeepsRecord := by
  apply h.execution_induction (Q := Execution.KeepsRecord) _ _ hs
  · intro job k k' d o record stage hphase
    exact absurd hphase (by simp [Execution.fresh])
  · exact fun s x x' hgo hx => hgo.keepsRecord hx

/-- The move in which an execution hands its result to the store. -/
structure Move.HandsOver (m : Move) (x : Execution) (d : Disposition) (o : Outcome) : Prop where
  acts : m.mover.task.acting? m.site = some x
  phase : ∃ k, x.phase = .finalizing k d o (Execution.finalRecord x.job o d) (.underway false)

namespace Move

variable {m : Move} {x : Execution} {d : Disposition} {o : Outcome}

/-- The deeds of the move in which an execution hands its result to the store. -/
theorem HandsOver.deeds_eq (h : m.HandsOver x d o) : ∃ k,
    m.deeds = [.release k] ∨
    (∃ refusal, (m.site.store.complete (Execution.finalRecord x.job o d) d.force m.site.now).1 =
        .error refusal ∧
      m.deeds = [.operate (.complete (Execution.finalRecord x.job o d) d.force), .release k]) ∨
    ∃ settlement, (m.site.store.complete (Execution.finalRecord x.job o d) d.force m.site.now).1 =
        .ok settlement ∧
      m.deeds = [.operate (.complete (Execution.finalRecord x.job o d) d.force),
        .publish (Execution.event x.job o d), .release k] := by
  obtain ⟨k, hphase⟩ := h.phase
  refine ⟨k, ?_⟩
  have hdeeds : m.deeds = x.deeds m.site := Task.deeds_of_acting? h.acts
  have hcall : (Site.callComplete (x.inSpan m.site) (.underway false)
      (Execution.finalRecord x.job o d) d.force none).1 =
      ((x.inSpan m.site).askComplete (Execution.finalRecord x.job o d) d.force).1.elim
        .crash .done := rfl
  simp only [Execution.deeds, hphase, hcall, Site.deedsOfStage, if_true,
    Site.deedsOfCall] at hdeeds
  rw [hdeeds]
  cases hasked : ((x.inSpan m.site).askComplete (Execution.finalRecord x.job o d) d.force).1 with
  | none => exact .inl rfl
  | some answer =>
    have hanswer := Site.askComplete_answer hasked
    cases answer with
    | error refusal => exact .inr (.inl ⟨refusal, hanswer, rfl⟩)
    | ok settlement =>
      refine .inr (.inr ⟨settlement, hanswer, ?_⟩)
      simp only [Option.isSome_some, if_true, Option.elim_some, Execution.event_finalRecord]
      rfl

/-- A result is either turned away, and then nothing is told and nothing stored, or it is taken
under its lease, and then just that is told. -/
theorem HandsOver.cases (h : m.HandsOver x d o) :
    (m.published = [] ∧ m.after.site.store.entries = m.site.store.entries) ∨
    (m.published = [Execution.event x.job o d] ∧ ∃ e, m.site.store.entry? x.job.id = some e ∧
      e.job.version = x.job.version ∧ e.job.status = .running ∧
      m.after.site.store.entries = (m.site.store.modify x.job.id (Store.finalized
        m.site.store.maxRetries (Execution.finalRecord x.job o d) d.force m.site.now)).entries) := by
  have hperform : .operate (.complete (Execution.finalRecord x.job o d) d.force) ∈ m.deeds →
      m.after.site.store.entries = (m.site.store.complete (Execution.finalRecord x.job o d) d.force
        m.site.now).2.entries :=
    fun hop => (m.tallied_of_operation hop (by simp)).entries
  obtain ⟨k, hdeeds | ⟨refusal, hanswer, hdeeds⟩ | ⟨settlement, hanswer, hdeeds⟩⟩ := h.deeds_eq
  · refine .inl ⟨by rw [published_eq, hdeeds]; rfl, ?_⟩
    rw [m.tallied_after.entries, hdeeds, Deed.store_onAll]
    intro d hd
    obtain rfl := List.mem_singleton.mp hd
    exact trivial
  · refine .inl ⟨by rw [published_eq, hdeeds]; rfl, ?_⟩
    rw [hperform (by rw [hdeeds]; exact List.mem_cons_self)]
    rcases Store.complete_cases m.site.store (Execution.finalRecord x.job o d) d.force m.site.now
      with ⟨hs, -⟩ | ⟨e, -, -, -, -, hok, -⟩
    · rw [hs]
      rfl
    · rw [hok] at hanswer
      exact absurd hanswer (by simp)
  · refine .inr ⟨by rw [published_eq, hdeeds]; rfl, ?_⟩
    rw [hperform (by rw [hdeeds]; exact List.mem_cons_self)]
    rcases Store.complete_cases m.site.store (Execution.finalRecord x.job o d) d.force m.site.now
      with ⟨-, refusal, herror⟩ | ⟨e, he, hv, hr, -, -, hs⟩
    · rw [herror] at hanswer
      exact absurd hanswer (by simp)
    · refine ⟨e, he, hv, hr, ?_⟩
      rw [hs]
      rfl

/-- Only the move in which an execution hands over its result can tell of one or store one. -/
theorem handsOver_or (hw : m.mover.task.Within Action.SparesResults)
    (hk : ∀ x, m.mover.task.execution? = some x → x.KeepsRecord) :
    (∃ x d o, m.HandsOver x d o) ∨
      ((∀ e ∈ m.published, e.isFinal = false) ∧
        ∀ op, .operate op ∈ m.deeds → ∀ record force, op ≠ .complete record force) := by
  by_cases hover : ∃ x d o, m.HandsOver x d o
  · exact .inl hover
  · have hnone : ∀ x k d o record, m.mover.task.acting? m.site = some x →
        x.phase ≠ .finalizing k d o record (.underway false) := by
      intro x k d o record hx hphase
      have hrecord := hk x (Task.execution?_of_acting? hx) k d o record _ hphase
      exact hover ⟨x, d, o, hx, k, hrecord ▸ hphase⟩
    refine .inr ⟨fun e he => ?_, fun op hop record force hc => ?_⟩
    · cases Task.origin_of_mem_deeds hw (mem_published.mp he) with
      | publish h => exact h
      | final hx hphase => exact absurd hphase (hnone _ _ _ _ _ hx)
    · subst hc
      cases Task.origin_of_mem_deeds hw hop with
      | asked hp ho => exact hp.ne_complete ho record force rfl
      | complete hx hphase => exact hnone _ _ _ _ _ hx hphase

/-- Whether a move takes the job of a number from one status to another. -/
def Takes (m : Move) (id : Int) (before after : Status) : Prop :=
  (m.site.store.job? id).map (·.status) = some before ∧
    (m.after.site.store.job? id).map (·.status) = some after

theorem verdict?_of_spares (hs : m.site.store.Sound)
    (hops : ∀ op, .operate op ∈ m.deeds → ∀ record force, op ≠ .complete record force) (id : Int) :
    m.after.site.store.verdict? id = m.site.store.verdict? id :=
  Move.store_induction (P := fun t => t.verdict? id = m.site.store.verdict? id)
    (fun _ _ ht hp => (Store.verdict?_eq_of_entries ht id).trans hp)
    (fun op hop _ ht hp => (ht.verdict?_perform m.site.now (hops op hop) id).trans hp) hs rfl

/-- The status of a job whose entry was changed by a move. -/
theorem status?_after {change : Entry → Entry} (hc : Store.KeepsNumber change) {id : Int} {e : Entry}
    (he : m.site.store.entry? id = some e)
    (hentries : m.after.site.store.entries = (m.site.store.modify id change).entries) :
    (m.after.site.store.job? id).map (·.status) = some (change e).job.status := by
  rw [Store.job?, Store.entry?_congr hentries, Store.entry?_modify_self hc he]
  rfl

/-- A move makes a verdict only by taking the result of an execution. -/
theorem verdict?_after (hs : m.site.store.Sound)
    (hw : m.mover.task.Within Action.SparesResults)
    (hk : ∀ x, m.mover.task.execution? = some x → x.KeepsRecord) (id : Int) :
    m.after.site.store.verdict? id = m.site.store.verdict? id ∨
      ∃ x d o, m.HandsOver x d o ∧ x.job.id = id ∧ m.Takes id .running d.status ∧
        m.after.site.store.verdict? id = some ⟨x.job.version, d.status, o.result?⟩ := by
  rcases handsOver_or hw hk with ⟨x, d, o, hover⟩ | ⟨-, hops⟩
  · rcases hover.cases with ⟨-, hentries⟩ | ⟨-, e, he, hv, hr, hentries⟩
    · exact .inl (Store.verdict?_eq_of_entries hentries id)
    · have hafter : m.after.site.store.verdict? id = ((if id = x.job.id then
          (m.site.store.entry? x.job.id).map (Store.finalized m.site.store.maxRetries
            (Execution.finalRecord x.job o d) d.force m.site.now)
          else m.site.store.entry? id).bind Entry.verdict?) := by
        rw [Store.verdict?_eq_of_entries hentries, Store.verdict?,
          Store.entry?_modify _ (Store.keepsNumber_finalized _ _ _ _)]
      by_cases hid : id = x.job.id
      · subst hid
        rw [if_pos rfl, he, Option.map_some, Option.bind_some] at hafter
        rcases Store.finalized_verdict? m.site.store.maxRetries (Execution.finalRecord x.job o d)
          d.force (Disposition.isTerminal_status d) m.site.now e
          with ⟨-, -, -, hnone⟩ | ⟨hstatus, hsome⟩
        · left
          rw [hafter, hnone, Store.verdict?, he, Option.bind_some, Store.verdict?_of_running hr]
        · refine .inr ⟨x, d, o, hover, rfl, ⟨?_, ?_⟩, by rw [hafter, hsome, hv]; rfl⟩
          · rw [Store.job?, he, Option.map_some, Option.map_some, hr]
          · rw [status?_after (Store.keepsNumber_finalized _ _ _ _) he hentries]
            exact congrArg some hstatus
      · exact .inl (by rw [hafter, if_neg hid, Store.verdict?])
  · exact .inl (verdict?_of_spares hs hops id)

/-- A verdict outlasts every move. -/
theorem verdict?_of_some (hs : m.site.store.Sound) {id : Int} {v : Verdict}
    (hv : m.site.store.verdict? id = some v) : m.after.site.store.verdict? id = some v :=
  Move.store_induction (P := fun t => t.verdict? id = some v)
    (fun _ _ ht hp => (Store.verdict?_eq_of_entries ht id).trans hp)
    (fun op _ _ ht hp => ht.verdict?_perform_of_some m.site.now op hp) hs hv

/-- An execution tells of its result just when its hand-over moved the stored job on. -/
theorem HandsOver.mem_published_iff (h : m.HandsOver x d o) (e : Event) :
    e ∈ m.published ↔ e = Execution.event x.job o d ∧
      ∃ status ∈ d.results, m.Takes x.job.id .running status := by
  rcases h.cases with ⟨hpublished, hentries⟩ | ⟨hpublished, a, ha, -, hr, hentries⟩
  · rw [hpublished]
    apply iff_of_false List.not_mem_nil
    rintro ⟨-, status, hstatus, hbefore, hafter⟩
    rw [Store.job?, Store.entry?_congr hentries, ← Store.job?, hbefore] at hafter
    obtain rfl := Option.some.inj hafter
    cases d <;> simp [Disposition.results] at hstatus
  · rw [hpublished, List.mem_singleton]
    refine ⟨fun he => ⟨he, ?_⟩, fun he => he.1⟩
    have hafter := status?_after (Store.keepsNumber_finalized _ _ _ _) ha hentries
    refine ⟨_, ?_, by rw [Store.job?, ha]; exact congrArg some hr, hafter⟩
    rcases Store.finalized_verdict? m.site.store.maxRetries (Execution.finalRecord x.job o d)
      d.force (Disposition.isTerminal_status d) m.site.now a
      with ⟨hcreated, -, hforce, -⟩ | ⟨hstatus, -⟩
    · rw [hcreated]
      cases d <;> simp [Disposition.force] at hforce
      simp [Disposition.results]
    · rw [hstatus]
      cases d <;> simp [Disposition.results, Disposition.status, Execution.finalRecord]

end Move

end Host

end LeasedWork
