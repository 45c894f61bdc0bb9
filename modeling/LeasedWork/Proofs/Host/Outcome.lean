import LeasedWork.Proofs.Host.Schedule
import LeasedWork.Proofs.Host.Settlement
import Mathlib.Order.Bounds.Defs

/-!
# The outcome of a job

A job that is over was ended by the execution that held its last lease. Versions only ever go up,
every version that a begun job has was handed out, and what an execution is told about its
result is what the store made of it; so of all that is told of a job, just one word is final.
-/
namespace LeasedWork

namespace Host

open Engine

variable {lapse : Ensemble → Nat → Prop} {start sys : Ensemble} {history : List Move} {m : Move}
  {id : Int}

/-- Whether a move hands out a job: it leaves the entries as a call for a job does that is
answered with this one. -/
def Move.Grants (m : Move) (job : Job) : Prop :=
  ∃ request, (m.site.store.dequeue request false m.site.now).1 = .ok (some job) ∧
    m.after.site.store.entries = (m.site.store.dequeue request false m.site.now).2.entries

/-- The versions under which a job was handed out. -/
def versions (history : List Move) (id : Int) : Set Int :=
  {version | ∃ m ∈ history, ∃ job, m.Grants job ∧ job.id = id ∧ job.version = version}

namespace Move

/-- What a move hands out is stored at its version. -/
theorem Grants.version_after {job : Job} (h : m.Grants job) (hs : m.site.store.Sound) :
    ∃ e, m.after.site.store.entry? job.id = some e ∧ e.job.version = job.version := by
  obtain ⟨request, hanswer, hentries⟩ := h
  rw [Store.entry?_congr hentries]
  exact hs.version_of_dequeue hanswer

theorem leadsTo (hs : m.site.store.Sound) {e : Entry} (he : m.site.store.entry? id = some e) :
    ∃ e', m.after.site.store.entry? id = some e' ∧ e.LeadsTo e' := by
  refine Move.store_induction (P := fun t => ∃ e', t.entry? id = some e' ∧ e.LeadsTo e')
    ?_ ?_ hs ⟨e, he, .refl e⟩
  · intro s t ht hp
    rw [Store.entry?_congr ht]
    exact hp
  · intro op _ s hsound hp
    obtain ⟨e', he', hle⟩ := hp
    obtain ⟨e'', he'', hle'⟩ := hsound.leadsTo_perform he' m.site.now op
    exact ⟨e'', he'', hle.trans hle'⟩

/-- A job is begun by being handed out. -/
theorem begun_of_after (hs : m.site.store.Sound) {version : Int}
    (h : m.after.site.store.Begun id version) : m.site.store.Begun id version ∨
      ∃ job, m.Grants job ∧ job.id = id ∧ job.version = version := by
  by_cases hdeq : ∃ request, .operate (.dequeue request false) ∈ m.deeds
  · obtain ⟨request, hmem⟩ := hdeq
    have hentries := (m.tallied_of_operation hmem (by simp)).entries
    rcases hs.begun_of_dequeue ((Store.begun_congr hentries).mp h) with hbegun | ⟨job, hanswer, hjob⟩
    · exact .inl hbegun
    · exact .inr ⟨job, ⟨request, hanswer, hentries⟩, hjob⟩
  · refine .inl (Move.store_induction
      (P := fun t => t.Begun id version → m.site.store.Begun id version) ?_ ?_ hs (fun h => h) h)
    · intro s t ht hp hbegun
      exact hp ((Store.begun_congr ht).mp hbegun)
    · intro op hop s hsound hp hbegun
      refine hp (hsound.begun_of_perform (fun request hrequest => ?_) hbegun)
      exact hdeq ⟨request, hrequest ▸ hop⟩

end Move

/-- No version that was handed out is above the one that is stored. -/
theorem Interleaving.version_le (h : Interleaving lapse start history sys)
    (hs : start.site.store.Sound) {version : Int} (hv : version ∈ versions history id) :
    ∃ e, sys.site.store.entry? id = some e ∧ version ≤ e.job.version := by
  induction h with
  | nil =>
    obtain ⟨m, hm, -⟩ := hv
    exact absurd hm List.not_mem_nil
  | @move history sys a h ha hf ih =>
    have hsound := h.store_sound hs
    obtain ⟨m, hm, job, hgrant, rfl, rfl⟩ := hv
    rcases List.mem_append.mp hm with hm | hm
    · obtain ⟨e, he, hle⟩ := ih ⟨m, hm, job, hgrant, rfl, rfl⟩
      obtain ⟨e', he', hle'⟩ := Move.leadsTo (m := ⟨sys, a⟩) hsound he
      exact ⟨e', he', Int.le_trans hle hle'.version_le⟩
    · obtain rfl := List.mem_singleton.mp hm
      obtain ⟨e, he, heq⟩ := hgrant.version_after hsound
      exact ⟨e, he, Int.le_of_eq heq.symm⟩
  | pause h hp ih => exact hp.store_eq ▸ ih hv

/-- A job that was begun at a version was handed out under it. -/
theorem Interleaving.mem_versions_of_begun (h : Interleaving lapse start history sys)
    {maxRetries : Int} (hs : start.site.store = .empty maxRetries) {version : Int}
    (hb : sys.site.store.Begun id version) : version ∈ versions history id := by
  have hstart : start.site.store.Sound := hs ▸ Store.sound_empty maxRetries
  induction h with
  | nil =>
    obtain ⟨e, he, -⟩ := hb
    simp [hs, Store.empty, Store.entry?] at he
  | @move history sys a h ha hf ih =>
    rcases Move.begun_of_after (m := ⟨sys, a⟩) (h.store_sound hstart) hb with hb | ⟨job, hgrant⟩
    · obtain ⟨m, hm, hgrant⟩ := ih hb
      exact ⟨m, List.mem_append_left _ hm, hgrant⟩
    · exact ⟨⟨sys, a⟩, List.mem_append_right _ (List.mem_singleton.mpr rfl), job, hgrant⟩
  | pause h hp ih =>
    rw [hp.store_eq] at hb
    exact ih hb

section

variable (h : Interleaving lapse start history sys) (hstart : start.Opening)
  (hsound : start.site.store.Sound) (hw : start.Within Action.SparesResults)

include h hstart hw in
/-- Along an interleaving, a final word is that of an execution that hands over its result. -/
theorem Interleaving.handsOver_or (hm : m ∈ history) :
    (∃ x d o, m.HandsOver x d o) ∨
      ((∀ e ∈ m.published, e.isFinal = false) ∧
        ∀ op, .operate op ∈ m.deeds → ∀ record force, op ≠ .complete record force) := by
  obtain ⟨before, hbefore, hmover, -⟩ := h.of_mem hm
  exact m.handsOver_or ((hbefore.within hstart.toSound hw).tasks _ hmover)
    (hbefore.keepsRecord hstart _ hmover)

include h hstart hw in
/-- What is told is what became of the stored job. -/
theorem Interleaving.mem_published_iff (hm : m ∈ history) {e : Event} (he : e.isFinal = true) :
    e ∈ m.published ↔ ∃ x d o, m.HandsOver x d o ∧ e = Execution.event x.job o d ∧
      ∃ status ∈ d.results, m.Takes x.job.id .running status := by
  constructor
  · intro hpublished
    rcases h.handsOver_or hstart hw hm with ⟨x, d, o, hover⟩ | ⟨hnone, -⟩
    · exact ⟨x, d, o, hover, (hover.mem_published_iff e).mp hpublished⟩
    · exact absurd he (by simp [hnone e hpublished])
  · rintro ⟨x, d, o, hover, hevent⟩
    exact (hover.mem_published_iff e).mpr hevent

include h hstart hsound hw in
/-- Every verdict is that of an execution that handed over its result. -/
theorem Interleaving.exists_handsOver (hopen : ∀ id, start.site.store.verdict? id = none)
    {v : Verdict} (hv : sys.site.store.verdict? id = some v) :
    ∃ m ∈ history, ∃ x d o, m.HandsOver x d o ∧ x.job.id = id ∧
      v = ⟨x.job.version, d.status, o.result?⟩ ∧ m.Takes id .running d.status := by
  induction h with
  | nil => exact absurd hv (by simp [hopen])
  | @move history sys a h ha hf ih =>
    obtain ⟨hsys, hwithin⟩ := And.intro (h.store_sound hsound) (h.within hstart.toSound hw)
    rcases Move.verdict?_after (m := ⟨sys, a⟩) hsys (hwithin.tasks a ha)
      (h.keepsRecord hstart a ha) id with heq | ⟨x, d, o, hover, hid, htakes, hsome⟩
    · obtain ⟨m, hm, hrest⟩ := ih (heq ▸ hv)
      exact ⟨m, List.mem_append_left _ hm, hrest⟩
    · refine ⟨⟨sys, a⟩, List.mem_append_right _ (List.mem_singleton.mpr rfl), x, d, o, hover, hid, ?_,
        htakes⟩
      exact Option.some.inj (hv.symm.trans hsome)
  | pause h hp ih =>
    rw [hp.store_eq] at hv
    exact ih hv

include h hstart hw in
/-- Who tells of a job finds it running. -/
theorem Interleaving.verdict?_of_published (hm : m ∈ history) {e : Event} (he : e ∈ m.published)
    (hfinal : e.isFinal = true) (hjob : e.job? = some id) :
    m.site.store.verdict? id = none ∧ m.published = [e] := by
  obtain ⟨x, d, o, hover, rfl, status, -, htakes, -⟩ :=
    (h.mem_published_iff hstart hw hm hfinal).mp he
  rw [Execution.job?_event, Option.some.injEq] at hjob
  refine ⟨Store.verdict?_of_status (hjob ▸ htakes), ?_⟩
  rcases hover.cases with ⟨hnone, -⟩ | ⟨hsome, -⟩
  · rw [hnone] at he
    exact absurd he List.not_mem_nil
  · exact hsome

include h hsound in
theorem Interleaving.verdict?_of_some {v : Verdict} (hv : start.site.store.verdict? id = some v) :
    sys.site.store.verdict? id = some v := by
  induction h with
  | nil => exact hv
  | @move history sys a h ha hf ih =>
    exact Move.verdict?_of_some (m := ⟨sys, a⟩) (h.store_sound hsound) ih
  | pause h hp ih => exact hp.store_eq ▸ ih

end

/-- Once a move has left a job with a terminal status, no later move tells of it. -/
theorem Interleaving.silent_after {before after : List Move}
    (h : Interleaving lapse start (before ++ m :: after) sys) (hstart : start.Opening)
    (hsound : start.site.store.Sound) (hw : start.Within Action.SparesResults) {status : Status}
    (hstatus : (m.after.site.store.job? id).map (·.status) = some status)
    (ht : status.isTerminal = true) {m' : Move} (hm' : m' ∈ after) {e : Event}
    (he : e ∈ m'.published) (hfinal : e.isFinal = true) : e.job? ≠ some id := by
  intro hjob
  obtain ⟨hbefore, hmover, hfree, hafter⟩ := h.split
  have hnext : m.after.site.store.Sound :=
    (hbefore.move hmover hfree).store_sound hsound
  obtain ⟨v, hv⟩ := Store.exists_verdict? hstatus ht
  obtain ⟨between, hbetween, -⟩ := hafter.of_mem hm'
  have hover : m'.site.store.verdict? id = some v := hbetween.verdict?_of_some hnext hv
  have hmem : m' ∈ before ++ m :: after :=
    List.mem_append_right _ (List.mem_cons_of_mem _ hm')
  rw [(h.verdict?_of_published hstart hw hmem he hfinal hjob).1] at hover
  exact absurd hover (by simp)

/-! ## What is told, and the calls behind it -/

/-- The move in which an execution calls the store to end its job with a record, with force or
without. -/
def Move.Completes (m : Move) (x : Execution) (record : Job) (force : Bool) : Prop :=
  m.mover.task.acting? m.site = some x ∧ .operate (.complete record force) ∈ m.deeds

namespace Move

variable {x : Execution} {record : Job} {force : Bool} {d : Disposition} {o : Outcome} {e : Event}

theorem HandsOver.of_completes {y : Execution} (h : m.HandsOver x d o)
    (hcompletes : m.Completes y record force) : y = x ∧ force = d.force := by
  obtain ⟨hacts, hop⟩ := hcompletes
  refine ⟨Option.some.inj (hacts.symm.trans h.acts), ?_⟩
  obtain ⟨k, hdeeds | ⟨-, -, hdeeds⟩ | ⟨-, -, hdeeds⟩⟩ := h.deeds_eq
  · exact absurd hop (by simp [hdeeds])
  all_goals
    have hsame : record = Execution.finalRecord x.job o d ∧ force = d.force := by
      simpa [hdeeds] using hop
    exact hsame.2

theorem HandsOver.completes_of_published (h : m.HandsOver x d o) (he : e ∈ m.published) :
    m.Completes x (Execution.finalRecord x.job o d) d.force := by
  refine ⟨h.acts, ?_⟩
  rw [published_eq] at he
  obtain ⟨k, hdeeds | ⟨-, -, hdeeds⟩ | ⟨-, -, hdeeds⟩⟩ := h.deeds_eq
  · exact absurd he (by simp [hdeeds, Deed.event?])
  · exact absurd he (by simp [hdeeds, Deed.event?])
  · simp [hdeeds]

/-- A result that moves the stored job on is told of. -/
theorem HandsOver.told_of_takes (h : m.HandsOver x d o) {status : Status}
    (htakes : m.Takes x.job.id .running status) (hne : status ≠ .running) :
    Execution.event x.job o d ∈ m.published ∧ status ∈ d.results := by
  rcases h.cases with ⟨-, hentries⟩ | ⟨hpublished, -⟩
  · have hstays : (m.after.site.store.job? x.job.id).map (·.status) = some .running := by
      rw [Store.job?, Store.entry?_congr hentries]
      exact htakes.1
    exact absurd (Option.some.inj (htakes.2.symm.trans hstays)) hne
  · have htold : Execution.event x.job o d ∈ m.published := by simp [hpublished]
    obtain ⟨-, status', hmem, htakes'⟩ := (h.mem_published_iff _).mp htold
    obtain rfl := Option.some.inj (htakes.2.symm.trans htakes'.2)
    exact ⟨htold, hmem⟩

end Move

section

variable (h : Interleaving lapse start history sys) (hstart : start.Opening)
  (hw : start.Within Action.SparesResults) {x : Execution} {record : Job} {force : Bool} {e : Event}

include h hstart hw

/-- Behind what is told of a result is the call that moved the stored job on. -/
theorem Interleaving.completes_of_published (hm : m ∈ history) (he : e ∈ m.published)
    (hfinal : e.isFinal = true) : ∃ x record status force, m.Completes x record force ∧
      Event.Tells x.job status force e ∧ (m.Takes x.job.id .running status ∨
        force = false ∧ m.Takes x.job.id .running .created) := by
  obtain ⟨x, d, o, hover, rfl, result, hresult, htakes⟩ :=
    (h.mem_published_iff hstart hw hm hfinal).mp he
  refine ⟨x, _, d.status, d.force, hover.completes_of_published he,
    Execution.tells_event x.job o d, ?_⟩
  rcases Disposition.eq_or_of_mem_results hresult with rfl | ⟨hforce, rfl⟩
  · exact .inl htakes
  · exact .inr ⟨hforce, htakes⟩

/-- An execution tells of a call that moves the stored job on. -/
theorem Interleaving.published_of_completes (hm : m ∈ history)
    (hcompletes : m.Completes x record force) {result : Status}
    (htakes : m.Takes x.job.id .running result) (hne : result ≠ .running) :
    ∃ e status, e ∈ m.published ∧ Event.Tells x.job status force e ∧
      (result = status ∨ force = false ∧ result = .created) := by
  rcases h.handsOver_or hstart hw hm with ⟨y, d, o, hover⟩ | ⟨-, hops⟩
  · obtain ⟨rfl, rfl⟩ := hover.of_completes hcompletes
    obtain ⟨htold, hresult⟩ := hover.told_of_takes htakes hne
    exact ⟨_, d.status, htold, Execution.tells_event x.job o d,
      Disposition.eq_or_of_mem_results hresult⟩
  · exact absurd rfl (hops _ hcompletes.2 record force)

theorem Interleaving.published_of_ends (hm : m ∈ history) (hcompletes : m.Completes x record force)
    {result : Status} (htakes : m.Takes x.job.id .running result) (ht : result.isTerminal = true) :
    ∃ e ∈ m.published, Event.Tells x.job result force e := by
  have hne : result ≠ .running ∧ result ≠ .created := by
    constructor <;>
      rintro rfl <;> exact absurd ht (by decide)
  obtain ⟨e, status, he, htells, hresult⟩ :=
    h.published_of_completes hstart hw hm hcompletes htakes hne.1
  obtain rfl := hresult.resolve_right fun hcreated => hne.2 hcreated.2
  exact ⟨e, he, htells⟩

theorem Interleaving.completed_mem_published_iff (hm : m ∈ history) (id : Int) (queue : Queue) :
    .jobCompleted id queue ∈ m.published ↔
      ∃ x record force, m.Completes x record force ∧ x.job.id = id ∧ x.job.queue = queue ∧
        m.Takes id .running .completed := by
  constructor
  · intro he
    obtain ⟨x, record, _, force, hcompletes, htells, htakes⟩ :=
      h.completes_of_published hstart hw hm he rfl
    cases htells
    exact ⟨x, record, _, hcompletes, rfl, rfl, htakes.resolve_right (by simp)⟩
  · rintro ⟨x, record, force, hcompletes, rfl, rfl, htakes⟩
    obtain ⟨e, he, htells⟩ := h.published_of_ends hstart hw hm hcompletes htakes rfl
    cases htells
    exact he

theorem Interleaving.cancelled_mem_published_iff (hm : m ∈ history) (id : Int) (queue : Queue) :
    .jobCancelled id queue ∈ m.published ↔
      ∃ x record force, m.Completes x record force ∧ x.job.id = id ∧ x.job.queue = queue ∧
        m.Takes id .running .cancelled := by
  constructor
  · intro he
    obtain ⟨x, record, _, force, hcompletes, htells, htakes⟩ :=
      h.completes_of_published hstart hw hm he rfl
    cases htells
    exact ⟨x, record, _, hcompletes, rfl, rfl, htakes.resolve_right (by simp)⟩
  · rintro ⟨x, record, force, hcompletes, rfl, rfl, htakes⟩
    obtain ⟨e, he, htells⟩ := h.published_of_ends hstart hw hm hcompletes htakes rfl
    cases htells
    exact he

theorem Interleaving.failed_mem_published_iff (hm : m ∈ history) (id : Int) (queue : Queue) :
    (∃ error, .jobFailed id queue false error ∈ m.published) ↔
      ∃ x record, m.Completes x record true ∧ x.job.id = id ∧ x.job.queue = queue ∧
        m.Takes id .running .failed := by
  constructor
  · rintro ⟨error, he⟩
    obtain ⟨x, record, _, force, hcompletes, htells, htakes⟩ :=
      h.completes_of_published hstart hw hm he rfl
    cases htells
    exact ⟨x, record, hcompletes, rfl, rfl, htakes.resolve_right (by simp)⟩
  · rintro ⟨x, record, hcompletes, rfl, rfl, htakes⟩
    obtain ⟨e, he, htells⟩ := h.published_of_ends hstart hw hm hcompletes htakes rfl
    cases htells
    exact ⟨_, he⟩

theorem Interleaving.softFailed_mem_published_iff (hm : m ∈ history) (id : Int) (queue : Queue) :
    (∃ error, .jobFailed id queue true error ∈ m.published) ↔
      ∃ x record, m.Completes x record false ∧ x.job.id = id ∧ x.job.queue = queue ∧
        (m.Takes id .running .created ∨ m.Takes id .running .failed) := by
  constructor
  · rintro ⟨error, he⟩
    obtain ⟨x, record, _, force, hcompletes, htells, htakes⟩ :=
      h.completes_of_published hstart hw hm he rfl
    cases htells
    exact ⟨x, record, hcompletes, rfl, rfl, htakes.symm.imp_left And.right⟩
  · rintro ⟨x, record, hcompletes, rfl, rfl, htakes⟩
    have htaken : ∃ result, result ≠ .running ∧ m.Takes x.job.id .running result :=
      htakes.elim (fun h => ⟨_, by simp, h⟩) fun h => ⟨_, by simp, h⟩
    obtain ⟨result, hne, htakes⟩ := htaken
    obtain ⟨e, _, he, htells, -⟩ := h.published_of_completes hstart hw hm hcompletes htakes hne
    cases htells
    exact ⟨_, he⟩

end

/-- That each job comes to one outcome along a history. -/
structure OneOutcome (history : List Move) (sys : Ensemble) : Prop where
  /-- An execution says that a job is completed just when its call has made it that. -/
  completed : ∀ m ∈ history, ∀ id queue, .jobCompleted id queue ∈ m.published ↔
    ∃ x record force, m.Completes x record force ∧ x.job.id = id ∧ x.job.queue = queue ∧
      m.Takes id .running .completed
  cancelled : ∀ m ∈ history, ∀ id queue, .jobCancelled id queue ∈ m.published ↔
    ∃ x record force, m.Completes x record force ∧ x.job.id = id ∧ x.job.queue = queue ∧
      m.Takes id .running .cancelled
  /-- It says that a job has failed for good just when its call with force has made it fail. -/
  failed : ∀ m ∈ history, ∀ id queue, (∃ error, .jobFailed id queue false error ∈ m.published) ↔
    ∃ x record, m.Completes x record true ∧ x.job.id = id ∧ x.job.queue = queue ∧
      m.Takes id .running .failed
  /-- It says that a job has failed for now just when its call without force has put the job back or
  has made it fail. -/
  softFailed : ∀ m ∈ history, ∀ id queue,
    (∃ error, .jobFailed id queue true error ∈ m.published) ↔
      ∃ x record, m.Completes x record false ∧ x.job.id = id ∧ x.job.queue = queue ∧
        (m.Takes id .running .created ∨ m.Takes id .running .failed)
  /-- What is told of a job that is over then is the last word on it. -/
  last : ∀ before m after, history = before ++ m :: after →
    ∀ e ∈ m.published, e.isFinal = true → ∀ id, e.job? = some id →
    ∀ former latter, latter.isTerminal = true → m.Takes id former latter →
    m.published = [e] ∧
      ∀ m' ∈ after, ∀ e' ∈ m'.published, e'.isFinal = true → e'.job? ≠ some id
  /-- A job that is over ended as the execution under its highest version decided. -/
  decided : ∀ id e, sys.site.store.entry? id = some e → e.job.status.isTerminal = true →
    (∃ m ∈ history, ∃ x d o, m.HandsOver x d o ∧ m.Takes id .running e.job.status ∧
      x.job.id = id ∧ x.job.version = e.job.version ∧
      d.status = e.job.status ∧ o.result? = e.job.result) ∧
    IsGreatest (versions history id) e.job.version

/-- Whatever the order in which tasks move, leases expire and calls fail, and whatever else is
done to the store: if only executions hand results over, each job comes to one outcome. -/
theorem one_outcome_per_job (maxRetries : Int) (hstart : start.Opening)
    (hempty : start.site.store = .empty maxRetries) (hw : start.Within Action.SparesResults)
    (h : Interleaving anytime start history sys) : OneOutcome history sys := by
  have hsound : start.site.store.Sound := hempty ▸ Store.sound_empty maxRetries
  constructor
  case completed => exact fun m hm => h.completed_mem_published_iff hstart hw hm
  case cancelled => exact fun m hm => h.cancelled_mem_published_iff hstart hw hm
  case failed => exact fun m hm => h.failed_mem_published_iff hstart hw hm
  case softFailed => exact fun m hm => h.softFailed_mem_published_iff hstart hw hm
  case last =>
    rintro before m after rfl e he hfinal id hjob former latter ht htakes
    have hm : m ∈ before ++ m :: after := List.mem_append_right _ List.mem_cons_self
    refine ⟨(h.verdict?_of_published hstart hw hm he hfinal hjob).2, fun m' hm' e' he' hfinal' => ?_⟩
    exact h.silent_after hstart hsound hw htakes.2 ht hm' he' hfinal'
  case decided =>
    intro id e he ht
    have hopen : ∀ id, start.site.store.verdict? id = none := fun id => by rw [hempty]; rfl
    have hv : sys.site.store.verdict? id = some ⟨e.job.version, e.job.status, e.job.result⟩ := by
      rw [Store.verdict?, he, Option.bind_some, Entry.verdict?, if_pos ht]
    obtain ⟨m, hm, x, d, o, hover, hid, hverdict, htakes⟩ :=
      h.exists_handsOver hstart hsound hw hopen hv
    rw [Verdict.mk.injEq] at hverdict
    obtain ⟨hversion, hstatus, hresult⟩ := hverdict
    refine ⟨⟨m, hm, x, d, o, hover, hstatus ▸ htakes, hid, hversion.symm, hstatus.symm,
      hresult.symm⟩, ?_, ?_⟩
    · refine h.mem_versions_of_begun hempty ⟨e, he, ?_, rfl⟩
      intro hcreated
      rw [hcreated] at ht
      exact absurd ht (by decide)
    · intro version hversion'
      obtain ⟨e', he', hle⟩ := h.version_le hsound hversion'
      rw [he, Option.some.injEq] at he'
      exact he' ▸ hle

/-- Two loops and three jobs, of which the first has a handler that outlasts its lease. -/
def takeover : Ensemble :=
  let sys := Ensemble.lone .default [(0, .enqueue .exports "" none 3)] (.scripted 0 "script"
    [⟨[.sleep 700000], .returns (.ok "late")⟩,
      ⟨[], .returns (.error (.softFailed (.string "busy") false))⟩, ⟨[], .returns (.ok "done")⟩,
      ⟨[], .returns (.error (.failed (.string "broken") false))⟩,
      ⟨[], .returns (.error .cancelled)⟩])
  sys.host (.loop (.fresh .exports "b" 1 sys.site.shutdown))

/-- The first loop begins with the first job. The second one takes it over, ends it with its second
try, and ends the others, and then the first one comes back with its result. -/
def takeoverTurns : List Turn :=
  [Turn.go 0, .go 1, .go 2, .pass 2000] ++ List.replicate 6 (Turn.go 1) ++
    [Turn.go 2, .pass 1900000] ++ List.replicate 35 (Turn.go 2) ++ List.replicate 6 (Turn.go 1)

theorem within_takeover : takeover.Within Action.SparesResults := by
  refine (Ensemble.within_lone ?_ ?_).host fun x hx => absurd hx (by simp [PollLoop.fresh])
  · intro entry hentry
    obtain rfl := List.mem_singleton.mp hentry
    exact trivial
  · intro turn hturn step hstep
    simp only [List.mem_cons, List.not_mem_nil, or_false] at hturn
    rcases hturn with rfl | rfl | rfl | rfl | rfl
    · obtain rfl := List.mem_singleton.mp hstep
      exact trivial
    all_goals exact absurd hstep List.not_mem_nil

theorem one_outcome_per_job_takeover :
    (takeover.follow anytime takeoverTurns).1.flatMap Move.published =
        [.jobStarted 1 .exports, .jobStarted 1 .exports,
          .jobFailed 1 .exports true "job soft failed: \"busy\"", .jobStarted 1 .exports,
          .jobCompleted 1 .exports, .jobStarted 2 .exports,
          .jobFailed 2 .exports false "job failed: \"broken\"", .jobStarted 3 .exports,
          .jobCancelled 3 .exports] ∧
      (takeover.follow anytime takeoverTurns).2.site.store.verdict? 1 =
        some ⟨3, .completed, some "done"⟩ ∧
      OneOutcome (takeover.follow anytime takeoverTurns).1
        (takeover.follow anytime takeoverTurns).2 := by
  refine ⟨by decide +kernel, by decide +kernel, ?_⟩
  have hopening : takeover.Opening := (Ensemble.opening_lone _ _ _).host rfl
  exact one_outcome_per_job Store.defaultRetries hopening rfl within_takeover
    (Ensemble.interleaving_follow anytime takeoverTurns takeover)

end Host

end LeasedWork
