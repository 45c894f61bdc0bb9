import LeasedWork.Proofs.Host.Departure
import LeasedWork.Proofs.Host.Kinship

/-!
# Fleets that fail closed

Pools and the service both watch a fleet, so what holds of either is shown of the task that watches
one. The invariant says what such a task has and has not noticed of its fleet: whoever it no longer
counts as running has ended, and once it has noticed one end the token that the fleet shares is
cancelled. An end that it has not noticed does not let it wait.
-/
namespace LeasedWork

namespace Engine

variable {s : Site} {f : Fleet} {k : Token}

/-! ## Tokens that are cancelled -/

/-- Whether a deed cancels a token, by itself or with one above it. -/
def Deed.Cancels (d : Deed) (k : Token) : Prop :=
  match d with
  | .cancel t | .abandon t => t.covers k = true
  | .operate _ | .skip | .publish _ | .child _ | .hold _ | .release _ | .spawn _ | .stop _ => False

theorem Deed.isCancelled_on (s : Site) (d : Deed) (k : Token) :
    (d.on s).isCancelled k = true ↔ s.isCancelled k = true ∨ d.Cancels k := by
  cases d with
  | cancel t =>
    simp [on, Site.cancel, Site.isCancelled, Tokens.isCancelled_cancel, Cancels, or_comm]
  | abandon t =>
    simp [on, Site.abandon, Site.isCancelled, Tokens.isCancelled_abandon, Cancels, or_comm]
  | release t => simp [on, Site.release, Site.isCancelled, Tokens.isCancelled_release, Cancels]
  | _ => exact ⟨Or.inl, fun h => h.resolve_right id⟩

theorem Deed.isCancelled_onAll (s : Site) (deeds : List Deed) (k : Token) :
    (onAll s deeds).isCancelled k = true ↔ s.isCancelled k = true ∨ ∃ d ∈ deeds, d.Cancels k := by
  induction deeds generalizing s with
  | nil => simp [onAll]
  | cons d rest ih =>
    apply (ih (d.on s)).trans
    rw [isCancelled_on, or_assoc, List.exists_mem_cons_iff]

/-! ## What a fleet makes of an end -/

/-- A fleet of which one more task was seen to end. -/
def Fleet.without (f : Fleet) (id : TaskId) : Fleet :=
  { f with running := f.running.filter (· ≠ id), broken := true }

theorem Fleet.noteEnd_fst (s : Site) (f : Fleet) (id : TaskId) (panicked : Bool) :
    (f.noteEnd s id panicked).1 = f.without id := by
  unfold noteEnd without
  dsimp only
  split <;> rfl

theorem Fleet.step_cases (s : Site) (f : Fleet) :
    f.running = [] ∧ (f.step s).1 = .done () ∨
    (∃ id panicked, s.firstEnded? f.running = some (id, panicked) ∧ f.running ≠ [] ∧
      (f.step s).1 = .more (f.without id)) ∨
    s.firstEnded? f.running = none ∧ f.running ≠ [] ∧
      (f.step s).1 = .wait (.anyEnded f.running) f := by
  unfold step
  by_cases hr : f.running = []
  · exact .inl ⟨hr, by simp only [if_pos hr]⟩
  · simp only [if_neg hr]
    cases hf : s.firstEnded? f.running with
    | none => exact .inr (.inr ⟨rfl, hr, rfl⟩)
    | some ended =>
      exact .inr (.inl ⟨ended.1, ended.2, rfl, hr, congrArg Progress.more (f.noteEnd_fst s _ _)⟩)

/-- The end that a fleet takes note of is that of one of its tasks. -/
theorem Site.of_firstEnded? {ids : List TaskId} {id : TaskId} {panicked : Bool}
    (h : s.firstEnded? ids = some (id, panicked)) : id ∈ ids ∧ s.hasEnded id = true := by
  constructor
  · simpa using List.find?_some h
  · exact Site.hasEnded_iff.mpr ⟨panicked, List.mem_of_find?_eq_some h⟩

/-- As long as the end of a task was not noted, there is an end to be noted. -/
theorem Site.firstEnded?_isSome {ids : List TaskId} {id : TaskId} (hid : id ∈ ids)
    (h : s.hasEnded id = true) : (s.firstEnded? ids).isSome = true := by
  obtain ⟨panicked, hmem⟩ := Site.hasEnded_iff.mp h
  rw [firstEnded?, List.find?_isSome]
  exact ⟨(id, panicked), hmem, decide_eq_true hid⟩

/-! ## Fleets that are launched -/

theorem Pool.starting_spawnLoops (queue : Queue) (worker : String) (k : Token) (slots : List Nat)
    (s : Site) : (spawnLoops queue worker k slots s).2.starting.reverse = s.starting.reverse ++
      (spawnLoops queue worker k slots s).1.zip (slots.map fun slot =>
        .loop queue worker slot k) := by
  induction slots generalizing s with
  | nil => simp [spawnLoops]
  | cons slot rest ih =>
    simp only [spawnLoops, List.map_cons, List.zip_cons_cons]
    rw [ih]
    simp [Site.spawn]

theorem Pool.length_spawnLoops (queue : Queue) (worker : String) (k : Token) (slots : List Nat)
    (s : Site) : (spawnLoops queue worker k slots s).1.length = slots.length := by
  induction slots generalizing s with
  | nil => rfl
  | cons slot rest ih => simp [spawnLoops, ih]

theorem Service.starting_spawnPools (worker : String) (scope : Token) (hosted : List HostedQueue)
    (s : Site) : (spawnPools worker scope hosted s).2.starting.reverse = s.starting.reverse ++
      (spawnPools worker scope hosted s).1.zip (hosted.map fun h =>
        .pool h.queue h.workers worker scope) := by
  induction hosted generalizing s with
  | nil => simp [spawnPools]
  | cons h rest ih =>
    simp only [spawnPools, List.map_cons, List.zip_cons_cons]
    rw [ih]
    simp [Site.spawn, Site.writeLog]

theorem Service.length_spawnPools (worker : String) (scope : Token) (hosted : List HostedQueue)
    (s : Site) : (spawnPools worker scope hosted s).1.length = hosted.length := by
  induction hosted generalizing s with
  | nil => rfl
  | cons h rest ih => simp [spawnPools, ih]

/-- A pool that makes its first move starts its loops under a new token, and watches them all. -/
theorem Pool.step_of_fresh {p : Pool} (hs : s.starting = []) (hphase : p.phase = .fresh) :
    ∃ f : Fleet, (p.step s).1 = .more { p with phase := .watching f } ∧ f.broken = false ∧
      f.scope = s.newToken p.shutdown ∧ f.running = (p.step s).2.starting.reverse.map (·.1) ∧
      (p.step s).2.starting.reverse.map (·.2) = (List.range p.size).map fun slot =>
        .loop p.queue p.worker slot (s.newToken p.shutdown) := by
  simp only [step, hphase, Site.within]
  refine ⟨_, rfl, rfl, rfl, ?_, ?_⟩
  · rw [starting_spawnLoops, List.map_append, List.map_fst_zip (by simp [length_spawnLoops])]
    simp [Site.publish, Site.writeLog, Site.childToken, hs]
  · rw [starting_spawnLoops, List.map_append, List.map_snd_zip (by simp [length_spawnLoops])]
    simp [Site.publish, Site.writeLog, Site.childToken, hs, Site.newToken]

/-- A service that finds the storage ready starts its pools under a new token, and watches them
all. -/
theorem Service.step_of_waiting {v : Service} (hs : s.starting = []) (hphase : v.phase = .waiting)
    (hready : s.isCancelled v.shutdown = false) :
    ∃ f : Fleet, (v.step s).1 = .more { v with phase := .watching f } ∧ f.broken = false ∧
      f.scope = s.newToken v.shutdown ∧ f.running = (v.step s).2.starting.reverse.map (·.1) ∧
      (v.step s).2.starting.reverse.map (·.2) = v.hosted.map fun h =>
        .pool h.queue h.workers v.worker (s.newToken v.shutdown) := by
  simp only [step, hphase, hready, Bool.false_eq_true, if_false]
  refine ⟨_, rfl, rfl, rfl, ?_, ?_⟩
  · rw [starting_spawnPools, List.map_append, List.map_fst_zip (by simp [length_spawnPools])]
    simp [Site.childToken, hs]
  · rw [starting_spawnPools, List.map_append, List.map_snd_zip (by simp [length_spawnPools])]
    simp [Site.childToken, hs, Site.newToken]

end Engine

namespace Host

open Engine

variable {lapse : Ensemble → Nat → Prop} {start sys next : Ensemble} {history : List Move}
  {a b : Activity} {id watcher : TaskId} {s t : Site} {f : Fleet} {scope k : Token}
  {ids : List TaskId}

theorem Move.isCancelled_after (m : Move) (k : Token) : m.after.site.isCancelled k = true ↔
    m.site.isCancelled k = true ∨ ∃ d ∈ m.deeds, d.Cancels k := by
  rw [Site.isCancelled, tokens_after]
  exact Deed.isCancelled_onAll _ _ _

/-! ## Tasks that watch fleets -/

/-- The fleet that a task watches. -/
def Task.fleet? : Task → Option Fleet
  | .pool p =>
    match p.phase with
    | .fresh => none
    | .watching loops => some loops
  | .service v =>
    match v.phase with
    | .fresh | .waiting => none
    | .watching pools => some pools
  | .heartbeat _ | .loop _ | .timeline _ | .listener _ | .eventLog _ | .runs _ | .conductor _
  | .watch _ => none

/-- What a move leaves of a task that watches a fleet. -/
inductive FleetGoes (s : Site) (f : Fleet) : Progress Task Unit → Prop
  | ends (h : f.running = []) : FleetGoes s f (.done ())
  | notes {id : TaskId} {panicked : Bool} {t : Task}
      (h : s.firstEnded? f.running = some (id, panicked)) (hrunning : f.running ≠ [])
      (ht : t.fleet? = some (f.without id)) :
    FleetGoes s f (.more t)
  | waits {t : Task} (h : s.firstEnded? f.running = none) (ht : t.fleet? = some f) :
    FleetGoes s f (.wait (.anyEnded f.running) t)

theorem Task.goes_of_fleet? {t : Task} (h : t.fleet? = some f) : FleetGoes s f (t.step s).1 := by
  cases t with
  | pool p =>
    cases hphase : p.phase with
    | fresh => simp [fleet?, hphase] at h
    | watching loops =>
      obtain rfl : loops = f := by simpa [fleet?, hphase] using h
      simp only [step, Pool.step, hphase, Site.within]
      rcases Fleet.step_cases { s with span := some p.span } loops with
        ⟨hr, hp⟩ | ⟨id, panicked, hf, hr, hp⟩ | ⟨hf, -, hp⟩
      · simp only [hp]
        exact .ends hr
      · simp only [hp]
        exact .notes hf hr rfl
      · simp only [hp]
        exact .waits hf rfl
  | service v =>
    cases hphase : v.phase with
    | watching pools =>
      obtain rfl : pools = f := by simpa [fleet?, hphase] using h
      simp only [step, Service.step, hphase]
      rcases Fleet.step_cases s pools with ⟨hr, hp⟩ | ⟨id, panicked, hf, hr, hp⟩ | ⟨hf, -, hp⟩
      · simp only [hp]
        exact .ends hr
      · simp only [hp]
        exact .notes hf hr rfl
      · simp only [hp]
        exact .waits hf rfl
    | _ => simp [fleet?, hphase] at h
  | _ => simp [fleet?] at h

/-- The first end that a task notices makes it cancel the token of its fleet. -/
theorem Task.cancel_mem_deeds {t : Task} (h : t.fleet? = some f) (hr : f.running ≠ [])
    (hb : f.broken = false) (he : s.firstEnded? f.running ≠ none) :
    .cancel f.scope ∈ t.deeds s := by
  have hmem : .cancel f.scope ∈ f.deeds s := by
    rw [Fleet.deeds, if_neg (by simp [hr, hb, he])]
    exact List.mem_singleton_self _
  cases t with
  | pool p =>
    cases hphase : p.phase with
    | fresh => simp [fleet?, hphase] at h
    | watching loops =>
      obtain rfl : loops = f := by simpa [fleet?, hphase] using h
      simp only [deeds, Pool.deeds, hphase]
      exact List.mem_append_left _ hmem
  | service v =>
    cases hphase : v.phase with
    | watching pools =>
      obtain rfl : pools = f := by simpa [fleet?, hphase] using h
      simp only [deeds, Service.deeds, hphase]
      exact hmem
    | _ => simp [fleet?, hphase] at h
  | _ => simp [fleet?] at h

theorem fleet?_heeding (a : Activity) (ids : List TaskId) :
    (a.heeding ids).task.fleet? = a.task.fleet? := by
  unfold Activity.heeding
  split
  · rw [Activity.stopped]
    cases a.task <;> rfl
  · rfl

theorem wait_of_heeding {ids : List TaskId} {w : Wait} (h : w ∈ (a.heeding ids).wait) :
    w ∈ a.wait := by
  unfold Activity.heeding at h
  split at h
  · exact absurd h (by simp [Activity.stopped])
  · exact h

/-- A pause leaves every task, and what it waits for if it still waits. -/
theorem Pause.exists_activity (h : Pause lapse sys next) (ha : a ∈ sys.activities) :
    ∃ b ∈ next.activities, b.id = a.id ∧ b.task = a.task ∧ ∀ w ∈ b.wait, w ∈ a.wait := by
  cases h with
  | lapse => exact ⟨a, ha, rfl, rfl, fun _ hw => hw⟩
  | turns => exact ⟨a, ha, rfl, rfl, fun _ hw => hw⟩
  | wake =>
    rw [Ensemble.activities_wake]
    obtain ⟨hid, htask, hwait⟩ := awoken_cases sys.site a
    refine ⟨_, List.mem_map_of_mem ha, hid, htask, fun w hw => ?_⟩
    rcases hwait with hwait | ⟨hwait, -⟩
    · exact hwait ▸ hw
    · exact absurd (hwait ▸ hw) (by simp)

/-! ## What is known of a fleet -/

/-- What a task knows of the tasks of its fleet: those that it no longer counts have ended, it
counts all of them until it has noticed an end, and has cancelled their token since. -/
structure FleetMinds (f : Fleet) (s : Site) (scope : Token) (ids : List TaskId) : Prop where
  shares : f.scope = scope
  seen : ∀ id ∈ ids, id ∈ f.running ∨ s.hasEnded id = true
  whole : f.broken = false → ∀ id ∈ ids, id ∈ f.running
  broken : f.broken = true → s.isCancelled scope = true

theorem FleetMinds.mono (h : FleetMinds f s scope ids)
    (hended : ∀ id, s.hasEnded id = true → t.hasEnded id = true)
    (hcancelled : s.isCancelled scope = true → t.isCancelled scope = true) :
    FleetMinds f t scope ids :=
  ⟨h.shares, fun id hid => (h.seen id hid).imp_right (hended id), h.whole,
    fun hb => hcancelled (h.broken hb)⟩

/-- Whether a task watches the tasks of some numbers, which share a token, or has ended after
them. -/
def Ensemble.Watched (sys : Ensemble) (watcher : TaskId) (scope : Token) (ids : List TaskId) :
    Prop :=
  (∃ a ∈ sys.activities, a.id = watcher ∧ ∃ f, a.task.fleet? = some f ∧
    FleetMinds f sys.site scope ids ∧ ∀ w ∈ a.wait, w = .anyEnded f.running) ∨
  sys.site.hasEnded watcher = true ∧ (watcher, true) ∉ sys.site.ended ∧
    (∀ id ∈ ids, sys.site.hasEnded id = true) ∧ (ids ≠ [] → sys.site.isCancelled scope = true)

/-- Once all tasks of a fleet have been seen to end, they have, and their token is cancelled. -/
theorem FleetMinds.over (h : FleetMinds f s scope ids) (hr : f.running = []) :
    (∀ id ∈ ids, s.hasEnded id = true) ∧ (ids ≠ [] → s.isCancelled scope = true) := by
  have hnone : ∀ id, id ∉ f.running := by simp [hr]
  refine ⟨fun id hid => (h.seen id hid).resolve_left (hnone id), fun hne => ?_⟩
  obtain ⟨id, hid⟩ := List.exists_mem_of_ne_nil ids hne
  cases hb : f.broken with
  | true => exact h.broken hb
  | false => exact absurd (h.whole hb id hid) (hnone id)

namespace Ensemble

theorem isCancelled_move (a : Activity) (h : sys.site.isCancelled k = true) :
    (sys.move a).site.isCancelled k = true :=
  (Move.isCancelled_after ⟨sys, a⟩ k).mpr (.inl h)

/-- Taking note of an end cancels the token of the fleet, unless that was done before. -/
theorem isCancelled_of_notes (hf : a.task.fleet? = some f)
    (hm : FleetMinds f sys.site scope ids) (hr : f.running ≠ [])
    (he : sys.site.firstEnded? f.running ≠ none) : (sys.move a).site.isCancelled scope = true := by
  cases hb : f.broken with
  | true => exact isCancelled_move a (hm.broken hb)
  | false =>
    refine (Move.isCancelled_after ⟨sys, a⟩ scope).mpr (.inr ⟨.cancel f.scope, ?_, ?_⟩)
    · exact Task.cancel_mem_deeds hf hr hb he
    · rw [hm.shares]
      exact Tokens.covers_refl scope

/-- A task that makes a move goes on minding its fleet, or ends after all of it. -/
theorem watched_move_self (hs : sys.Sound) (hd : sys.Departed) (ha : a ∈ sys.activities)
    (hf : a.task.fleet? = some f) (hm : FleetMinds f sys.site scope ids) :
    (sys.move a).Watched a.id scope ids := by
  have hended : ∀ id, sys.site.hasEnded id = true → (sys.move a).site.hasEnded id = true :=
    fun id h => (hasEnded_move sys a).mpr (.inl h)
  have hcancelled : sys.site.isCancelled scope = true →
      (sys.move a).site.isCancelled scope = true := isCancelled_move a
  have hgoes := Task.goes_of_fleet? (s := sys.site) hf
  generalize hstep : (a.task.step sys.site).1 = p at hgoes
  cases hgoes with
  | ends hr =>
    obtain ⟨hall, hscope⟩ := hm.over hr
    have hnotice := ended_move sys a
    rw [hstep] at hnotice
    refine .inr ⟨?_, ?_, fun id hid => hended id (hall id hid), fun hne => hcancelled (hscope hne)⟩
    · exact (hasEnded_move sys a).mpr (.inr ⟨rfl, by rw [hstep]; simp [Progress.end?]⟩)
    · rw [hnotice]
      have hbefore : (a.id, true) ∉ sys.site.ended := fun hmem =>
        hd.gone a.id (Site.hasEnded_iff.mpr ⟨true, hmem⟩) (List.mem_map_of_mem ha)
      simp [Progress.end?, hbefore]
  | @notes id panicked t he hr ht =>
    obtain ⟨c, hc, hgo, hmem⟩ := hs.mem_move_of_state? ha (t := t) (by rw [hstep]; rfl)
    rw [hstep] at hgo
    obtain ⟨rfl, hwait⟩ : c.task = t ∧ c.wait = none := by
      cases hgo with
      | more ht hw => exact ⟨ht, hw⟩
    refine .inl ⟨_, hmem, (c.id_heeding _).trans hc, f.without id, ?_, ?_, fun w hw => ?_⟩
    · rw [fleet?_heeding, ht]
    · obtain ⟨-, hid⟩ := Site.of_firstEnded? he
      refine ⟨hm.shares, fun other hother => ?_, fun hb => absurd hb (by simp [Fleet.without]),
        fun _ => isCancelled_of_notes hf hm hr (by simp [he])⟩
      rcases hm.seen other hother with hrunning | hbefore
      · by_cases heq : other = id
        · exact .inr (hended other (heq ▸ hid))
        · exact .inl (List.mem_filter.mpr ⟨hrunning, by simpa using heq⟩)
      · exact .inr (hended other hbefore)
    · have hw := wait_of_heeding hw
      rw [hwait] at hw
      exact absurd hw (by simp)
  | @waits t he ht =>
    obtain ⟨c, hc, hgo, hmem⟩ := hs.mem_move_of_state? ha (t := t) (by rw [hstep]; rfl)
    rw [hstep] at hgo
    obtain ⟨rfl, hwait⟩ : c.task = t ∧ ∀ w ∈ c.wait, w = .anyEnded f.running := by
      cases hgo with
      | elapsed _ ht hw => exact ⟨ht, by simp [hw]⟩
      | wait _ ht hw => exact ⟨ht, by simp [hw]⟩
    refine .inl ⟨_, hmem, (c.id_heeding _).trans hc, f, ?_, hm.mono hended hcancelled,
      fun w hw => hwait w (wait_of_heeding hw)⟩
    rw [fleet?_heeding, ht]

theorem Watched.move (hw : sys.Watched watcher scope ids) (hs : sys.Sound) (hd : sys.Departed)
    (ha : a ∈ sys.activities) : (sys.move a).Watched watcher scope ids := by
  have hended : ∀ id, sys.site.hasEnded id = true → (sys.move a).site.hasEnded id = true :=
    fun id h => (hasEnded_move sys a).mpr (.inl h)
  have hcancelled : sys.site.isCancelled scope = true →
      (sys.move a).site.isCancelled scope = true := isCancelled_move a
  rcases hw with ⟨b, hb, rfl, f, hf, hm, hwait⟩ | ⟨hover, hcalm, hall, hscope⟩
  · by_cases hid : b.id = a.id
    · obtain rfl := eq_of_id_eq hs.nodup hb ha hid
      exact watched_move_self hs hd hb hf hm
    · refine .inl ⟨_, hs.mem_move_of_ne hb hid, b.id_heeding _, f, ?_, hm.mono hended hcancelled,
        fun w hw => hwait w (wait_of_heeding hw)⟩
      rw [fleet?_heeding, hf]
  · refine .inr ⟨hended _ hover, ?_, fun id hid => hended id (hall id hid),
      fun hne => hcancelled (hscope hne)⟩
    have hne : watcher ≠ a.id := by
      rintro rfl
      exact hd.gone a.id hover (List.mem_map_of_mem ha)
    rw [ended_move]
    simp [hcalm, Ne.symm hne]

theorem Watched.pause (hw : sys.Watched watcher scope ids) (hp : Pause lapse sys next) :
    next.Watched watcher scope ids := by
  have hended : ∀ id, sys.site.hasEnded id = true → next.site.hasEnded id = true :=
    fun id h => (hp.hasEnded_eq id).trans h
  have hcancelled : ∀ k, sys.site.isCancelled k = true → next.site.isCancelled k = true := by
    obtain ⟨clock, -, hsite⟩ := hp.site_eq
    rw [hsite]
    exact fun _ h => h
  rcases hw with ⟨b, hb, rfl, f, hf, hm, hwait⟩ | ⟨hover, hcalm, hall, hscope⟩
  · obtain ⟨c, hc, hid, htask, hw⟩ := hp.exists_activity hb
    exact .inl ⟨c, hc, hid, f, htask ▸ hf, hm.mono hended (hcancelled scope),
      fun w h => hwait w (hw w h)⟩
  · exact .inr ⟨hended _ hover, hp.ended_eq ▸ hcalm, fun id hid => hended id (hall id hid),
      fun hne => hcancelled scope (hscope hne)⟩

end Ensemble

theorem Interleaving.watched (h : Interleaving lapse start history sys) (hs : start.Sound)
    (hd : start.Departed) (hw : start.Watched watcher scope ids) :
    sys.Watched watcher scope ids := by
  induction h with
  | nil => exact hw
  | move h ha _ ih => exact ih.move (h.sound hs) (h.departed hs hd) ha
  | pause _ hp ih => exact ih.pause hp

/-! ## From the launch of a fleet -/

/-- Whether a move launches a fleet: it starts some tasks under a token, and from then on watches
them. -/
def Move.Launches (m : Move) (scope : Token) (starts : List Start) : Prop :=
  m.launched.map (·.2) = starts ∧ ∃ t f, (m.mover.task.step m.site).1 = .more t ∧
    t.fleet? = some f ∧ f.broken = false ∧ f.scope = scope ∧ f.running = m.launched.map (·.1)

theorem Move.launches_of_pool {m : Move} {p : Pool} (hs : m.sys.Sound)
    (ht : m.mover.task = .pool p) (hphase : p.phase = .fresh) :
    m.Launches (m.site.newToken p.shutdown) ((List.range p.size).map fun slot =>
      .loop p.queue p.worker slot (m.site.newToken p.shutdown)) := by
  obtain ⟨f, hstep, hbroken, hscope, hrunning, hstarts⟩ :=
    Pool.step_of_fresh (s := m.site) hs.starting hphase
  have htask : m.mover.task.step m.site = ((p.step m.site).1.within Task.pool .done,
      (p.step m.site).2) := by rw [ht]; rfl
  refine ⟨?_, .pool { p with phase := .watching f }, f, ?_, rfl, hbroken, hscope, ?_⟩
  · rw [launched, htask]
    exact hstarts
  · rw [htask, hstep]
    rfl
  · rw [launched, htask]
    exact hrunning

theorem Move.launches_of_service {m : Move} {v : Service} (hs : m.sys.Sound)
    (ht : m.mover.task = .service v) (hphase : v.phase = .waiting)
    (hready : m.site.isCancelled v.shutdown = false) :
    m.Launches (m.site.newToken v.shutdown) (v.hosted.map fun h =>
      .pool h.queue h.workers v.worker (m.site.newToken v.shutdown)) := by
  obtain ⟨f, hstep, hbroken, hscope, hrunning, hstarts⟩ :=
    Service.step_of_waiting (s := m.site) hs.starting hphase hready
  have htask : m.mover.task.step m.site = ((v.step m.site).1.within Task.service .done,
      (v.step m.site).2) := by rw [ht]; rfl
  refine ⟨?_, .service { v with phase := .watching f }, f, ?_, rfl, hbroken, hscope, ?_⟩
  · rw [launched, htask]
    exact hstarts
  · rw [htask, hstep]
    rfl
  · rw [launched, htask]
    exact hrunning

theorem Move.Launches.watched {m : Move} {starts : List Start} (h : m.Launches scope starts)
    (hs : m.sys.Sound) (ha : m.mover ∈ m.sys.activities) :
    m.after.Watched m.mover.id scope (m.launched.map (·.1)) := by
  obtain ⟨-, t, f, hstep, hf, hbroken, hscope, hrunning⟩ := h
  have hstep : (m.mover.task.step m.sys.site).1 = .more t := hstep
  obtain ⟨c, hc, hgo, hmem⟩ := hs.mem_move_of_state? ha (t := t) (by rw [hstep]; rfl)
  rw [hstep] at hgo
  obtain ⟨rfl, hwait⟩ : c.task = t ∧ c.wait = none := by
    cases hgo with
    | more ht hw => exact ⟨ht, hw⟩
  refine .inl ⟨_, hmem, (c.id_heeding _).trans hc, f, ?_, ?_, fun w hw => ?_⟩
  · rw [fleet?_heeding, hf]
  · exact ⟨hscope, fun id hid => .inl (hrunning ▸ hid), fun _ id hid => hrunning ▸ hid,
      fun hb => absurd (hbroken.symm.trans hb) (by simp)⟩
  · have hw := wait_of_heeding hw
    rw [hwait] at hw
    exact absurd hw (by simp)

/-- That a task fails closed with the fleet that it watches. -/
structure FailsClosed (sys : Ensemble) (watcher : TaskId) (scope : Token) (ids : List TaskId) :
    Prop where
  /-- When one task of the fleet has ended, the token of all is cancelled, or the watching task is
  free to move and cancels it when it does. -/
  cancels : ∀ id ∈ ids, id ∉ sys.ids → sys.site.isCancelled scope = true ∨
    ∃ a ∈ sys.activities, a.id = watcher ∧ a.isFree sys.site = true ∧
      (sys.move a).site.isCancelled scope = true
  /-- No time passes before it is cancelled. -/
  prompt : ∀ id ∈ ids, id ∉ sys.ids → ∀ clock, whenIdle sys clock →
    sys.site.isCancelled scope = true
  /-- The watching task ends after all tasks of the fleet. -/
  awaits : watcher ∉ sys.ids → ∀ id ∈ ids, id ∉ sys.ids
  /-- The watching task does not break down. -/
  calm : (watcher, true) ∉ sys.site.ended

theorem Ensemble.Watched.cancels (hw : sys.Watched watcher scope ids) (hid : id ∈ ids)
    (hended : sys.site.hasEnded id = true) : sys.site.isCancelled scope = true ∨
      ∃ a ∈ sys.activities, a.id = watcher ∧ a.isFree sys.site = true ∧
        (sys.move a).site.isCancelled scope = true := by
  rcases hw with ⟨a, ha, rfl, f, hf, hm, hwait⟩ | ⟨-, -, -, hscope⟩
  · cases hb : f.broken with
    | true => exact .inl (hm.broken hb)
    | false =>
      have hrunning := hm.whole hb id hid
      have hsome := Site.firstEnded?_isSome hrunning hended
      refine .inr ⟨a, ha, rfl, ?_, isCancelled_of_notes hf hm (List.ne_nil_of_mem hrunning) ?_⟩
      · unfold Activity.isFree
        cases hw : a.wait with
        | none => rfl
        | some w =>
          rw [hwait w hw, Option.all_some, Wait.isOver]
          exact hsome
      · exact Option.isSome_iff_ne_none.mp hsome
  · exact .inl (hscope (List.ne_nil_of_mem hid))

/-- What is started in a move and watched from then on fails closed. -/
theorem Move.Launches.failsClosed {m : Move} {starts : List Start} (h : m.Launches scope starts)
    (hs : m.sys.Sound) (hd : m.sys.Departed) (ha : m.mover ∈ m.sys.activities)
    (hlater : Interleaving lapse m.after history sys) :
    FailsClosed sys m.mover.id scope (m.launched.map (·.1)) := by
  have hs' : m.after.Sound := hs.move m.mover ha
  have hd' : m.after.Departed := hd.move hs ha
  have hw : sys.Watched m.mover.id scope (m.launched.map (·.1)) :=
    hlater.watched hs' hd' (h.watched hs ha)
  have hended : ∀ id ∈ m.launched.map (·.1), (sys.site.hasEnded id = true ↔ id ∉ sys.ids) :=
    fun id hid => hlater.hasEnded_iff hs' hd' ((hs.mem_ids_move ha).mpr (.inr hid))
  have hcancels := fun id hid hgone => hw.cancels hid ((hended id hid).mpr hgone)
  refine ⟨hcancels, fun id hid hgone clock hidle => ?_, fun hover id hid => ?_, ?_⟩
  · rcases hcancels id hid hgone with hcancelled | ⟨a, ha, -, hfree, -⟩
    · exact hcancelled
    · exact absurd ((hidle a ha).1.symm.trans hfree) (by simp)
  · rcases hw with ⟨a, ha, hwatcher, -⟩ | ⟨-, -, hall, -⟩
    · exact absurd (hwatcher ▸ List.mem_map_of_mem ha) hover
    · exact (hended id hid).mp (hall id hid)
  · rcases hw with ⟨a, ha, hwatcher, -⟩ | ⟨-, hcalm, -⟩
    · intro hmem
      have hgone := (hlater.departed hs' hd').gone m.mover.id (Site.hasEnded_iff.mpr ⟨true, hmem⟩)
      exact hgone (hwatcher ▸ List.mem_map_of_mem ha)
    · exact hcalm

end Host

end LeasedWork
