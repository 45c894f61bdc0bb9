import LeasedWork.Proofs.Host.Opening

/-!
# Tasks that have ended

A task that ends leaves the ensemble, and the site remembers its number and whether it broke down.
Numbers are not given out twice, so a task that has ended is a task that is not there any more, and
the other way round for every task that was there once. What watches a task may go by either.
-/
namespace LeasedWork

namespace Engine

/-- Whether a move ends its task: by breaking down or not. -/
def Progress.end? {σ ρ : Type} : Progress σ ρ → Option Bool
  | .more _ | .wait _ _ => none
  | .done _ => some false
  | .crash => some true

theorem Progress.end?_eq_none {σ ρ : Type} {p : Progress σ ρ} :
    p.end? = none ↔ ∃ state, p.state? = some state := by
  cases p <;> simp [end?, state?]

theorem Progress.end?_eq_true {σ ρ : Type} {p : Progress σ ρ} :
    p.end? = some true ↔ p = .crash := by
  cases p <;> simp [end?]

theorem Site.hasEnded_iff {s : Site} {id : TaskId} :
    s.hasEnded id = true ↔ ∃ panicked, (id, panicked) ∈ s.ended := by
  simp [hasEnded]

theorem Site.ended_onAll (s : Site) (deeds : List Deed) : (Deed.onAll s deeds).ended = s.ended :=
  Deed.onAll_induction (P := fun t => t.ended = s.ended)
    (fun d _ _ h => by cases d <;> exact h) rfl

end Engine

namespace Host

open Engine

variable {lapse : Ensemble → Nat → Prop} {start sys next : Ensemble} {history : List Move}
  {a b : Activity} {id : TaskId}

/-- The tasks that a move starts, with their numbers, the first one first. -/
def Move.launched (m : Move) : List (TaskId × Start) :=
  (m.mover.task.step m.site).2.starting.reverse

/-- A task that takes no notice of being told to stop. -/
theorem Activity.task_heeding (a : Activity) {ids : List TaskId} (h : a.task.stop = a.task) :
    (a.heeding ids).task = a.task := by
  unfold heeding
  split
  · exact h
  · rfl

/-- A task that goes on from its move and cannot be stopped is there after it. -/
theorem Ensemble.Sound.exists_move_of_state? (hs : sys.Sound) (ha : a ∈ sys.activities) {t : Task}
    (h : (a.task.step sys.site).1.state? = some t) (hstop : t.stop = t) :
    ∃ b ∈ (sys.move a).activities, b.id = a.id ∧ b.task = t := by
  obtain ⟨c, hid, hgo, hmem⟩ := hs.mem_move_of_state? ha h
  have htask : c.task = t := Option.some.inj (hgo.state?.symm.trans h)
  exact ⟨_, hmem, (c.id_heeding _).trans hid,
    (c.task_heeding (by rw [htask, hstop])).trans htask⟩

/-- The move of another task leaves a task that cannot be stopped as it is. -/
theorem Ensemble.Sound.exists_move_of_ne (hs : sys.Sound) (hb : b ∈ sys.activities)
    (hne : b.id ≠ a.id) (hstop : b.task.stop = b.task) :
    ∃ c ∈ (sys.move a).activities, c.id = b.id ∧ c.task = b.task :=
  ⟨_, hs.mem_move_of_ne hb hne, b.id_heeding _, b.task_heeding hstop⟩

theorem Task.ended_step (s : Site) (t : Task) : (t.step s).2.ended = s.ended :=
  (t.aside_step s).ended.trans (s.ended_onAll _)

namespace Ensemble

theorem ended_moved (sys : Ensemble) (a : Activity) : (sys.moved a).site.ended =
    sys.site.ended ++ ((a.task.step sys.site).1.end?.map (a.id, ·)).toList := by
  have hstep := a.task.ended_step sys.site
  unfold moved
  dsimp only
  cases (a.task.step sys.site).1 with
  | more task => simpa [setActivity, Progress.end?] using hstep
  | wait w task =>
    dsimp only
    split
    · unfold goOn
      dsimp only
      split <;> simpa [setActivity, endTurn, Progress.end?] using hstep
    · simpa [setActivity, endTurn, Progress.end?] using hstep
  | done result => simp [finish, remove, Progress.end?, hstep]
  | crash => simp [finish, remove, Progress.end?, hstep]

/-- A move adds its task to those that have ended if it ends it, and no other. -/
theorem ended_move (sys : Ensemble) (a : Activity) : (sys.move a).site.ended =
    sys.site.ended ++ ((a.task.step sys.site).1.end?.map (a.id, ·)).toList := by
  rw [move_eq, site_settle]
  exact sys.ended_moved a

/-- Which tasks there are after a move. -/
theorem Sound.mem_ids_move (hs : sys.Sound) (ha : a ∈ sys.activities) :
    id ∈ (sys.move a).ids ↔ id ∈ sys.ids ∧ (id = a.id → (a.task.step sys.site).1.end? = none) ∨
      id ∈ (Move.launched ⟨sys, a⟩).map (·.1) := by
  constructor
  · intro h
    obtain ⟨b, hb, rfl⟩ := List.mem_map.mp h
    obtain ⟨c, rfl, ⟨hc, hne⟩ | ⟨hid, hgo⟩ | ⟨start, hstart, rfl⟩⟩ := hs.mem_move_cases hb
    · rw [Activity.id_heeding]
      exact .inl ⟨List.mem_map_of_mem hc, fun heq => absurd heq hne⟩
    · rw [Activity.id_heeding, hid]
      exact .inl ⟨List.mem_map_of_mem ha, fun _ => Progress.end?_eq_none.mpr ⟨_, hgo.state?⟩⟩
    · rw [Activity.id_heeding]
      exact .inr (List.mem_map.mpr ⟨start, List.mem_reverse.mpr hstart, rfl⟩)
  · rintro (⟨h, hgoes⟩ | h)
    · obtain ⟨b, hb, rfl⟩ := List.mem_map.mp h
      by_cases hid : b.id = a.id
      · obtain ⟨t, ht⟩ := Progress.end?_eq_none.mp (hgoes hid)
        obtain ⟨c, hc, -, hmem⟩ := hs.mem_move_of_state? ha ht
        exact List.mem_map.mpr ⟨_, hmem, by rw [Activity.id_heeding, hc, hid]⟩
      · exact List.mem_map.mpr ⟨_, hs.mem_move_of_ne hb hid, b.id_heeding _⟩
    · obtain ⟨start, hstart, rfl⟩ := List.mem_map.mp h
      have hmem := hs.mem_move_of_start (List.mem_reverse.mp hstart)
      exact List.mem_map.mpr ⟨_, hmem, Activity.id_heeding _ _⟩

/-- Whether the tasks that have ended are not there any more, and their numbers were given out. -/
structure Departed (sys : Ensemble) : Prop where
  gone : ∀ id, sys.site.hasEnded id = true → id ∉ sys.ids
  bounded : ∀ id, sys.site.hasEnded id = true → id < sys.site.nextTask

theorem nextTask_le_move (hs : sys.Sound) (a : Activity) :
    sys.site.nextTask ≤ (sys.move a).site.nextTask := by
  obtain ⟨ended, hsite⟩ := sys.site_move a
  rw [hsite]
  exact (Task.startsFrom_step hs.starting a.task).le

/-- A task that is started in a move has a number that was not given out before. -/
theorem le_of_launched (hs : sys.Sound) (h : id ∈ (Move.launched ⟨sys, a⟩).map (·.1)) :
    sys.site.nextTask ≤ id := by
  obtain ⟨start, hstart, rfl⟩ := List.mem_map.mp h
  exact ((Task.startsFrom_step hs.starting a.task).fresh start (List.mem_reverse.mp hstart)).1

/-- Whether a task whose number was given out before is there after a move. -/
theorem Sound.mem_ids_move_of_lt (hs : sys.Sound) (ha : a ∈ sys.activities)
    (hid : id < sys.site.nextTask) : id ∈ (sys.move a).ids ↔
      id ∈ sys.ids ∧ (id = a.id → (a.task.step sys.site).1.end? = none) := by
  refine (hs.mem_ids_move ha).trans (or_iff_left fun hlaunched => ?_)
  exact absurd hid (Nat.not_lt.mpr (le_of_launched hs hlaunched))

/-- What holds of the task of a number after a move, if it was given out before: it has to hold of
that task, or of what the move made of it. -/
theorem Sound.task_move {Q : Task → Prop} (hs : sys.Sound) (hid : id < sys.site.nextTask)
    (hstop : ∀ t, Q t → Q t.stop)
    (hother : id ≠ a.id → ∀ b ∈ sys.activities, b.id = id → Q b.task)
    (hmover : id = a.id → ∀ t, (a.task.step sys.site).1.state? = some t → Q t) :
    ∀ b ∈ (sys.move a).activities, b.id = id → Q b.task := by
  intro b hb hbid
  obtain ⟨c, rfl, hc⟩ := hs.mem_move_cases hb
  rw [Activity.id_heeding] at hbid
  have hQ : Q c.task := by
    rcases hc with ⟨hc, hne⟩ | ⟨hmoved, hgo⟩ | ⟨start, hstart, rfl⟩
    · exact hother (hbid ▸ hne) c hc hbid
    · exact hmover (hbid.symm.trans hmoved) _ hgo.state?
    · have hle : sys.site.nextTask ≤ start.1 :=
        ((Task.startsFrom_step hs.starting a.task).fresh start hstart).1
      have hstarted : start.1 = id := hbid
      exact absurd hid (Nat.not_lt.mpr (hstarted ▸ hle))
  unfold Activity.heeding
  split
  · exact hstop _ hQ
  · exact hQ

theorem hasEnded_move (sys : Ensemble) (a : Activity) : (sys.move a).site.hasEnded id = true ↔
    sys.site.hasEnded id = true ∨ id = a.id ∧ (a.task.step sys.site).1.end? ≠ none := by
  rw [Site.hasEnded_iff, Site.hasEnded_iff, ended_move]
  cases (a.task.step sys.site).1.end? <;> simp [exists_or]

theorem Departed.move (hd : sys.Departed) (hs : sys.Sound) (ha : a ∈ sys.activities) :
    (sys.move a).Departed := by
  constructor
  · intro id hended hid
    rcases (hs.mem_ids_move ha).mp hid with ⟨hold, hgoes⟩ | hnew
    · rcases (sys.hasEnded_move a).mp hended with hbefore | ⟨heq, hends⟩
      · exact hd.gone id hbefore hold
      · exact hends (hgoes heq)
    · have hle := le_of_launched hs hnew
      rcases (sys.hasEnded_move a).mp hended with hbefore | ⟨rfl, -⟩
      · exact Nat.not_lt.mpr hle (hd.bounded id hbefore)
      · exact Nat.not_lt.mpr hle (hs.bounded a ha)
  · intro id hended
    have hle := nextTask_le_move hs a
    rcases (sys.hasEnded_move a).mp hended with hbefore | ⟨rfl, -⟩
    · exact Nat.lt_of_lt_of_le (hd.bounded id hbefore) hle
    · exact Nat.lt_of_lt_of_le (hs.bounded a ha) hle

end Ensemble

theorem Pause.ended_eq (h : Pause lapse sys next) : next.site.ended = sys.site.ended := by
  obtain ⟨clock, -, hsite⟩ := h.site_eq
  rw [hsite]

theorem Pause.hasEnded_eq (h : Pause lapse sys next) (id : TaskId) :
    next.site.hasEnded id = sys.site.hasEnded id := by
  rw [Site.hasEnded, h.ended_eq, Site.hasEnded]

theorem Ensemble.departed_of_none (h : start.site.ended = []) : start.Departed :=
  ⟨by simp [Site.hasEnded, h], by simp [Site.hasEnded, h]⟩

theorem Interleaving.departed (h : Interleaving lapse start history sys) (hs : start.Sound)
    (hd : start.Departed) : sys.Departed := by
  induction h with
  | nil => exact hd
  | move h ha _ ih => exact ih.move (h.sound hs) ha
  | pause _ hp ih =>
    obtain ⟨clock, -, hsite⟩ := hp.site_eq
    refine ⟨fun id hended => ?_, fun id hended => ?_⟩
    · rw [hp.ids_eq]
      exact ih.gone id (hp.hasEnded_eq id ▸ hended)
    · rw [hsite]
      exact ih.bounded id (hp.hasEnded_eq id ▸ hended)

/-- A task that was there is still there, or has ended. -/
theorem Interleaving.mem_ids_or_hasEnded (h : Interleaving lapse start history sys)
    (hs : start.Sound) (hid : id ∈ start.ids) : id ∈ sys.ids ∨ sys.site.hasEnded id = true := by
  induction h with
  | nil => exact .inl hid
  | @move history sys a h ha _ ih =>
    rw [(h.sound hs).mem_ids_move ha, Ensemble.hasEnded_move]
    rcases ih with hmem | hended
    · by_cases hgoes : id = a.id → (a.task.step sys.site).1.end? = none
      · exact .inl (.inl ⟨hmem, hgoes⟩)
      · exact .inr (.inr (Classical.not_imp.mp hgoes))
    · exact .inr (.inl hended)
  | pause _ hp ih =>
    rw [hp.ids_eq, hp.hasEnded_eq]
    exact ih

/-- Of a task that was there, that it has ended and that it is not there any more is the same. -/
theorem Interleaving.hasEnded_iff (h : Interleaving lapse start history sys) (hs : start.Sound)
    (hd : start.Departed) (hid : id ∈ start.ids) :
    sys.site.hasEnded id = true ↔ id ∉ sys.ids :=
  ⟨(h.departed hs hd).gone id, (h.mem_ids_or_hasEnded hs hid).resolve_left⟩

end Host

end LeasedWork
