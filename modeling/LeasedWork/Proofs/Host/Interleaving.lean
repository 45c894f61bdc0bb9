import LeasedWork.Proofs.Host.Conduct
import Mathlib.Data.List.Nodup

/-!
# Interleavings

The order in which tasks move is left open here: whoever waits for nothing, or for something that
has come, may make the next move. What is proved of every interleaving therefore holds whatever
the scheduler does. How far time may pass between two moves is a parameter: sometimes any time may
pass, sometimes only as much as a clock allows that moves when all tasks are waiting.
-/
namespace LeasedWork.Host

open Engine

/-- Whether an activity may make the next move. -/
def Activity.isFree (s : Site) (a : Activity) : Bool := a.wait.all (·.isOver s)

/-- A move of an activity in an ensemble. -/
structure Move where
  sys : Ensemble
  mover : Activity

namespace Move

/-- The site that a move finds. -/
def site (m : Move) : Site := m.sys.site

/-- The ensemble that a move leaves. -/
def after (m : Move) : Ensemble := m.sys.move m.mover

def deeds (m : Move) : List Deed := m.mover.task.deeds m.site

end Move

/-- What happens between moves: time passes, waits that are over are noticed, and the order of
turns changes. -/
inductive Pause (lapse : Ensemble → Nat → Prop) (sys : Ensemble) : Ensemble → Prop
  | lapse {clock : Nat} (hle : sys.site.clock ≤ clock) (h : lapse sys clock) :
    Pause lapse sys { sys with site := { sys.site with clock := clock } }
  | wake : Pause lapse sys sys.wake
  | turns (turns deferred : List TaskId) :
    Pause lapse sys { sys with turns := turns, deferred := deferred }

/-- The moves that lead from one ensemble to another, the first one first. -/
inductive Interleaving (lapse : Ensemble → Nat → Prop) (start : Ensemble) :
    List Move → Ensemble → Prop
  | nil : Interleaving lapse start [] start
  | move {history : List Move} {sys : Ensemble} {a : Activity}
      (h : Interleaving lapse start history sys) (ha : a ∈ sys.activities)
      (hf : a.isFree sys.site = true) :
    Interleaving lapse start (history ++ [⟨sys, a⟩]) (sys.move a)
  | pause {history : List Move} {sys next : Ensemble}
      (h : Interleaving lapse start history sys) (hp : Pause lapse sys next) :
    Interleaving lapse start history next

/-- Time may pass at any moment. -/
def anytime (_ : Ensemble) (_ : Nat) : Prop := True

/-- Time may pass only while every task waits, and no further than to the first whole millisecond
at which one of them waits no longer. -/
def whenIdle (sys : Ensemble) (clock : Nat) : Prop :=
  ∀ a ∈ sys.activities, a.isFree sys.site = false ∧
    ∀ deadline ∈ a.wait.bind Wait.deadline?, clock ≤ Ensemble.wholeMillis deadline

theorem Ensemble.wholeMillis_le_wholeMillis {m n : Nat} (h : m ≤ n) :
    wholeMillis m ≤ wholeMillis n :=
  Nat.div_le_div_right (by omega)

/-- A time that has not passed has not passed after rounding either. -/
theorem Ensemble.le_wholeMillis {s : Site} {deadline : Nat} (h : s.nanos ≤ deadline) :
    s.clock ≤ wholeMillis deadline := by
  have hnanos : s.nanos = s.clock * Time.nanosPerMilli := rfl
  simp only [hnanos, wholeMillis, Time.nanosPerMilli] at h ⊢
  omega

/-! ## The site after a move -/

namespace Ensemble

variable {sys : Ensemble} {a b : Activity}

theorem site_stop (sys : Ensemble) (id : TaskId) : (sys.stop id).site = sys.site := by
  unfold stop
  cases sys.activity? id with
  | none => rfl
  | some a =>
    dsimp only
    split <;> rfl

theorem site_settle (sys : Ensemble) :
    sys.settle.site = { sys.site with starting := [], stopping := [] } := by
  have hadd : ∀ (starts : List (TaskId × Start)) (sys : Ensemble),
      (starts.foldl (fun sys start => sys.add start.1 (.ofStart start.2)) sys).site = sys.site := by
    intro starts
    induction starts with
    | nil => intro sys; rfl
    | cons start rest ih => intro sys; exact ih _
  have hstop : ∀ (ids : List TaskId) (sys : Ensemble), (ids.foldl stop sys).site = sys.site := by
    intro ids
    induction ids with
    | nil => intro sys; rfl
    | cons id rest ih => intro sys; exact (ih _).trans (site_stop sys id)
  unfold settle
  exact (hstop _ _).trans (hadd _ _)

/-- The ensemble after the move itself, before what it left word for is done. -/
def moved (sys : Ensemble) (a : Activity) : Ensemble :=
  let (progress, site) := a.task.step sys.site
  let sys := { sys with site := site, allowance := sys.allowance - a.owed }
  match progress with
  | .more task => sys.setActivity { a with task := task, wait := none, owed := 0 }
  | .wait w task =>
    if w.isOver site then sys.goOn { a with task := task } w
    else
      let a := { a with task := task, wait := some w, since := sys.waits, owed := 0 }
      { (sys.setActivity a).endTurn a.id with waits := sys.waits + 1 }
  | .done () => sys.finish a.id false
  | .crash => sys.finish a.id true

theorem move_eq (sys : Ensemble) (a : Activity) : sys.move a = (sys.moved a).settle := rfl

theorem site_moved (sys : Ensemble) (a : Activity) :
    ∃ ended, (sys.moved a).site = { (a.task.step sys.site).2 with ended := ended } := by
  unfold moved
  dsimp only
  cases (a.task.step sys.site).1 with
  | more task => exact ⟨_, rfl⟩
  | wait w task =>
    dsimp only
    split
    · unfold goOn
      dsimp only
      split <;> exact ⟨_, rfl⟩
    · exact ⟨_, rfl⟩
  | done result => exact ⟨_, rfl⟩
  | crash => exact ⟨_, rfl⟩

/-- A move changes the site as the task does, and leaves no word behind. -/
theorem site_move (sys : Ensemble) (a : Activity) :
    ∃ ended, (sys.move a).site =
      { (a.task.step sys.site).2 with starting := [], stopping := [], ended := ended } := by
  obtain ⟨ended, h⟩ := sys.site_moved a
  rw [move_eq, site_settle, h]
  exact ⟨ended, rfl⟩

theorem setAlike_move (sys : Ensemble) (a : Activity) : sys.site.SetAlike (sys.move a).site := by
  obtain ⟨ended, h⟩ := sys.site_move a
  have hstep := a.task.setAlike_step sys.site
  rw [h]
  exact ⟨hstep.shutdown, hstep.timing, hstep.timer, hstep.registry, hstep.faults⟩

theorem clock_move (sys : Ensemble) (a : Activity) : (sys.move a).site.clock = sys.site.clock := by
  obtain ⟨ended, h⟩ := sys.site_move a
  rw [h]
  exact a.task.clock_step sys.site

theorem isDated_move (sys : Ensemble) (a : Activity) :
    (sys.move a).site.isDated = sys.site.isDated := by
  rw [Site.isDated, Site.now, clock_move, Site.isDated, Site.now]

end Ensemble

/-! ## The tasks after a move -/

/-- What is left of an activity that was told to stop. -/
def Activity.stopped (a : Activity) : Activity := { a with task := a.task.stop, wait := none }

/-- What is left of an activity when those of some numbers were told to stop. -/
def Activity.heeding (ids : List TaskId) (a : Activity) : Activity :=
  if a.id ∈ ids then a.stopped else a

/-- The activity of a task that was just started. -/
def Activity.started (start : TaskId × Start) : Activity := ⟨start.1, .ofStart start.2, none, 0, 0⟩

/-- Whether an activity goes on from where a move left its task. -/
inductive Activity.Continues (site : Site) : Progress Task Unit → Activity → Prop
  | more {task : Task} {c : Activity} (ht : c.task = task) (h : c.wait = none) :
    Continues site (.more task) c
  | elapsed {w : Wait} {task : Task} {c : Activity} (hw : w.isOver site = true) (ht : c.task = task)
      (h : c.wait = none) :
    Continues site (.wait w task) c
  | wait {w : Wait} {task : Task} {c : Activity} (hw : w.isOver site = false) (ht : c.task = task)
      (h : c.wait = some w) :
    Continues site (.wait w task) c

/-- What an activity is once it was noticed whether its wait is over. -/
def Activity.awoken (s : Site) (a : Activity) : Activity :=
  if Ensemble.isAwake s a then
    { a with wait := none, owed := (a.wait.map (·.takes s)).getD 0 }
  else a

theorem awoken_cases (s : Site) (a : Activity) :
    (a.awoken s).id = a.id ∧ (a.awoken s).task = a.task ∧
      ((a.awoken s).wait = a.wait ∨
        (a.awoken s).wait = none ∧ ∃ w, a.wait = some w ∧ w.isOver s = true) := by
  unfold Activity.awoken
  split
  · rename_i hawake
    refine ⟨rfl, rfl, .inr ⟨rfl, ?_⟩⟩
    unfold Ensemble.isAwake at hawake
    split at hawake
    · exact absurd hawake (by simp)
    · rename_i w hw
      exact ⟨w, hw, hawake⟩
  · exact ⟨rfl, rfl, .inl rfl⟩

theorem Activity.id_heeding (ids : List TaskId) (a : Activity) : (a.heeding ids).id = a.id := by
  unfold heeding
  split <;> rfl

theorem Activity.wait_heeding {ids : List TaskId} {a : Activity} (h : a.wait = none) :
    (a.heeding ids).wait = none := by
  unfold heeding
  split
  · rfl
  · exact h

theorem Activity.heeding_of_not_mem {ids : List TaskId} {a : Activity} (h : a.id ∉ ids) :
    a.heeding ids = a := if_neg h

theorem Activity.Continues.state? {site : Site} {p : Progress Task Unit} {c : Activity}
    (h : c.Continues site p) : p.state? = some c.task := by
  cases h with
  | more ht => rw [ht]; rfl
  | elapsed _ ht => rw [ht]; rfl
  | wait _ ht => rw [ht]; rfl

theorem Task.stop_stop (t : Task) : t.stop.stop = t.stop := by cases t <;> rfl

theorem Activity.heeding_heeding (ids more : List TaskId) (a : Activity) :
    (a.heeding ids).heeding more = a.heeding (ids ++ more) := by
  unfold heeding
  by_cases h : a.id ∈ ids <;> by_cases hm : a.id ∈ more <;>
    simp [h, hm, stopped, Task.stop_stop]

namespace Ensemble

variable {sys : Ensemble} {a b c : Activity}

/-- The numbers of the activities. -/
def ids (sys : Ensemble) : List TaskId := sys.activities.map (·.id)

/-- Every activity has a number of its own, and no word was left that nobody heard. -/
structure Sound (sys : Ensemble) : Prop where
  nodup : sys.ids.Nodup
  bounded : ∀ a ∈ sys.activities, a.id < sys.site.nextTask
  starting : sys.site.starting = []
  stopping : sys.site.stopping = []

theorem eq_of_id_eq (h : sys.ids.Nodup) (ha : a ∈ sys.activities) (hb : b ∈ sys.activities)
    (hid : a.id = b.id) : a = b :=
  List.inj_on_of_nodup_map h ha hb hid

theorem activities_stop (h : sys.ids.Nodup) (id : TaskId) :
    (sys.stop id).activities = sys.activities.map (Activity.heeding [id]) := by
  unfold stop
  cases hfind : sys.activity? id with
  | none =>
    have hne : ∀ b ∈ sys.activities, b.heeding [id] = b := by
      intro b hb
      have hb' := List.find?_eq_none.mp hfind b hb
      simp only [decide_eq_true_eq] at hb'
      simp [Activity.heeding, hb']
    exact ((List.map_congr_left hne).trans (List.map_id _)).symm
  | some a =>
    have ha : a ∈ sys.activities := List.mem_of_find?_eq_some hfind
    have hid : a.id = id := by simpa using List.find?_some hfind
    have heq : (sys.setActivity a.stopped).activities =
        sys.activities.map (Activity.heeding [id]) := by
      apply List.map_congr_left
      intro b hb
      by_cases hba : b.id = a.id
      · obtain rfl := eq_of_id_eq h hb ha hba
        simp [Activity.heeding, hid, Activity.stopped]
      · have hne : b.id ≠ id := hid ▸ hba
        simp [Activity.heeding, Activity.stopped, hba, hne]
    dsimp only
    split <;> exact heq

theorem ids_stop (h : sys.ids.Nodup) (id : TaskId) : (sys.stop id).ids = sys.ids := by
  rw [ids, activities_stop h, List.map_map, ids]
  exact List.map_congr_left fun b _ => b.id_heeding _

theorem activities_stopAll (ids : List TaskId) (h : sys.ids.Nodup) :
    (ids.foldl stop sys).activities = sys.activities.map (Activity.heeding ids) := by
  induction ids generalizing sys with
  | nil =>
    have hid : Activity.heeding [] = id := by
      funext b
      simp [Activity.heeding]
    rw [hid, List.map_id]
    rfl
  | cons id rest ih =>
    rw [List.foldl_cons, ih ((ids_stop h id).symm ▸ h), activities_stop h, List.map_map]
    apply List.map_congr_left
    intro b _
    exact b.heeding_heeding [id] rest

theorem activities_addAll (starts : List (TaskId × Start)) (sys : Ensemble) :
    (starts.foldl (fun sys start => sys.add start.1 (.ofStart start.2)) sys).activities =
      sys.activities ++ starts.map Activity.started := by
  induction starts generalizing sys with
  | nil => simp
  | cons start rest ih =>
    rw [List.foldl_cons, ih, List.map_cons, List.append_cons]
    rfl

/-- Word that was left is heeded: tasks are started, and of those that there are then, some are
told to stop. -/
theorem activities_settle
    (h : (sys.ids ++ (sys.site.starting.reverse.map Activity.started).map (·.id)).Nodup) :
    sys.settle.activities = (sys.activities ++ sys.site.starting.reverse.map Activity.started).map
      (Activity.heeding sys.site.stopping) := by
  unfold settle
  dsimp only
  rw [activities_stopAll, activities_addAll]
  rw [ids, activities_addAll, List.map_append]
  exact h

theorem activities_moved (sys : Ensemble) (a : Activity) :
    (∃ c : Activity, c.id = a.id ∧ c.Continues (a.task.step sys.site).2 (a.task.step sys.site).1 ∧
      (sys.moved a).activities = sys.activities.map fun b => if b.id = a.id then c else b) ∨
    (((a.task.step sys.site).1 = .done () ∨ (a.task.step sys.site).1 = .crash) ∧
      (sys.moved a).activities = sys.activities.filter (·.id ≠ a.id)) := by
  unfold moved
  dsimp only
  cases (a.task.step sys.site).1 with
  | more task =>
    exact .inl ⟨{ a with task := task, wait := none, owed := 0 }, rfl, .more rfl rfl, rfl⟩
  | wait w task =>
    left
    by_cases hw : w.isOver (a.task.step sys.site).2 = true
    · simp only [if_pos hw, goOn]
      split
      · exact ⟨{ a with task := task, wait := none, owed := 0 }, rfl, .elapsed hw rfl rfl, rfl⟩
      · exact ⟨{ a with task := task, wait := none, owed := _ }, rfl, .elapsed hw rfl rfl, rfl⟩
    · simp only [if_neg hw]
      simp only [Bool.not_eq_true] at hw
      exact ⟨{ a with task := task, wait := some w, since := sys.waits, owed := 0 }, rfl,
        .wait hw rfl rfl, rfl⟩
  | done result => exact .inr ⟨.inl rfl, rfl⟩
  | crash => exact .inr ⟨.inr rfl, rfl⟩

theorem ids_moved_sublist (sys : Ensemble) (a : Activity) : (sys.moved a).ids.Sublist sys.ids := by
  rcases sys.activities_moved a with ⟨c, hc, -, h⟩ | ⟨-, h⟩
  · have heq : (sys.moved a).ids = sys.ids := by
      rw [ids, h, List.map_map, ids]
      apply List.map_congr_left
      intro b _
      by_cases hb : b.id = a.id <;> simp [hb, hc]
    exact heq ▸ List.Sublist.refl _
  · rw [ids, h, ids]
    exact List.filter_sublist.map _

end Ensemble

/-- Whether the tasks that word was left to start on a site have numbers of their own, none of
them given out before. -/
structure StartsFrom (n : TaskId) (s : Site) : Prop where
  nodup : (s.starting.map (·.1)).Nodup
  fresh : ∀ start ∈ s.starting, n ≤ start.1 ∧ start.1 < s.nextTask
  le : n ≤ s.nextTask

theorem StartsFrom.on {n : TaskId} {s : Site} (h : StartsFrom n s) (d : Deed) :
    StartsFrom n (d.on s) := by
  cases d with
  | spawn task =>
    refine ⟨?_, ?_, Nat.le_succ_of_le h.le⟩
    · refine List.nodup_cons.mpr ⟨fun hmem => ?_, h.nodup⟩
      obtain ⟨start, hstart, hid⟩ := List.mem_map.mp hmem
      exact Nat.ne_of_lt (h.fresh start hstart).2 hid
    · intro start hstart
      rcases List.mem_cons.mp hstart with rfl | hstart
      · exact ⟨h.le, Nat.lt_succ_self _⟩
      · have hf := h.fresh start hstart
        exact ⟨hf.1, Nat.lt_succ_of_lt hf.2⟩
  | _ => exact ⟨h.nodup, h.fresh, h.le⟩

theorem StartsFrom.of_aside {n : TaskId} {s t : Site} (h : StartsFrom n s) (ha : s.Aside t) :
    StartsFrom n t := by
  obtain ⟨hn, hf, hle⟩ := h
  exact ⟨ha.starting ▸ hn, by rw [ha.starting, ha.nextTask]; exact hf, ha.nextTask ▸ hle⟩

theorem Task.startsFrom_step {s : Site} (hs : s.starting = []) (t : Task) :
    StartsFrom s.nextTask (t.step s).2 := by
  have h : StartsFrom s.nextTask s := ⟨by simp [hs], by simp [hs], Nat.le_refl _⟩
  exact (Deed.onAll_induction (fun d _ _ h => h.on d) h).of_aside (t.aside_step s)

namespace Ensemble

variable {sys : Ensemble} {a b : Activity}

/-- Tasks that are started in a move have numbers that no other task has. -/
theorem Sound.nodup_moved (hs : sys.Sound) (a : Activity) : ((sys.moved a).ids ++
    ((sys.moved a).site.starting.reverse.map Activity.started).map (·.id)).Nodup := by
  obtain ⟨ended, hsite⟩ := sys.site_moved a
  have hst := Task.startsFrom_step hs.starting a.task
  have hstarted : (((a.task.step sys.site).2.starting.reverse.map Activity.started).map (·.id)) =
      ((a.task.step sys.site).2.starting.map (·.1)).reverse := by
    rw [List.map_map, List.map_reverse]
    rfl
  rw [hsite, hstarted]
  refine List.nodup_append'.mpr ⟨(sys.ids_moved_sublist a).nodup hs.nodup,
    List.nodup_reverse.mpr hst.nodup, fun id hid hid' => ?_⟩
  obtain ⟨b, hb, rfl⟩ := List.mem_map.mp ((sys.ids_moved_sublist a).subset hid)
  obtain ⟨start, hstart, hstartid⟩ := List.mem_map.mp (List.mem_reverse.mp hid')
  have hlt := Nat.lt_of_lt_of_le (hs.bounded b hb) (hst.fresh start hstart).1
  exact Nat.ne_of_gt hlt hstartid

/-- The ensemble after a move, in terms of the one after the move itself. -/
theorem Sound.activities_move (hs : sys.Sound) (a : Activity) :
    (sys.move a).ids.Nodup ∧ (sys.move a).activities =
      ((sys.moved a).activities ++ (a.task.step sys.site).2.starting.reverse.map
        Activity.started).map (Activity.heeding (a.task.step sys.site).2.stopping) := by
  obtain ⟨ended, hsite⟩ := sys.site_moved a
  have hnodup := hs.nodup_moved a
  have hact := activities_settle hnodup
  rw [hsite] at hnodup hact
  refine ⟨?_, hact⟩
  rw [ids, move_eq, hact, List.map_map]
  have hids : ((fun b : Activity => b.id) ∘ Activity.heeding (a.task.step sys.site).2.stopping) =
      fun b => b.id := by
    funext b
    exact b.id_heeding _
  rw [hids, List.map_append]
  exact hnodup

/-- Where the tasks after a move come from: others stay, the one that moved goes on, and new ones
are started; some may have been told to stop. -/
theorem Sound.mem_move_cases (hs : sys.Sound) (hb : b ∈ (sys.move a).activities) :
    ∃ c : Activity, b = c.heeding (a.task.step sys.site).2.stopping ∧
      (c ∈ sys.activities ∧ c.id ≠ a.id ∨
        c.id = a.id ∧ c.Continues (a.task.step sys.site).2 (a.task.step sys.site).1 ∨
        ∃ start ∈ (a.task.step sys.site).2.starting, c = .started start) := by
  rw [(hs.activities_move a).2] at hb
  obtain ⟨c, hc, rfl⟩ := List.mem_map.mp hb
  refine ⟨c, rfl, ?_⟩
  rcases List.mem_append.mp hc with hc | hc
  · rcases sys.activities_moved a with ⟨d, hd, hgo, h⟩ | ⟨-, h⟩
    · rw [h] at hc
      obtain ⟨e, he, rfl⟩ := List.mem_map.mp hc
      by_cases hid : e.id = a.id
      · simp only [if_pos hid]
        exact .inr (.inl ⟨hd, hgo⟩)
      · simp only [if_neg hid]
        exact .inl ⟨he, hid⟩
    · rw [h] at hc
      have hf := List.mem_filter.mp hc
      exact .inl ⟨hf.1, by simpa using hf.2⟩
  · obtain ⟨start, hstart, rfl⟩ := List.mem_map.mp hc
    exact .inr (.inr ⟨start, List.mem_reverse.mp hstart, rfl⟩)

theorem Sound.mem_move_of_ne (hs : sys.Sound) (hb : b ∈ sys.activities) (hne : b.id ≠ a.id) :
    b.heeding (a.task.step sys.site).2.stopping ∈ (sys.move a).activities := by
  rw [(hs.activities_move a).2]
  refine List.mem_map_of_mem (List.mem_append_left _ ?_)
  rcases sys.activities_moved a with ⟨d, -, -, h⟩ | ⟨-, h⟩
  · rw [h]
    exact List.mem_map.mpr ⟨b, hb, if_neg hne⟩
  · rw [h]
    exact List.mem_filter.mpr ⟨hb, by simpa using hne⟩

theorem Sound.mem_move_of_state? (hs : sys.Sound) (ha : a ∈ sys.activities) {t : Task}
    (h : (a.task.step sys.site).1.state? = some t) :
    ∃ c : Activity, c.id = a.id ∧ c.Continues (a.task.step sys.site).2 (a.task.step sys.site).1 ∧
      c.heeding (a.task.step sys.site).2.stopping ∈ (sys.move a).activities := by
  rcases sys.activities_moved a with ⟨c, hid, hgo, hmoved⟩ | ⟨hended | hended, -⟩
  · refine ⟨c, hid, hgo, ?_⟩
    rw [(hs.activities_move a).2]
    refine List.mem_map_of_mem (List.mem_append_left _ ?_)
    rw [hmoved]
    exact List.mem_map.mpr ⟨a, ha, if_pos rfl⟩
  · rw [hended] at h
    exact absurd h (by simp [Progress.state?])
  · rw [hended] at h
    exact absurd h (by simp [Progress.state?])

theorem Sound.mem_move_of_start (hs : sys.Sound) {start : TaskId × Start}
    (h : start ∈ (a.task.step sys.site).2.starting) :
    (Activity.started start).heeding (a.task.step sys.site).2.stopping ∈
      (sys.move a).activities := by
  rw [(hs.activities_move a).2]
  refine List.mem_map_of_mem (List.mem_append_right _ ?_)
  exact List.mem_map_of_mem (List.mem_reverse.mpr h)

theorem Sound.move (hs : sys.Sound) (a : Activity) (ha : a ∈ sys.activities) :
    (sys.move a).Sound := by
  obtain ⟨ended, hsite⟩ := sys.site_move a
  have hst := Task.startsFrom_step hs.starting a.task
  refine ⟨(hs.activities_move a).1, fun b hb => ?_, by rw [hsite], by rw [hsite]⟩
  rw [hsite]
  obtain ⟨c, rfl, ⟨hc, -⟩ | ⟨hid, -⟩ | ⟨start, hstart, rfl⟩⟩ := hs.mem_move_cases hb
  · rw [Activity.id_heeding]
    exact Nat.lt_of_lt_of_le (hs.bounded c hc) hst.le
  · rw [Activity.id_heeding, hid]
    exact Nat.lt_of_lt_of_le (hs.bounded a ha) hst.le
  · rw [Activity.id_heeding]
    exact (hst.fresh start hstart).2

/-- What holds of every task after a move: it has to hold of the others, of the one that moved as
the move left it, and of those that were started. -/
theorem Sound.tasks_move (hs : sys.Sound) {Q : Task → Prop} (hstop : ∀ t, Q t → Q t.stop)
    (hothers : ∀ b ∈ sys.activities, b.id ≠ a.id → Q b.task)
    (hmover : ∀ t, (a.task.step sys.site).1.state? = some t → Q t)
    (hstarted : ∀ start ∈ (a.task.step sys.site).2.starting, Q (.ofStart start.2)) :
    ∀ b ∈ (sys.move a).activities, Q b.task := by
  intro b hb
  obtain ⟨c, rfl, hc⟩ := hs.mem_move_cases hb
  have hQ : Q c.task := by
    rcases hc with ⟨hc, hne⟩ | ⟨-, hgo⟩ | ⟨start, hstart, rfl⟩
    · exact hothers c hc hne
    · exact hmover _ hgo.state?
    · exact hstarted start hstart
  unfold Activity.heeding
  split
  · exact hstop _ hQ
  · exact hQ

/-! ## The tasks after a pause -/

theorem activities_wake (sys : Ensemble) :
    sys.wake.activities = sys.activities.map (Activity.awoken sys.site) := by
  unfold wake
  dsimp only
  split
  · rename_i hnil
    have hperm : [].Perm (sys.activities.filter (isAwake sys.site)) := by
      rw [← hnil]
      exact List.mergeSort_perm _ _
    have hnone : ∀ a ∈ sys.activities, ¬ isAwake sys.site a = true :=
      List.filter_eq_nil_iff.mp hperm.nil_eq.symm
    refine Eq.symm ((List.map_congr_left fun a ha => ?_).trans (List.map_id _))
    simp [Activity.awoken, hnone a ha]
  · rfl

theorem site_wake (sys : Ensemble) : sys.wake.site = sys.site := by
  unfold wake
  dsimp only
  split <;> rfl

end Ensemble

variable {lapse : Ensemble → Nat → Prop} {start sys next : Ensemble} {history : List Move}

/-- A pause changes nothing on the site but the time. -/
theorem Pause.site_eq (h : Pause lapse sys next) :
    ∃ clock, sys.site.clock ≤ clock ∧ next.site = { sys.site with clock := clock } := by
  cases h with
  | lapse hle => exact ⟨_, hle, rfl⟩
  | wake => exact ⟨sys.site.clock, Nat.le_refl _, sys.site_wake⟩
  | turns => exact ⟨sys.site.clock, Nat.le_refl _, rfl⟩

/-- A pause changes no task. -/
theorem Pause.tasks_eq (h : Pause lapse sys next) :
    (next.activities.map fun a => (a.id, a.task)) = sys.activities.map fun a => (a.id, a.task) := by
  cases h with
  | lapse => rfl
  | wake =>
    rw [Ensemble.activities_wake, List.map_map]
    apply List.map_congr_left
    intro a _
    simp only [Function.comp, Activity.awoken]
    split <;> rfl
  | turns => rfl

theorem Pause.ids_eq (h : Pause lapse sys next) : next.ids = sys.ids := by
  have heq := congrArg (List.map Prod.fst) h.tasks_eq
  simp only [List.map_map, Function.comp_def] at heq
  exact heq

theorem Pause.exists_task (h : Pause lapse sys next) {b : Activity} (hb : b ∈ next.activities) :
    ∃ c ∈ sys.activities, c.id = b.id ∧ c.task = b.task := by
  have hmem : (b.id, b.task) ∈ next.activities.map fun a => (a.id, a.task) :=
    List.mem_map_of_mem hb
  rw [h.tasks_eq] at hmem
  obtain ⟨c, hc, heq⟩ := List.mem_map.mp hmem
  simp only [Prod.mk.injEq] at heq
  exact ⟨c, hc, heq⟩

/-- Time passes less freely in one interleaving than in another. -/
theorem Interleaving.mono {lapse' : Ensemble → Nat → Prop}
    (hle : ∀ sys clock, lapse sys clock → lapse' sys clock)
    (h : Interleaving lapse start history sys) : Interleaving lapse' start history sys := by
  induction h with
  | nil => exact .nil
  | move _ ha hf ih => exact ih.move ha hf
  | pause _ hp ih =>
    cases hp with
    | lapse hclock h => exact ih.pause (.lapse hclock (hle _ _ h))
    | wake => exact ih.pause .wake
    | turns => exact ih.pause (.turns _ _)

theorem Pause.setAlike (h : Pause lapse sys next) : sys.site.SetAlike next.site := by
  obtain ⟨clock, -, hsite⟩ := h.site_eq
  rw [hsite]
  exact ⟨rfl, rfl, rfl, rfl, .refl _⟩

theorem Pause.sound (h : Pause lapse sys next) (hs : sys.Sound) : next.Sound := by
  obtain ⟨clock, -, hsite⟩ := h.site_eq
  refine ⟨h.ids_eq ▸ hs.nodup, fun b hb => ?_, by rw [hsite]; exact hs.starting,
    by rw [hsite]; exact hs.stopping⟩
  obtain ⟨c, hc, hid, -⟩ := h.exists_task hb
  rw [hsite, ← hid]
  exact hs.bounded c hc

theorem Interleaving.sound (h : Interleaving lapse start history sys) (hs : start.Sound) :
    sys.Sound := by
  induction h with
  | nil => exact hs
  | move _ ha _ ih => exact ih.move _ ha
  | pause _ hp ih => exact hp.sound ih

/-- An interleaving may be cut at each of its moves. -/
theorem Interleaving.split {before after : List Move} {m : Move}
    (h : Interleaving lapse start (before ++ m :: after) sys) :
    Interleaving lapse start before m.sys ∧ m.mover ∈ m.sys.activities ∧
      m.mover.isFree m.site = true ∧ Interleaving lapse m.after after sys := by
  generalize hist : before ++ m :: after = history at h
  induction h generalizing after with
  | nil => simp at hist
  | @move history sys a h ha hf ih =>
    rcases List.eq_nil_or_concat after with rfl | ⟨rest, last, rfl⟩
    · obtain ⟨rfl, hm⟩ := List.append_inj' hist rfl
      obtain rfl := (List.cons.inj hm).1
      exact ⟨h, ha, hf, .nil⟩
    · rw [List.concat_eq_append, ← List.cons_append, ← List.append_assoc] at hist
      obtain ⟨hfirst, hlast⟩ := List.append_inj' hist rfl
      obtain rfl := (List.cons.inj hlast).1
      obtain ⟨hbefore, hm, hmf, hafter⟩ := ih hfirst
      exact ⟨hbefore, hm, hmf, List.concat_eq_append ▸ .move hafter ha hf⟩
  | pause h hp ih =>
    obtain ⟨hbefore, hm, hmf, hafter⟩ := ih hist
    exact ⟨hbefore, hm, hmf, .pause hafter hp⟩

theorem Interleaving.of_mem {m : Move} (h : Interleaving lapse start history sys)
    (hm : m ∈ history) : ∃ before, Interleaving lapse start before m.sys ∧
      m.mover ∈ m.sys.activities ∧ m.mover.isFree m.site = true := by
  obtain ⟨before, after, rfl⟩ := List.append_of_mem hm
  obtain ⟨hbefore, hmover, hfree, -⟩ := h.split
  exact ⟨before, hbefore, hmover, hfree⟩

theorem Interleaving.setAlike (h : Interleaving lapse start history sys) :
    start.site.SetAlike sys.site := by
  induction h with
  | nil => exact .refl _
  | move _ _ _ ih => exact ih.trans (Ensemble.setAlike_move _ _)
  | pause _ hp ih => exact ih.trans hp.setAlike

end LeasedWork.Host
