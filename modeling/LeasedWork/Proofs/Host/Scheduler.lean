import LeasedWork.Proofs.Host.Schedule

/-!
# The scheduler

The scheduler is one way to interleave tasks. It gives turns to just the tasks that wait for
nothing, it notices at once whose wait is over, and the clock jumps only when nobody has a turn. So
what holds of every interleaving holds of what the scheduler does.
-/
namespace LeasedWork

theorem Engine.Wait.le_earlier_iff {n : Nat} {d e : Option Nat} :
    (∀ k ∈ earlier d e, n ≤ k) ↔ (∀ k ∈ d, n ≤ k) ∧ ∀ k ∈ e, n ≤ k := by
  cases d with
  | none => simp [earlier]
  | some m =>
    cases e with
    | none => simp [earlier]
    | some n => simp only [earlier, Option.mem_def, Option.some.injEq, forall_eq', Nat.le_min]

namespace Host

open Engine

namespace Ensemble

/-- Whether a task has a turn to come. -/
def Queued (sys : Ensemble) (id : TaskId) : Prop := id ∈ sys.turns ∨ id ∈ sys.deferred

/-- Just the tasks that wait for nothing have a turn to come, in one of the two lists. -/
structure InTurn (sys : Ensemble) : Prop where
  ready : ∀ id, sys.Queued id ↔ ∃ a ∈ sys.activities, a.id = id ∧ a.wait = none
  apart : ∀ id ∈ sys.turns, id ∉ sys.deferred

/-- What holds whenever the scheduler goes on. -/
structure Scheduled (sys : Ensemble) : Prop extends sys.Sound, sys.InTurn where
  noticed : ∀ a ∈ sys.activities, isAwake sys.site a = false

variable {sys next : Ensemble} {a : Activity} {id : TaskId}

/-! ## Turns -/

/-- The turns are right after a change if they are right for the one task that changed. -/
theorem InTurn.change (ht : sys.InTurn) (id : TaskId)
    (hothers : ∀ b : Activity, b.id ≠ id → (b ∈ next.activities ↔ b ∈ sys.activities))
    (hqueued : ∀ k, k ≠ id → (next.Queued k ↔ sys.Queued k))
    (hchanged : next.Queued id ↔ ∃ b ∈ next.activities, b.id = id ∧ b.wait = none)
    (hapart : ∀ k ∈ next.turns, k ∉ next.deferred) : next.InTurn := by
  constructor
  · intro k
    by_cases hk : k = id
    · rw [hk]
      exact hchanged
    · rw [hqueued k hk, ht.ready k]
      constructor
      · rintro ⟨b, hb, rfl, hwait⟩
        exact ⟨b, (hothers b hk).mpr hb, rfl, hwait⟩
      · rintro ⟨b, hb, rfl, hwait⟩
        exact ⟨b, (hothers b hk).mp hb, rfl, hwait⟩
  · exact hapart

theorem mem_setActivity {c b : Activity} (hne : b.id ≠ c.id) :
    b ∈ (sys.setActivity c).activities ↔ b ∈ sys.activities := by
  constructor
  · intro hb
    obtain ⟨d, hd, rfl⟩ := List.mem_map.mp hb
    by_cases hid : d.id = c.id
    · rw [if_pos hid] at hne
      exact absurd rfl hne
    · rwa [if_neg hid]
  · intro hb
    exact List.mem_map.mpr ⟨b, hb, if_neg hne⟩

theorem self_mem_setActivity {c : Activity} (ha : a ∈ sys.activities) (hid : a.id = c.id) :
    c ∈ (sys.setActivity c).activities :=
  List.mem_map.mpr ⟨a, ha, if_pos hid⟩

theorem eq_of_mem_setActivity {c b : Activity} (hb : b ∈ (sys.setActivity c).activities)
    (hid : b.id = c.id) : b = c := by
  obtain ⟨d, -, rfl⟩ := List.mem_map.mp hb
  by_cases hd : d.id = c.id
  · exact if_pos hd
  · rw [if_neg hd] at hid
    exact absurd hid hd

theorem InTurn.add (ht : sys.InTurn) (hnew : id ∉ sys.ids) (task : Task) :
    (sys.add id task).InTurn := by
  have hunqueued : ¬ sys.Queued id := by
    intro hq
    obtain ⟨a, ha, rfl, -⟩ := (ht.ready id).mp hq
    exact hnew (List.mem_map_of_mem ha)
  apply ht.change id
  · intro b hb
    simp only [Ensemble.add, List.mem_append, List.mem_singleton]
    constructor
    · rintro (h | rfl)
      · exact h
      · exact absurd rfl hb
    · exact .inl
  · intro k hk
    simp [Queued, Ensemble.add, hk]
  · constructor
    · intro _
      exact ⟨_, List.mem_append_right _ (List.mem_singleton_self _), rfl, rfl⟩
    · intro _
      exact .inl (List.mem_append_right _ (List.mem_singleton_self _))
  · intro k hk hdeferred
    rcases List.mem_append.mp hk with hk | hk
    · exact ht.apart k hk hdeferred
    · obtain rfl := List.mem_singleton.mp hk
      exact hunqueued (.inr hdeferred)

theorem InTurn.stop (ht : sys.InTurn) (id : TaskId) : (sys.stop id).InTurn := by
  unfold Ensemble.stop
  cases hfind : sys.activity? id with
  | none => exact ht
  | some a =>
    have ha : a ∈ sys.activities := List.mem_of_find?_eq_some hfind
    have hid : a.id = id := by simpa using List.find?_some hfind
    have hstopped : ∃ b ∈ (sys.setActivity a.stopped).activities, b.id = id ∧ b.wait = none :=
      ⟨a.stopped, self_mem_setActivity ha rfl, hid, rfl⟩
    have hothers : ∀ b : Activity, b.id ≠ id →
        (b ∈ (sys.setActivity a.stopped).activities ↔ b ∈ sys.activities) :=
      fun b hb => mem_setActivity (fun h => hb (h.trans hid))
    dsimp only
    split
    · rename_i hqueued
      exact ht.change id hothers (fun _ _ => Iff.rfl) ⟨fun _ => hstopped, fun _ => hqueued⟩ ht.apart
    · rename_i hqueued
      apply ht.change id
      · exact hothers
      · intro k hk
        simp [Queued, setActivity, hk]
      · have hturn : id ∈ sys.turns ++ [id] := List.mem_append_right _ (List.mem_singleton_self _)
        exact ⟨fun _ => hstopped, fun _ => .inl hturn⟩
      · intro k hk hdeferred
        rcases List.mem_append.mp hk with hk | hk
        · exact ht.apart k hk hdeferred
        · obtain rfl := List.mem_singleton.mp hk
          exact hqueued (.inr hdeferred)

theorem InTurn.settle (ht : sys.InTurn)
    (h : (sys.ids ++ (sys.site.starting.reverse.map Activity.started).map (·.id)).Nodup) :
    sys.settle.InTurn := by
  have hadd : ∀ (starts : List (TaskId × Start)) (sys : Ensemble), sys.InTurn →
      (sys.ids ++ (starts.map Activity.started).map (·.id)).Nodup →
        (starts.foldl (fun sys start => sys.add start.1 (.ofStart start.2)) sys).InTurn := by
    intro starts
    induction starts with
    | nil => exact fun sys ht _ => ht
    | cons start rest ih =>
      intro sys ht hnodup
      have hnew : start.1 ∉ sys.ids := by
        intro hmem
        exact (List.nodup_append'.mp hnodup).2.2 hmem List.mem_cons_self
      apply ih _ (ht.add hnew _)
      have hids : (sys.add start.1 (.ofStart start.2)).ids = sys.ids ++ [start.1] :=
        List.map_append
      rw [hids, List.append_assoc]
      exact hnodup
  have hstop : ∀ (ids : List TaskId) (sys : Ensemble), sys.InTurn →
      (ids.foldl Ensemble.stop sys).InTurn := by
    intro ids
    induction ids with
    | nil => exact fun sys ht => ht
    | cons id rest ih => exact fun sys ht => ih _ (ht.stop id)
  unfold Ensemble.settle
  exact hstop _ _ (hadd _ _ ⟨ht.ready, ht.apart⟩ h)

/-- A task that has the turn keeps it or gives it up as its move says. -/
theorem InTurn.moved (ht : sys.InTurn) (ha : a ∈ sys.activities) (hturn : a.id ∈ sys.turns) :
    (sys.moved a).InTurn := by
  have hundeferred : a.id ∉ sys.deferred := ht.apart _ hturn
  unfold Ensemble.moved
  dsimp only
  cases (a.task.step sys.site).1 with
  | more task =>
    refine ht.change a.id (fun b hb => mem_setActivity hb) (fun _ _ => Iff.rfl) ?_ ht.apart
    exact ⟨fun _ => ⟨_, self_mem_setActivity ha rfl, rfl, rfl⟩, fun _ => .inl hturn⟩
  | wait w task =>
    dsimp only
    split
    · unfold goOn
      dsimp only
      split
      · refine ht.change a.id (fun b hb => mem_setActivity hb) (fun _ _ => Iff.rfl) ?_ ht.apart
        exact ⟨fun _ => ⟨_, self_mem_setActivity ha rfl, rfl, rfl⟩, fun _ => .inl hturn⟩
      · apply ht.change a.id
        · exact fun b hb => mem_setActivity hb
        · intro k hk
          simp [Queued, endTurn, setActivity, hk]
        · constructor
          · exact fun _ => ⟨_, self_mem_setActivity ha rfl, rfl, rfl⟩
          · exact fun _ => .inr List.mem_cons_self
        · intro k hk hdeferred
          obtain ⟨hk, hne⟩ := List.mem_filter.mp hk
          rcases List.mem_cons.mp hdeferred with rfl | hdeferred
          · exact absurd hne (by simp)
          · exact ht.apart k hk hdeferred
    · apply ht.change a.id
      · exact fun b hb => mem_setActivity hb
      · intro k hk
        simp [Queued, endTurn, setActivity, hk]
      · constructor
        · rintro (h | h)
          · exact absurd (List.mem_filter.mp h).2 (by simp)
          · exact absurd h hundeferred
        · rintro ⟨b, hb, hid, hwait⟩
          rw [eq_of_mem_setActivity hb hid] at hwait
          exact absurd hwait (by simp)
      · intro k hk
        exact ht.apart k (List.mem_filter.mp hk).1
  | _ =>
    apply ht.change a.id
    · intro b hb
      simp [finish, remove, hb]
    · intro k hk
      simp [Queued, finish, remove, hk]
    · constructor
      · rintro (h | h)
        · exact absurd (List.mem_filter.mp h).2 (by simp)
        · exact absurd (List.mem_filter.mp h).2 (by simp)
      · rintro ⟨b, hb, hid, -⟩
        have hne := (List.mem_filter.mp hb).2
        exact absurd hid (by simpa using hne)
    · intro k hk hdeferred
      exact ht.apart k (List.mem_filter.mp hk).1 (List.mem_filter.mp hdeferred).1

/-- The tasks whose waits are over are behind all others that have a turn to come. -/
theorem turns_wake (sys : Ensemble) : ∃ awake : List TaskId, sys.wake.turns = sys.turns ++ awake ∧
    sys.wake.deferred = sys.deferred ∧
    ∀ id, id ∈ awake ↔ ∃ a ∈ sys.activities, a.id = id ∧ isAwake sys.site a = true := by
  unfold wake
  dsimp only
  split
  · rename_i hnil
    refine ⟨[], (List.append_nil _).symm, rfl, fun id => ?_⟩
    constructor
    · exact fun h => absurd h List.not_mem_nil
    · rintro ⟨a, ha, rfl, hawake⟩
      rw [← List.map_nil, ← hnil]
      exact List.mem_map_of_mem (List.mem_mergeSort.mpr (List.mem_filter.mpr ⟨ha, hawake⟩))
  · refine ⟨_, rfl, rfl, fun id => ?_⟩
    rw [List.mem_map]
    constructor
    · rintro ⟨a, ha, hid⟩
      obtain ⟨ha, hawake⟩ := List.mem_filter.mp (List.mem_mergeSort.mp ha)
      exact ⟨a, ha, hid, hawake⟩
    · rintro ⟨a, ha, hid, hawake⟩
      exact ⟨a, List.mem_mergeSort.mpr (List.mem_filter.mpr ⟨ha, hawake⟩), hid⟩

theorem InTurn.wake (ht : sys.InTurn) (hnodup : sys.ids.Nodup) : sys.wake.InTurn := by
  have hactivities := sys.activities_wake
  obtain ⟨awake, hturns, hdeferred, hawake⟩ := sys.turns_wake
  have hawoken : ∀ a, (a.awoken sys.site).id = a.id ∧
      ((a.awoken sys.site).wait = none ↔ a.wait = none ∨ isAwake sys.site a = true) := by
    intro a
    unfold Activity.awoken
    split
    · rename_i h
      exact ⟨rfl, fun _ => .inr h, fun _ => rfl⟩
    · rename_i h
      exact ⟨rfl, .inl, fun hor => hor.resolve_right h⟩
  constructor
  · intro id
    rw [Queued, hturns, hdeferred, List.mem_append, or_right_comm, hawake]
    have hready := ht.ready id
    rw [Queued] at hready
    rw [hready, hactivities]
    constructor
    · rintro (⟨a, ha, rfl, hwait⟩ | ⟨a, ha, rfl, hover⟩)
      · exact ⟨_, List.mem_map_of_mem ha, (hawoken a).1, (hawoken a).2.mpr (.inl hwait)⟩
      · exact ⟨_, List.mem_map_of_mem ha, (hawoken a).1, (hawoken a).2.mpr (.inr hover)⟩
    · rintro ⟨b, hb, hid, hwait⟩
      obtain ⟨a, ha, rfl⟩ := List.mem_map.mp hb
      rw [(hawoken a).1] at hid
      rcases (hawoken a).2.mp hwait with hwait | hover
      · exact .inl ⟨a, ha, hid, hwait⟩
      · exact .inr ⟨a, ha, hid, hover⟩
  · intro id hid
    rw [hdeferred]
    rw [hturns] at hid
    rcases List.mem_append.mp hid with hid | hid
    · exact ht.apart id hid
    · intro hlater
      obtain ⟨a, ha, haid, hover⟩ := (hawake id).mp hid
      obtain ⟨b, hb, hbid, hwait⟩ := (ht.ready id).mp (.inr hlater)
      obtain rfl := eq_of_id_eq hnodup ha hb (haid.trans hbid.symm)
      rw [isAwake, hwait] at hover
      exact absurd hover (by simp)

theorem noticed_wake (sys : Ensemble) : ∀ a ∈ sys.wake.activities,
    isAwake sys.wake.site a = false := by
  intro b hb
  rw [activities_wake] at hb
  obtain ⟨a, -, rfl⟩ := List.mem_map.mp hb
  rw [site_wake]
  unfold Activity.awoken
  split
  · rfl
  · rename_i h
    exact Bool.eq_false_iff.mpr h

/-! ## The clock -/

theorem nanos_lt_of_deadline {s : Site} {w : Wait} (hw : w.isOver s = false) :
    ∀ deadline ∈ w.deadline?, s.nanos < deadline := by
  induction w with
  | time other =>
    intro deadline hdeadline
    obtain rfl := Option.mem_some_iff.mp hdeadline
    simpa [Wait.isOver] using hw
  | either first second hfirst hsecond =>
    rw [Wait.isOver, Bool.or_eq_false_iff] at hw
    exact Wait.le_earlier_iff.mpr ⟨hfirst hw.1, hsecond hw.2⟩
  | _ => exact fun deadline hdeadline => absurd hdeadline (by simp [Wait.deadline?])

/-- The next deadline is no later than any other. -/
theorem nextDeadline?_le {deadline : Nat} (h : sys.nextDeadline? = some deadline)
    (ha : a ∈ sys.activities) : ∀ other ∈ a.wait.bind Wait.deadline?, deadline ≤ other := by
  have hfold : ∀ (activities : List Activity) (d : Option Nat),
      (∀ e ∈ activities.foldl (fun d a => Wait.earlier d (a.wait.bind Wait.deadline?)) d,
        deadline ≤ e) →
          (∀ e ∈ d, deadline ≤ e) ∧
            ∀ a ∈ activities, ∀ e ∈ a.wait.bind Wait.deadline?, deadline ≤ e := by
    intro activities
    induction activities with
    | nil => exact fun d hd => ⟨hd, fun a ha => absurd ha List.not_mem_nil⟩
    | cons b rest ih =>
      intro d hd
      obtain ⟨hfirst, hrest⟩ := ih _ hd
      obtain ⟨hd, hb⟩ := Wait.le_earlier_iff.mp hfirst
      exact ⟨hd, List.forall_mem_cons.mpr ⟨hb, hrest⟩⟩
  have hnext : ∀ e ∈ sys.nextDeadline?, deadline ≤ e := by
    intro e he
    rw [h, Option.mem_some_iff] at he
    exact Nat.le_of_eq he
  exact (hfold _ none hnext).2 a ha

/-- When nobody has a turn, time may pass to the next deadline. -/
theorem Scheduled.whenIdle (h : sys.Scheduled) (hturns : sys.turns = [])
    (hdeferred : sys.deferred = []) {deadline : Nat} (hnext : sys.nextDeadline? = some deadline) :
    whenIdle sys (max sys.site.clock (wholeMillis deadline)) := by
  intro a ha
  have hwait : a.wait ≠ none := by
    intro hnone
    rcases (h.ready a.id).mpr ⟨a, ha, rfl, hnone⟩ with hq | hq
    · rw [hturns] at hq
      exact absurd hq List.not_mem_nil
    · rw [hdeferred] at hq
      exact absurd hq List.not_mem_nil
  obtain ⟨w, hw⟩ := Option.ne_none_iff_exists'.mp hwait
  have hover : w.isOver sys.site = false := by
    have hnoticed := h.noticed a ha
    rwa [isAwake, hw] at hnoticed
  constructor
  · rw [Activity.isFree, hw]
    exact hover
  · intro other hother
    have hle := nextDeadline?_le hnext ha other hother
    rw [hw] at hother
    have hlt := nanos_lt_of_deadline hover other hother
    apply Nat.max_le.mpr
    constructor
    · exact le_wholeMillis (Nat.le_of_lt hlt)
    · exact wholeMillis_le_wholeMillis hle

/-! ## What the scheduler does -/

theorem Sound.wake (hs : sys.Sound) : sys.wake.Sound := by
  have hpause : Pause anytime sys sys.wake := .wake
  exact hpause.sound hs

theorem Scheduled.move (h : sys.Scheduled) (ha : a ∈ sys.activities) (hturn : a.id ∈ sys.turns) :
    (sys.move a).wake.Scheduled where
  toSound := (h.toSound.move a ha).wake
  toInTurn := by
    have hmoved := (h.toInTurn.moved ha hturn).settle (h.nodup_moved a)
    exact hmoved.wake (h.toSound.move a ha).nodup
  noticed := noticed_wake _

/-- What the scheduler does next is a move or a pause, or both. -/
theorem Scheduled.advance (h : sys.Scheduled) (hnext : sys.advance? = some next) :
    (∃ history, Interleaving Host.whenIdle sys history next) ∧ next.Scheduled := by
  unfold advance? at hnext
  split at hnext
  · rename_i id rest hturns
    have hturn : id ∈ sys.turns := hturns ▸ List.mem_cons_self
    split at hnext
    · rename_i a hfind
      obtain rfl := Option.some.inj hnext
      have ha : a ∈ sys.activities := List.mem_of_find?_eq_some hfind
      have hid : a.id = id := by simpa using List.find?_some hfind
      have hfree : a.isFree sys.site = true := by
        obtain ⟨b, hb, hbid, hwait⟩ := (h.ready id).mp (.inl hturn)
        obtain rfl := eq_of_id_eq h.nodup ha hb (hid.trans hbid.symm)
        rw [Activity.isFree, hwait]
        rfl
      constructor
      · exact ⟨_, (Interleaving.nil.move ha hfree).pause .wake⟩
      · exact h.move ha (hid ▸ hturn)
    · rename_i hnone
      obtain ⟨b, hb, hid, -⟩ := (h.ready id).mp (.inl hturn)
      have hne := List.find?_eq_none.mp hnone b hb
      simp only [hid, decide_true, not_true_eq_false] at hne
  · rename_i hturns
    split at hnext
    · rename_i hdeferred
      obtain ⟨jumped, hjump, rfl⟩ := Option.map_eq_some_iff.mp hnext
      obtain ⟨deadline, hdeadline, rfl⟩ := Option.map_eq_some_iff.mp hjump
      have hpause := Pause.lapse (Nat.le_max_left _ _) (h.whenIdle hturns hdeferred hdeadline)
      constructor
      · exact ⟨_, (Interleaving.nil.pause hpause).pause .wake⟩
      · have hsound := hpause.sound h.toSound
        refine ⟨hsound.wake, ?_, noticed_wake _⟩
        exact InTurn.wake ⟨h.ready, h.apart⟩ hsound.nodup
    · obtain rfl := Option.some.inj hnext
      constructor
      · exact ⟨_, Interleaving.nil.pause (.turns _ _)⟩
      · refine ⟨⟨h.nodup, h.bounded, h.starting, h.stopping⟩, ⟨fun id => ?_, ?_⟩, h.noticed⟩
        · rw [← h.ready id, Queued, Queued, hturns]
          simp
        · exact fun _ _ => List.not_mem_nil

/-- The scheduler leads along an interleaving in which time passes only while every task waits. -/
theorem Scheduled.interleaving_runUntil (h : sys.Scheduled) (holds : Ensemble → Bool) (fuel : Nat) :
    (∃ history, Interleaving Host.whenIdle sys history (runUntil holds fuel sys)) ∧
      (runUntil holds fuel sys).Scheduled := by
  induction fuel generalizing sys with
  | zero => exact ⟨⟨_, .nil⟩, h⟩
  | succ fuel ih =>
    rw [runUntil]
    split
    · exact ⟨⟨_, .nil⟩, h⟩
    · split
      · rename_i next hnext
        obtain ⟨⟨first, hfirst⟩, hscheduled⟩ := h.advance hnext
        obtain ⟨⟨rest, hrest⟩, hscheduled⟩ := ih hscheduled
        exact ⟨⟨_, hfirst.append hrest⟩, hscheduled⟩
      · exact ⟨⟨_, .nil⟩, h⟩

theorem scheduled_ofSite {s : Site} (hstarting : s.starting = []) (hstopping : s.stopping = []) :
    (ofSite s).Scheduled where
  nodup := List.nodup_nil
  bounded := fun _ ha => absurd ha List.not_mem_nil
  starting := hstarting
  stopping := hstopping
  ready := fun id => by simp [Queued, ofSite]
  apart := fun _ hid => absurd hid List.not_mem_nil
  noticed := fun _ ha => absurd ha List.not_mem_nil

theorem Scheduled.host (h : sys.Scheduled) (task : Task) : (sys.host task).Scheduled where
  toSound := h.toSound.host task
  toInTurn := by
    have hturns : InTurn { sys with site := { sys.site with nextTask := sys.site.nextTask + 1 } } :=
      ⟨h.ready, h.apart⟩
    apply hturns.add
    intro hmem
    obtain ⟨a, ha, hid⟩ := List.mem_map.mp hmem
    exact Nat.ne_of_lt (h.bounded a ha) hid
  noticed := by
    intro b hb
    rcases List.mem_append.mp hb with hb | hb
    · have hnoticed := h.noticed b hb
      rw [isAwake] at hnoticed ⊢
      cases hw : b.wait with
      | none => rfl
      | some w =>
        rw [hw] at hnoticed
        have hsame : ∀ w : Wait, w.isOver (sys.host task).site = w.isOver sys.site := by
          intro w
          induction w with
          | either first second hfirst hsecond => rw [Wait.isOver, hfirst, hsecond, Wait.isOver]
          | _ => rfl
        exact (hsame w).trans hnoticed
    · rw [List.mem_singleton.mp hb]
      rfl

end Ensemble

end Host

end LeasedWork
