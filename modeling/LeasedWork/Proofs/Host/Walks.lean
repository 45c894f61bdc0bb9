import LeasedWork.Proofs.Engine.Walk
import LeasedWork.Proofs.Host.Exhaustion

/-!
# The walk of a task

Whatever the order in which tasks move, the moves of any one of them that is not told to stop are a
walk of its machine: the site only gets later while others move and time passes, and a task does
not move before its wait is over. Loops are never told to stop.
-/
namespace LeasedWork

namespace Engine

/-- What makes a site later than another. -/
theorem Site.later_of_parts {s t : Site} (hclock : s.clock ≤ t.clock) (htiming : t.timing = s.timing)
    (htimer : t.timer = s.timer) (hcancelled : ∀ k, s.isCancelled k = true → t.isCancelled k = true)
    (hready : s.ready = true → t.ready = true) (hended : s.ended <+: t.ended)
    (hsent : s.bus.sent.size ≤ t.bus.sent.size) : s.Later t := by
  refine ⟨hclock, htiming, htimer, fun w => ?_⟩
  induction w with
  | time deadline =>
    intro h
    have hnanos : s.nanos ≤ t.nanos := Nat.mul_le_mul_right _ hclock
    simp only [Wait.isOver, decide_eq_true_eq] at h ⊢
    omega
  | cancel k => exact hcancelled k
  | ready => exact hready
  | anyEnded ids =>
    intro h
    obtain ⟨more, hmore⟩ := hended
    simp only [Wait.isOver, Site.firstEnded?, ← hmore, List.find?_append] at h ⊢
    rw [Option.isSome_or, h, Bool.true_or]
  | event count =>
    intro h
    simp only [Wait.isOver, decide_eq_true_eq] at h ⊢
    omega
  | never => exact id
  | either first second ihfirst ihsecond =>
    intro h
    simp only [Wait.isOver, Bool.or_eq_true] at h ⊢
    exact h.imp ihfirst ihsecond

end Engine

namespace Host

open Engine

/-- What a move of a task makes of its site is later. -/
theorem Task.later_step (s : Site) (t : Task) : s.Later (t.step s).2 := by
  have haside := t.aside_step s
  apply Site.later_of_parts
  · exact Nat.le_of_eq (t.clock_step s).symm
  · exact (t.setAlike_step s).timing
  · exact (t.setAlike_step s).timer
  · intro k hk
    rw [Site.isCancelled, haside.tokens]
    exact (Deed.isCancelled_onAll s (t.deeds s) k).mpr (.inl hk)
  · exact fun hready => haside.ready ((s.ready_onAll _).trans hready)
  · exact (t.ended_step s).symm ▸ List.prefix_rfl
  · have hsent := congrArg List.length (Deed.sent_onAll s (t.deeds s))
    rw [List.length_append, Array.length_toList, Array.length_toList] at hsent
    rw [haside.bus]
    omega

namespace Ensemble

/-- Nothing that a move has brought about is lost when others get word of it. -/
theorem later_moved (sys : Ensemble) (a : Activity) :
    (a.task.step sys.site).2.Later (sys.move a).site := by
  have hended := sys.ended_move a
  obtain ⟨ended, hsite⟩ := sys.site_move a
  rw [hsite] at hended ⊢
  refine Site.later_of_parts (Nat.le_refl _) rfl rfl (fun _ => id) id ?_ (Nat.le_refl _)
  rw [a.task.ended_step sys.site]
  exact ⟨_, hended.symm⟩

theorem later_move (sys : Ensemble) (a : Activity) : sys.site.Later (sys.move a).site :=
  (a.task.later_step sys.site).trans (sys.later_moved a)

end Ensemble

theorem Pause.later {lapse : Ensemble → Nat → Prop} {sys next : Ensemble}
    (h : Pause lapse sys next) : sys.site.Later next.site := by
  obtain ⟨clock, hle, hsite⟩ := h.site_eq
  rw [hsite]
  exact Site.later_of_parts hle rfl rfl (fun _ => id) id List.prefix_rfl (Nat.le_refl _)

/-! ## Tasks of one kind -/

/-- A kind of task: the machine that such tasks are, and which tasks are such. -/
structure Kind (σ : Type) where
  step : Site → σ → Progress σ Unit × Site
  task : σ → Task
  machine? : Task → Option σ
  machine?_task : ∀ x, machine? (task x) = some x
  step_task : ∀ s x, ((task x).step s).1 = (step s x).1.within task .done

namespace Kind

def heartbeat : Kind Heartbeat where
  step := Heartbeat.step
  task := .heartbeat
  machine?
    | .heartbeat h => some h
    | _ => none
  machine?_task _ := rfl
  step_task _ _ := rfl

def loop : Kind PollLoop where
  step := PollLoop.step
  task := .loop
  machine? := Task.loop?
  machine?_task _ := rfl
  step_task _ _ := rfl

variable {σ : Type} (kind : Kind σ)

/-- The moves of the task of a number, as those of its machine. -/
def paces (n : TaskId) (history : List Move) : List (Pace σ) :=
  history.filterMap fun m =>
    if m.mover.id = n then (kind.machine? m.mover.task).map fun x => ⟨m.site, x⟩ else none

/-- Whether an activity is in the state in which a move has left its machine. -/
inductive Holds (s : Site) (p : Progress σ Unit) (b : Activity) : Prop
  | more {x : σ} (hp : p = .more x) (ht : b.task = kind.task x) (hwait : b.wait = none)
  | wait {w : Wait} {x : σ} (hp : p = .wait w x) (ht : b.task = kind.task x)
    (hwait : b.wait = some w ∨ b.wait = none ∧ w.isOver s = true)

variable {kind} {lapse : Ensemble → Nat → Prop} {mid sys next : Ensemble} {history : List Move}
  {a b c : Activity} {n : TaskId} {s t : Site} {p q : Progress σ Unit} {m : Move} {x : σ}

theorem paces_append_self (hid : m.mover.id = n) (ht : m.mover.task = kind.task x) :
    kind.paces n (history ++ [m]) = kind.paces n history ++ [⟨m.site, x⟩] := by
  rw [paces, List.filterMap_append]
  congr 1
  simp [hid, ht, kind.machine?_task]

theorem paces_append_of_ne (hid : m.mover.id ≠ n) :
    kind.paces n (history ++ [m]) = kind.paces n history := by
  rw [paces, List.filterMap_append]
  simp [hid, paces]

theorem paces_eq_nil (h : ∀ m ∈ history, m.mover.id ≠ n) : kind.paces n history = [] := by
  refine List.filterMap_eq_nil_iff.mpr fun m hm => ?_
  rw [if_neg (h m hm)]

namespace Holds

theorem mono (h : kind.Holds s p b) (hlater : s.Later t) : kind.Holds t p b := by
  cases h with
  | more hp ht hwait => exact .more hp ht hwait
  | wait hp ht hwait =>
    exact .wait hp ht (hwait.imp_right fun hover => ⟨hover.1, hlater.stays _ hover.2⟩)

/-- A task whose wait is over goes on from where its machine was left. -/
theorem resumes (h : kind.Holds s p b) (hfree : b.isFree s = true) :
    ∃ x, b.task = kind.task x ∧ p.Resumes s x := by
  cases h with
  | @more x hp ht hwait => exact ⟨x, ht, hp ▸ .more⟩
  | @wait w x hp ht hwait =>
    have hover : w.isOver s = true := by
      rcases hwait with hwait | ⟨-, hover⟩
      · simpa [Activity.isFree, hwait] using hfree
      · exact hover
    exact ⟨x, ht, hp ▸ .wait hover⟩

/-- A task that goes on from a move is in the state in which the move has left its machine. -/
theorem of_continues (hgo : c.Continues t (p.within kind.task .done)) (hlater : t.Later s) :
    kind.Holds s p c := by
  cases p with
  | more x =>
    cases hgo with
    | more ht hwait => exact .more rfl ht hwait
  | wait w x =>
    cases hgo with
    | elapsed hover ht hwait => exact .wait rfl ht (.inr ⟨hwait, hlater.stays w hover⟩)
    | wait _ ht hwait => exact .wait rfl ht (.inl hwait)
  | done => cases hgo
  | crash => cases hgo

theorem pause (h : ∀ b ∈ sys.activities, b.id = n → kind.Holds sys.site p b)
    (hpause : Pause lapse sys next) :
    ∀ b ∈ next.activities, b.id = n → kind.Holds next.site p b := by
  intro b hb hid
  obtain ⟨c, hc, hcid, htask, hwait⟩ := hpause.wait_cases hb
  have hholds := h c hc (hcid.trans hid)
  refine mono ?_ hpause.later
  rcases hwait with hwait | ⟨hnone, w, hw, hover⟩
  · cases hholds with
    | more hp ht hold => exact .more hp (htask ▸ ht) (hwait.trans hold)
    | wait hp ht hold => exact .wait hp (htask ▸ ht) (hwait ▸ hold)
  · cases hholds with
    | more _ _ hold => exact absurd (hold.symm.trans hw) (by simp)
    | @wait w' _ hp ht hold =>
      rcases hold with hold | ⟨hold, -⟩
      · obtain rfl := Option.some.inj (hold.symm.trans hw)
        exact .wait hp (htask ▸ ht) (.inr ⟨hnone, hover⟩)
      · exact absurd (hold.symm.trans hw) (by simp)

/-- The moves of other tasks leave one as it is that they do not tell to stop. -/
theorem move_of_ne (h : ∀ b ∈ sys.activities, b.id = n → kind.Holds sys.site p b)
    (hs : sys.Sound) (hlt : n < sys.site.nextTask) (hne : a.id ≠ n)
    (hstay : n ∈ sys.ids → n ∉ (a.task.step sys.site).2.stopping) :
    ∀ b ∈ (sys.move a).activities, b.id = n → kind.Holds (sys.move a).site p b := by
  intro b hb hid
  obtain ⟨c, rfl, ⟨hc, -⟩ | ⟨hcid, -⟩ | ⟨start, hstart, rfl⟩⟩ := hs.mem_move_cases hb
  · rw [Activity.id_heeding] at hid
    have hmem : n ∈ sys.ids := hid ▸ List.mem_map_of_mem hc
    rw [Activity.heeding_of_not_mem (hid ▸ hstay hmem)]
    exact (h c hc hid).mono (sys.later_move a)
  · rw [Activity.id_heeding] at hid
    exact absurd (hcid.symm.trans hid) hne
  · rw [Activity.id_heeding] at hid
    have hle := ((Task.startsFrom_step hs.starting a.task).fresh start hstart).1
    exact absurd hlt (Nat.not_lt.mpr (hid ▸ hle))

/-- A move of the task itself is a move of its machine. -/
theorem move_self (hs : sys.Sound) (ha : a ∈ sys.activities) (ht : a.task = kind.task x)
    (hstay : a.id ∉ (a.task.step sys.site).2.stopping) :
    ∀ b ∈ (sys.move a).activities, b.id = a.id →
      kind.Holds (sys.move a).site (kind.step sys.site x).1 b := by
  intro b hb hid
  obtain ⟨c, rfl, ⟨-, hne⟩ | ⟨hcid, hgo⟩ | ⟨start, hstart, rfl⟩⟩ := hs.mem_move_cases hb
  · rw [Activity.id_heeding] at hid
    exact absurd hid hne
  · rw [Activity.heeding_of_not_mem (hcid.symm ▸ hstay)]
    have hstep : (a.task.step sys.site).1 = (kind.step sys.site x).1.within kind.task .done := by
      rw [ht, kind.step_task]
    rw [hstep] at hgo
    exact .of_continues hgo (sys.later_moved a)
  · rw [Activity.id_heeding] at hid
    have hle := ((Task.startsFrom_step hs.starting a.task).fresh start hstart).1
    exact absurd (hs.bounded a ha) (Nat.not_lt.mpr (hid ▸ hle))

end Holds

end Kind

/-! ## All moves of a task -/

variable {σ : Type} {kind : Kind σ} {lapse : Ensemble → Nat → Prop} {start mid sys : Ensemble}
  {history before after : List Move} {b : Activity} {n : TaskId} {p : Progress σ Unit} {m : Move}
  {x : σ} {l : PollLoop}

/-- Whether nobody tells the task of a number to stop, as long as it is there. -/
def Unstopped (n : TaskId) (history : List Move) : Prop :=
  ∀ m ∈ history, n ∈ m.sys.ids → n ∉ (m.mover.task.step m.site).2.stopping

instance (n : TaskId) (history : List Move) : Decidable (Unstopped n history) :=
  inferInstanceAs (Decidable (∀ m ∈ history, _ → _))

/-- The moves of a task that is not told to stop are a walk. -/
theorem Interleaving.walk (h : Interleaving lapse mid history sys) (hs : mid.Sound)
    (hlt : n < mid.site.nextTask)
    (hholds : ∀ b ∈ mid.activities, b.id = n → kind.Holds mid.site p b)
    (hstay : Unstopped n history) : ∃ t q, Walk kind.step mid.site p (kind.paces n history) t q ∧
      t.Later sys.site ∧ ∀ b ∈ sys.activities, b.id = n → kind.Holds sys.site q b := by
  induction h with
  | nil => exact ⟨mid.site, p, .nil, .refl _, hholds⟩
  | @move history sys a h ha hf ih =>
    have hsound := h.sound hs
    obtain ⟨t, q, hwalk, hlater, hholds⟩ := ih fun m hm => hstay m (List.mem_append_left _ hm)
    have hstop := hstay ⟨sys, a⟩ (List.mem_append_right _ (List.mem_singleton.mpr rfl))
    by_cases hid : a.id = n
    · subst hid
      obtain ⟨x, ht, hresumes⟩ := (hholds a ha rfl).resumes hf
      rw [Kind.paces_append_self (m := ⟨sys, a⟩) rfl ht]
      refine ⟨_, _, hwalk.snoc hlater hresumes, sys.later_move a, ?_⟩
      exact Kind.Holds.move_self hsound ha ht (hstop (List.mem_map_of_mem ha))
    · rw [Kind.paces_append_of_ne (m := ⟨sys, a⟩) hid]
      refine ⟨t, q, hwalk, hlater.trans (sys.later_move a), ?_⟩
      have hlt' := Nat.lt_of_lt_of_le hlt (h.nextTask_le hs)
      exact Kind.Holds.move_of_ne hholds hsound hlt' hid hstop
  | pause h hp ih =>
    obtain ⟨t, q, hwalk, hlater, hholds⟩ := ih hstay
    exact ⟨t, q, hwalk, hlater.trans hp.later, Kind.Holds.pause hholds hp⟩

/-- If time passes only while every task waits, none passes while the machine of a task does not. -/
theorem Interleaving.seamless (h : Interleaving whenIdle mid history sys) (hs : mid.Sound)
    (hlt : n < mid.site.nextTask)
    (hholds : ∀ b ∈ mid.activities, b.id = n → kind.Holds mid.site p b)
    (hstay : Unstopped n history) : Seamless kind.step (kind.paces n history) := by
  suffices hlast : Seamless kind.step (kind.paces n history) ∧
      ∀ m ∈ (kind.paces n history).getLast?, ∀ x, (kind.step m.site m.state).1 = .more x →
        n ∈ sys.ids → sys.site.clock = m.site.clock from hlast.1
  induction h with
  | nil => exact ⟨.nil, fun m hm => absurd hm (by simp [Kind.paces])⟩
  | @move history sys a h ha hf ih =>
    have hbefore : Unstopped n history := fun m hm => hstay m (List.mem_append_left _ hm)
    obtain ⟨hchain, hlast⟩ := ih hbefore
    have hclock : (sys.move a).site.clock = sys.site.clock := sys.clock_move a
    by_cases hid : a.id = n
    · subst hid
      obtain ⟨t, q, -, -, hnow⟩ := h.walk hs hlt hholds hbefore
      obtain ⟨x, ht, -⟩ := (hnow a ha rfl).resumes hf
      rw [Kind.paces_append_self (m := ⟨sys, a⟩) rfl ht]
      constructor
      · refine List.isChain_append.mpr ⟨hchain, .singleton _, fun m hm m' hm' x hx => ?_⟩
        obtain rfl := Option.some.inj hm'
        exact hlast m hm x hx (List.mem_map_of_mem ha)
      · intro m hm x hx _
        rw [List.getLast?_concat] at hm
        obtain rfl := Option.some.inj hm
        exact hclock
    · rw [Kind.paces_append_of_ne (m := ⟨sys, a⟩) hid]
      refine ⟨hchain, fun m hm x hx hmem => ?_⟩
      have hlt' := Nat.lt_of_lt_of_le hlt (h.nextTask_le hs)
      have hold := ((h.sound hs).mem_ids_move_of_lt ha hlt').mp hmem
      exact hclock.trans (hlast m hm x hx hold.1)
  | @pause history sys next h hp ih =>
    obtain ⟨hchain, hlast⟩ := ih hstay
    refine ⟨hchain, fun m hm x hx hmem => ?_⟩
    have hmem' : n ∈ sys.ids := hp.ids_eq ▸ hmem
    have hold := hlast m hm x hx hmem'
    cases hp with
    | turns => exact hold
    | wake => exact (congrArg Site.clock sys.site_wake).trans hold
    | lapse _ hidle =>
      -- A task that is in the middle of something keeps the clock from moving.
      obtain ⟨b, hb, hid⟩ := List.mem_map.mp hmem'
      obtain ⟨t, q, hwalk, -, hnow⟩ := h.walk hs hlt hholds hstay
      obtain ⟨before, hpaces⟩ := List.getLast?_eq_some_iff.mp hm
      rw [hpaces] at hwalk
      have hfree : b.isFree sys.site = true := by
        cases hnow b hb hid with
        | more _ _ hwait => simp [Activity.isFree, hwait]
        | wait hq => exact absurd (hq.symm.trans (hwalk.last.trans hx)) (by simp)
      exact absurd ((hidle b hb).1.symm.trans hfree) (by simp)

/-- A walk may begin where a task waits for nothing. -/
theorem Kind.holds_of_mem (hs : mid.Sound) (hb : b ∈ mid.activities) (ht : b.task = kind.task x)
    (hwait : b.wait = none) :
    ∀ c ∈ mid.activities, c.id = b.id → kind.Holds mid.site (.more x) c := by
  intro c hc hid
  obtain rfl := Ensemble.eq_of_id_eq hs.nodup hc hb hid
  exact .more rfl ht hwait

theorem Interleaving.walk_of_mem (h : Interleaving lapse mid history sys) (hs : mid.Sound)
    (hb : b ∈ mid.activities) (ht : b.task = kind.task x) (hwait : b.wait = none)
    (hstay : Unstopped b.id history) :
    ∃ t q, Walk kind.step mid.site (.more x) (kind.paces b.id history) t q := by
  have hholds := Kind.holds_of_mem hs hb ht hwait
  obtain ⟨t, q, hwalk, -⟩ := h.walk hs (hs.bounded b hb) hholds hstay
  exact ⟨t, q, hwalk⟩

/-- Before a task is started it makes no moves. -/
theorem Interleaving.paces_of_launched (h : Interleaving lapse start (before ++ m :: after) sys)
    (hs : start.Sound) (hn : n ∈ m.launched.map (·.1)) :
    kind.paces n (before ++ m :: after) = kind.paces n after := by
  obtain ⟨hbefore, hmover, -, -⟩ := h.split
  rw [List.append_cons, Kind.paces, List.filterMap_append]
  have hnone : kind.paces n (before ++ [m]) = [] :=
    Kind.paces_eq_nil (hbefore.mover_ne hs hmover hn)
  rw [Kind.paces] at hnone
  rw [hnone, List.nil_append, Kind.paces]

/-- Nobody tells a loop to stop. -/
theorem Interleaving.unstopped_loop (h : Interleaving lapse mid history sys)
    (hbefore : Interleaving lapse start before mid) (hs : start.Opening)
    (hw : start.WatchesHeartbeats) (hb : b ∈ mid.activities) (ht : b.task = .loop l) :
    Unstopped b.id history := by
  intro m hm hmem hstop
  obtain ⟨past, hpast, hmover, -⟩ := h.of_mem hm
  have hreach := hbefore.append hpast
  have hdeed := Move.stop_of_stopping (hreach.sound hs.toSound) hstop
  obtain ⟨c, hc, hid⟩ := List.mem_map.mp hmem
  have hguarding := hreach.guarding hs.toSound rfl (hs.guarding hw)
  obtain ⟨beats, hbeats⟩ := hguarding.isHeartbeat_of_stop hmover hdeed hc hid
  obtain ⟨l', hl', -⟩ := hpast.sameLoop (hbefore.sound hs.toSound) hb ht c hc hid
  exact absurd (hbeats.symm.trans hl') (by simp)

/-- The moves of a loop that is there from the beginning are a walk. -/
theorem Interleaving.walk_of_loop (h : Interleaving lapse start history sys) (hs : start.Opening)
    (hw : start.WatchesHeartbeats) (hb : b ∈ start.activities) (ht : b.task = .loop l) :
    ∃ t q, Walk PollLoop.step start.site (.more l) (Kind.loop.paces b.id history) t q := by
  have htask : b.task = Kind.loop.task l := ht
  exact h.walk_of_mem hs.toSound hb htask (hs.waits b hb) (h.unstopped_loop .nil hs hw hb ht)

theorem Interleaving.seamless_of_loop (h : Interleaving whenIdle start history sys)
    (hs : start.Opening) (hw : start.WatchesHeartbeats) (hb : b ∈ start.activities)
    (ht : b.task = .loop l) : Seamless PollLoop.step (Kind.loop.paces b.id history) := by
  have htask : b.task = Kind.loop.task l := ht
  exact h.seamless hs.toSound (hs.bounded b hb)
    (Kind.holds_of_mem hs.toSound hb htask (hs.waits b hb)) (h.unstopped_loop .nil hs hw hb ht)

theorem Ensemble.watchesHeartbeats_lone (timing : Timing) (actions : List (Nat × Action))
    (handler : Handler) : (lone timing actions handler).WatchesHeartbeats := by
  intro b hb w hw
  have hactivities : (lone timing actions handler).activities = [_, _] := rfl
  rw [hactivities] at hb
  obtain rfl | rfl := List.mem_pair.mp hb <;> exact absurd hw (by simp)

/-- The moves of a loop that is followed are a walk, and no time passes while it waits for
nothing. -/
theorem Ensemble.walk_lone {timing : Timing} {actions : List (Nat × Action)} {handler : Handler}
    (sys : Ensemble) (hsys : sys = lone timing actions handler) (turns : List Turn) :
    (∃ t q, Walk PollLoop.step sys.site (.more (.fresh .exports "a" 0 sys.site.shutdown))
      (Kind.loop.paces 1 (sys.follow whenIdle turns).1) t q) ∧
        Seamless PollLoop.step (Kind.loop.paces 1 (sys.follow whenIdle turns).1) := by
  subst hsys
  have hstart := opening_lone timing actions handler
  have hwatch := watchesHeartbeats_lone timing actions handler
  have hfollow := interleaving_follow whenIdle turns (lone timing actions handler)
  have hloop : Activity.started (1, .loop .exports "a" 0 (lone timing actions handler).site.shutdown)
      ∈ (lone timing actions handler).activities := List.mem_cons_of_mem _ List.mem_cons_self
  exact ⟨hfollow.walk_of_loop hstart hwatch hloop rfl,
    hfollow.seamless_of_loop hstart hwatch hloop rfl⟩

/-- The moves of a loop that is started on the way are a walk. -/
theorem Interleaving.walk_of_launched_loop {queue : Queue} {worker : String} {slot : Nat}
    {pool : Token} (h : Interleaving lapse start (before ++ m :: after) sys) (hs : start.Opening)
    (hw : start.WatchesHeartbeats) (hn : (n, .loop queue worker slot pool) ∈ m.launched) :
    ∃ t q, Walk PollLoop.step m.after.site (.more (.fresh queue worker slot pool))
      (Kind.loop.paces n (before ++ m :: after)) t q := by
  obtain ⟨hbefore, hmover, hfree, hafter⟩ := h.split
  have hsound := hbefore.sound hs.toSound
  have hreach := hbefore.move hmover hfree
  rw [h.paces_of_launched hs.toSound (List.mem_map_of_mem hn)]
  let b := (Activity.started (n, .loop queue worker slot pool)).heeding
    (m.mover.task.step m.site).2.stopping
  have hb : b ∈ m.after.activities := hsound.mem_move_of_start (List.mem_reverse.mp hn)
  have hid : b.id = n := Activity.id_heeding _ _
  have ht : b.task = Kind.loop.task (.fresh queue worker slot pool) := Activity.task_heeding _ rfl
  have hstay := hafter.unstopped_loop hreach hs hw hb ht
  have hwalk := hafter.walk_of_mem (hsound.move _ hmover) hb ht (Activity.wait_heeding rfl) hstay
  rwa [hid] at hwalk

/-- The moves of the heartbeats of a handler are a walk until they are told to stop. -/
theorem Interleaving.walk_of_begins {x : Execution} {k : Token}
    (h : Interleaving lapse start (before ++ m :: after) sys) (hs : start.Sound)
    (hbegins : m.Begins x k) (hstay : Unstopped m.site.nextTask after) :
    ∃ t q, Walk Heartbeat.step m.after.site
      (.more (.fresh x.job.snapshot m.site.beatPeriod (m.site.jitter m.site.beatPeriod).1 k))
      (Kind.heartbeat.paces m.site.nextTask (before ++ m :: after)) t q := by
  obtain ⟨hbefore, hmover, -, hafter⟩ := h.split
  have hsound := hbefore.sound hs
  have hn : m.site.nextTask ∈ m.launched.map (·.1) := by
    rw [Move.launched, (hbegins.starting hsound).1]
    exact List.mem_cons_self
  rw [h.paces_of_launched hs hn]
  have htask : Task.ofStart (x.beats m.site) = Kind.heartbeat.task
      (.fresh x.job.snapshot m.site.beatPeriod (m.site.jitter m.site.beatPeriod).1 k) := by
    rw [← hbegins.token]
    rfl
  exact hafter.walk_of_mem (hsound.move _ hmover) (hbegins.started_mem hsound) htask rfl hstay

end Host

end LeasedWork
