import LeasedWork.Proofs.Host.Opening

/-!
# Executions and their heartbeats

An execution that starts its handler makes a token and has heartbeats started under it. Which
heartbeats are whose is told by that token, since no token is made twice; and what else happens to
tokens can be read off the deeds of a move.
-/
namespace LeasedWork

namespace Engine

variable {s : Site} {deeds : List Deed}

/-! ## Tasks that are started and stopped -/

theorem Deed.mem_starting_onAll {start : TaskId × Start} (s : Site) (deeds : List Deed)
    (h : start ∈ (onAll s deeds).starting) :
    start ∈ s.starting ∨ .spawn start.2 ∈ deeds := by
  induction deeds generalizing s with
  | nil => exact .inl h
  | cons d rest ih =>
    rcases ih (d.on s) h with h | h
    · cases d with
      | spawn task =>
        rcases List.mem_cons.mp h with rfl | h
        · exact .inr List.mem_cons_self
        · exact .inl h
      | _ => exact .inl h
    · exact .inr (List.mem_cons_of_mem _ h)

theorem Deed.mem_stopping_onAll {id : TaskId} (s : Site) (deeds : List Deed)
    (h : id ∈ (onAll s deeds).stopping) : id ∈ s.stopping ∨ .stop id ∈ deeds := by
  induction deeds generalizing s with
  | nil => exact .inl h
  | cons d rest ih =>
    rcases ih (d.on s) h with h | h
    · cases d with
      | stop other =>
        rcases List.mem_cons.mp h with rfl | h
        · exact .inr List.mem_cons_self
        · exact .inl h
      | _ => exact .inl h
    · exact .inr (List.mem_cons_of_mem _ h)

/-- A heartbeat task stays with its record, its period and its token. -/
theorem Heartbeat.kept_of_state? {h h' : Heartbeat} (hs : (h.step s).1.state? = some h') :
    h'.record = h.record ∧ h'.period = h.period ∧ h'.execution = h.execution := by
  cases hphase : h.phase with
  | fresh first =>
    simp only [step, hphase] at hs
    obtain rfl := Option.some.inj hs
    exact ⟨rfl, rfl, rfl⟩
  | waiting deadline =>
    simp only [step, hphase] at hs
    obtain rfl := Option.some.inj hs
    exact ⟨rfl, rfl, rfl⟩
  | calling deadline stage =>
    simp only [step, hphase] at hs
    cases hp : (s.callHeartbeat stage h.record).1 with
    | crash => simp [hp, Progress.state?] at hs
    | _ =>
      simp only [hp] at hs
      obtain rfl := Option.some.inj hs
      exact ⟨rfl, rfl, rfl⟩
  | stopped => simp [step, hphase, Progress.state?] at hs

end Engine

namespace Host

open Engine
open Time (Duration)

/-- Every task keeps to no condition at all. -/
theorem Task.within_trivial (t : Task) : t.Within fun _ => True := by
  have hexecution : ∀ x : Execution, x.Within fun _ => True := by
    intro x
    unfold Execution.Within
    split
    · intro step _
      cases step <;> exact trivial
    · exact trivial
    · exact trivial
  refine within_of_execution? (fun x _ => hexecution x) ?_ ?_
  · exact fun _ _ _ _ => trivial
  · exact fun _ _ _ _ _ _ => trivial

/-! ## Who starts tasks -/

section

variable {s : Site} {t : Task} {queue : Queue} {worker : String} {k : Token}

theorem Task.of_spawn_heartbeat {record : Job} {period first : Duration}
    (h : .spawn (.heartbeat record period first k) ∈ t.deeds s) :
    ∃ x, t.acting? s = some x ∧ x.phase = .fresh ∧
      (s.registry.handler? x.job).isSome = true ∧
      .heartbeat record period first k = x.beats s := by
  generalize hword : Start.heartbeat record period first k = word at h
  cases Task.origin_of_mem_deeds t.within_trivial h with
  | spawnLoop => nomatch hword
  | spawnPool => nomatch hword
  | @spawnHosting c =>
    unfold Conductor.task at hword
    split at hword <;> nomatch hword
  | beats hx hphase hh => exact ⟨_, hx, hphase, hh, rfl⟩

theorem Task.of_spawn_pool {workers : Nat} (h : .spawn (.pool queue workers worker k) ∈ t.deeds s) :
    (∃ v, t = .service v ∧ v.phase = .waiting ∧ s.isCancelled v.shutdown = false) ∨
      ∃ c, t = .conductor c ∧ c.task = .pool queue workers worker k := by
  generalize hword : Start.pool queue workers worker k = word at h
  cases Task.origin_of_mem_deeds t.within_trivial h with
  | spawnLoop => nomatch hword
  | spawnPool ht hphase hshutdown => exact .inl ⟨_, ht, hphase, hshutdown⟩
  | spawnHosting ht => exact .inr ⟨_, ht, rfl⟩
  | beats => nomatch hword

end

/-- The heartbeats of a handler are told to stop when it returns, and not before. -/
theorem returns_of_stop {s : Site} {x : Execution} {beats : TaskId}
    (h : .stop beats ∈ x.deeds s) :
    ∃ i k o, x.phase = .handling i k beats ∧ (i.step (x.inSpan s)).1 = .done o := by
  let task : Task := .loop ⟨x.job.queue, "", 0, x.shutdown, 0, 0, .executing x⟩
  have hacting : task.acting? s = some x := rfl
  have hwithin : x.Within fun _ => True := task.within_trivial.execution? rfl
  cases Task.origin_of_execution hacting hwithin h with
  | watchDrop htask => exact absurd htask (by simp [task])
  | @endBeats y i k _ hy hphase =>
    obtain rfl := Option.some.inj hy
    cases hi : (i.step (x.inSpan s)).1 with
    | done o => exact ⟨i, k, o, hphase, hi⟩
    | _ =>
      simp only [Execution.deeds, hphase, hi, List.append_nil] at h
      unfold Invocation.deeds at h
      split at h
      · rcases mem_actDeeds h with h | ⟨-, h⟩ | ⟨op, h, -⟩ <;> exact absurd h (by simp)
      · exact absurd h List.not_mem_nil

namespace Move

variable {m : Move} {k : Token}

theorem tokens_after (m : Move) : m.after.site.tokens = (Deed.onAll m.site m.deeds).tokens := by
  obtain ⟨ended, h⟩ := m.sys.site_move m.mover
  rw [after, h]
  exact (m.mover.task.aside_step m.site).tokens

theorem isAbandoned_after (m : Move) (k : Token) : m.after.site.tokens.isAbandoned k = true ↔
    m.site.tokens.isAbandoned k = true ∨ .abandon k ∈ m.deeds := by
  rw [tokens_after, Deed.isAbandoned_onAll]

theorem next_le_after (m : Move) : m.site.tokens.next ≤ m.after.site.tokens.next := by
  rw [tokens_after]
  exact Deed.next_le_onAll _ _

/-- The token of a handler is made in the move that starts the handler. -/
theorem made_newToken {parent : Token} (h : .child parent ∈ m.deeds) :
    ¬ m.site.tokens.Made (m.site.newToken parent) ∧
      m.after.site.tokens.Made (m.site.newToken parent) := by
  constructor
  · intro hmade
    have hlt := (Tokens.made_child_iff m.site.tokens m.site.tokens parent).mp hmade
    exact Nat.lt_irrefl _ hlt
  · apply (Tokens.made_child_iff m.site.tokens _ parent).mpr
    rw [tokens_after]
    exact Deed.next_lt_onAll h

theorem spawn_of_starting (hs : m.sys.Sound) {start : TaskId × Start}
    (h : start ∈ (m.mover.task.step m.site).2.starting) : .spawn start.2 ∈ m.deeds := by
  rw [(m.mover.task.aside_step m.site).starting] at h
  have hnone : start ∉ m.site.starting := by
    rw [site, hs.starting]
    exact List.not_mem_nil
  exact (Deed.mem_starting_onAll _ _ h).resolve_left hnone

theorem stop_of_stopping (hs : m.sys.Sound) {id : TaskId}
    (h : id ∈ (m.mover.task.step m.site).2.stopping) : .stop id ∈ m.deeds := by
  rw [(m.mover.task.aside_step m.site).stopping] at h
  have hnone : id ∉ m.site.stopping := by
    rw [site, hs.stopping]
    exact List.not_mem_nil
  exact (Deed.mem_stopping_onAll _ _ h).resolve_left hnone

end Move

namespace Ensemble

variable {sys : Ensemble} {a b : Activity}

theorem execution?_heeding (a : Activity) (ids : List TaskId) :
    (a.heeding ids).task.execution? = a.task.execution? := by
  unfold Activity.heeding
  split
  · rw [Activity.stopped]
    cases a.task <;> rfl
  · rfl

/-- The execution of a task after a move is that of a task that did not move, or what the move made
of the one that did. -/
theorem Sound.execution_move (hs : sys.Sound) (hb : b ∈ (sys.move a).activities) {x' : Execution}
    (hx' : b.task.execution? = some x') :
    (∃ c ∈ sys.activities, c.id = b.id ∧ c.id ≠ a.id ∧ c.task.execution? = some x') ∨
    b.id = a.id ∧ ((∃ x, a.task.acting? sys.site = some x ∧ x.Goes sys.site x') ∨
      (a.task.execution? = some x' ∧ a.task.deeds sys.site = []) ∨
      ∃ job k, x' = .fresh job k ∧ a.task.Obtains sys.site job) := by
  obtain ⟨c, rfl, hc⟩ := hs.mem_move_cases hb
  rw [execution?_heeding] at hx'
  rw [Activity.id_heeding]
  rcases hc with ⟨hc, hne⟩ | ⟨hid, hgo⟩ | ⟨start, -, rfl⟩
  · exact .inl ⟨c, hc, rfl, hne, hx'⟩
  · exact .inr ⟨hid, Task.execution_cases hgo.state? hx'⟩
  · obtain ⟨id, start⟩ := start
    cases start <;> exact absurd hx' (by simp [Activity.started, Task.ofStart, Task.execution?,
      PollLoop.fresh])

/-- Who watches heartbeats after a move watched the same ones before. -/
theorem Sound.watch_move (hs : sys.Sound) (ha : a ∈ sys.activities)
    (hb : b ∈ (sys.move a).activities) {w : Watch} (hw : b.task = .watch w) :
    ∃ c ∈ sys.activities, ∃ v, c.task = .watch v ∧ w.execution = v.execution ∧
      w.heartbeat = v.heartbeat := by
  obtain ⟨c, rfl, hc⟩ := hs.mem_move_cases hb
  have htask : c.task = .watch w := by
    unfold Activity.heeding at hw
    split at hw
    · rw [Activity.stopped] at hw
      cases hc : c.task <;> simp [hc, Task.stop] at hw
      rw [hw]
    · exact hw
  rcases hc with ⟨hc, -⟩ | ⟨-, hgo⟩ | ⟨⟨id, start⟩, -, rfl⟩
  · exact ⟨c, hc, w, htask, rfl, rfl⟩
  · have hstate := hgo.state?
    rw [htask] at hstate
    cases hta : a.task with
    | watch v =>
      rw [hta] at hstate
      obtain ⟨v', hv', heq⟩ := state?_within hstate
      obtain rfl := Task.watch.inj heq
      exact ⟨a, ha, v, hta, (pending_of_watch hv').2⟩
    | _ =>
      rw [hta] at hstate
      obtain ⟨_, -, heq⟩ := state?_within hstate
      exact absurd heq (by simp)
  · cases start <;> exact absurd htask (by simp [Activity.started, Task.ofStart])

theorem heartbeat_of_heeding {ids : List TaskId} {h : Heartbeat}
    (ht : (a.heeding ids).task = .heartbeat h) :
    ∃ g, a.task = .heartbeat g ∧ h.record = g.record ∧ h.execution = g.execution := by
  unfold Activity.heeding at ht
  split at ht
  · rw [Activity.stopped] at ht
    cases hta : a.task with
    | heartbeat g =>
      simp only [hta, Task.stop, Task.heartbeat.injEq] at ht
      subst ht
      exact ⟨g, rfl, rfl, rfl⟩
    | _ => simp [hta, Task.stop] at ht
  · exact ⟨h, ht, rfl, rfl⟩

/-- A heartbeat task after a move was one before, or is started for a handler. -/
theorem Sound.heartbeat_move (hs : sys.Sound) (ha : a ∈ sys.activities)
    (hb : b ∈ (sys.move a).activities) {h : Heartbeat} (ht : b.task = .heartbeat h) :
    (∃ c ∈ sys.activities, ∃ g, c.task = .heartbeat g ∧ h.record = g.record ∧
      h.execution = g.execution) ∨
    ∃ x, a.task.acting? sys.site = some x ∧ x.phase = .fresh ∧
      (sys.site.registry.handler? x.job).isSome = true ∧ h.record = x.job.snapshot ∧
      h.execution = sys.site.newToken x.shutdown := by
  obtain ⟨c, rfl, hc⟩ := hs.mem_move_cases hb
  obtain ⟨g, hg, hrecord, hexecution⟩ := heartbeat_of_heeding ht
  rw [hrecord, hexecution]
  rcases hc with ⟨hc, -⟩ | ⟨-, hgo⟩ | ⟨start, hstart, rfl⟩
  · exact .inl ⟨c, hc, g, hg, rfl, rfl⟩
  · have hstate := hgo.state?
    rw [hg] at hstate
    cases hta : a.task with
    | heartbeat f =>
      rw [hta] at hstate
      obtain ⟨g', hg', heq⟩ := state?_within hstate
      obtain rfl := Task.heartbeat.inj heq
      obtain ⟨hr, -, he⟩ := Heartbeat.kept_of_state? hg'
      exact .inl ⟨a, ha, f, hta, hr, he⟩
    | _ =>
      rw [hta] at hstate
      obtain ⟨_, -, heq⟩ := state?_within hstate
      exact absurd heq (by simp)
  · have hspawn := Move.spawn_of_starting (m := ⟨sys, a⟩) hs hstart
    right
    obtain ⟨id, start⟩ := start
    cases start with
    | heartbeat record period first k =>
      obtain rfl : g = .fresh record period first k := (Task.heartbeat.inj hg).symm
      obtain ⟨x, hx, hphase, hh, hbeats⟩ := Task.of_spawn_heartbeat hspawn
      simp only [Execution.beats, Start.heartbeat.injEq] at hbeats
      obtain ⟨rfl, -, -, rfl⟩ := hbeats
      exact ⟨x, hx, hphase, hh, rfl, rfl⟩
    | _ => exact absurd hg (by simp [Activity.started, Task.ofStart])

end Ensemble

end Host

end LeasedWork
