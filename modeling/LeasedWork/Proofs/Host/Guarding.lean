import LeasedWork.Proofs.Engine.Breakdown
import LeasedWork.Proofs.Host.Abandonment
import LeasedWork.Proofs.Host.Fleets
import LeasedWork.Proofs.Host.Upkeep

/-!
# Heartbeats and the handlers they guard

A handler that is started has a heartbeat task started with it, and both go by one token and one
number from then on. The invariant says that they come in pairs: a heartbeat task that was not told
to stop guards a handler that is running, and a handler that is running is guarded, unless its
heartbeats have broken down.
-/
namespace LeasedWork

namespace Engine

open Time (Duration)

variable {s : Site} {x x' : Execution} {k : Token} {n : TaskId}

/-- The token of the handler that an execution is running, and the number of its heartbeats. -/
def Execution.running? (x : Execution) : Option (Token × TaskId) :=
  match x.phase with
  | .handling _ k beats => some (k, beats)
  | .fresh | .finalizing _ _ _ _ _ => none

theorem Execution.running?_eq_some : x.running? = some (k, n) ↔ ∃ i, x.phase = .handling i k n := by
  unfold running?
  cases x.phase <;> simp

theorem Execution.Goes.running_cases (hgo : x.Goes s x')
    (h : x'.running? = some (k, n)) :
    (x.running? = some (k, n) ∧ .stop n ∉ x.deeds s) ∨
      x.phase = .fresh ∧ (s.registry.handler? x.job).isSome = true ∧
        s.newToken x.shutdown = k ∧ n = s.nextTask := by
  obtain ⟨i', hphase'⟩ := Execution.running?_eq_some.mp h
  cases hgo with
  | begun hphase hh hi =>
    simp only [ExecutionPhase.handling.injEq] at hphase'
    exact .inr ⟨hphase, by rw [hh]; rfl, hphase'.2.1, hphase'.2.2.symm⟩
  | @handles i i'' k' beats hphase hi =>
    simp only [ExecutionPhase.handling.injEq] at hphase'
    obtain ⟨-, rfl, rfl⟩ := hphase'
    refine .inl ⟨Execution.running?_eq_some.mpr ⟨i, hphase⟩, fun hstop => ?_⟩
    obtain ⟨j, t, o, hhandling, hreturn⟩ := Host.returns_of_stop hstop
    rw [hphase, ExecutionPhase.handling.injEq] at hhandling
    obtain ⟨rfl, -⟩ := hhandling
    rw [hreturn] at hi
    exact absurd hi (by simp [Progress.state?])
  | decided => simp at hphase'
  | calls => simp at hphase'

/-- An execution whose heartbeats are not stopped goes on with its handler. -/
theorem Execution.running_of_unstopped (h : x.running? = some (k, n))
    (hstay : .stop n ∉ x.deeds s) :
    ∃ x', (x.step s).1.state? = some x' ∧ x'.running? = some (k, n) ∧ x'.job = x.job := by
  obtain ⟨i, hphase⟩ := Execution.running?_eq_some.mp h
  rw [Execution.step_of_handling s hphase]
  cases hi : (i.step (x.inSpan s)).1 with
  | more i' => exact ⟨_, rfl, rfl, rfl⟩
  | wait w i' => exact ⟨_, rfl, rfl, rfl⟩
  | crash => exact absurd hi (Invocation.step_ne_crash _ _)
  | done o => exact absurd (by simp [Execution.deeds, hphase, hi]) hstay

/-- An execution that starts its handler goes on with it. -/
theorem Execution.running_of_begun (s : Site) (hphase : x.phase = .fresh)
    (hh : (s.registry.handler? x.job).isSome = true) :
    ∃ x', (x.step s).1.state? = some x' ∧
      x'.running? = some (s.newToken x.shutdown, s.nextTask) ∧ x'.job = x.job := by
  obtain ⟨handler, hhandler⟩ := Option.isSome_iff_exists.mp hh
  obtain ⟨since, t, hbegin⟩ := begin_of_handler hhandler
  rw [step_of_fresh s hphase, hbegin]
  exact ⟨_, rfl, rfl, rfl⟩

/-- Word to stop that is left by deeds is there after them. -/
theorem Deed.mem_stopping_of_mem {id : TaskId} {deeds : List Deed} (h : .stop id ∈ deeds)
    (s : Site) : id ∈ (onAll s deeds).stopping := by
  obtain ⟨before, after, rfl⟩ := List.append_of_mem h
  rw [onAll_append]
  have hkept : ∀ d ∈ after, ∀ t : Site, id ∈ t.stopping → id ∈ (d.on t).stopping := by
    intro d _ t ht
    cases d with
    | stop other => exact List.mem_cons_of_mem _ ht
    | _ => exact ht
  exact onAll_induction hkept List.mem_cons_self

/-- Whether heartbeats are those of an execution under a token and go on. -/
structure Heartbeat.Guards (h : Heartbeat) (period : Duration) (x : Execution) (k : Token) :
    Prop where
  record : h.record = x.job.snapshot
  period : h.period = period
  execution : h.execution = k
  unstopped : h.phase ≠ .stopped

/-- Whether heartbeats are for the same record and execution as others, and as often. -/
structure Heartbeat.Kept (h h' : Heartbeat) : Prop where
  record : h'.record = h.record
  period : h'.period = h.period
  execution : h'.execution = h.execution

theorem Heartbeat.Kept.refl (h : Heartbeat) : h.Kept h := ⟨rfl, rfl, rfl⟩

theorem Heartbeat.Guards.of_kept {h h' : Heartbeat} {period : Duration} (hg : h.Guards period x k)
    (hkept : h.Kept h') (hphase : h'.phase ≠ .stopped) (hjob : x'.job = x.job) :
    h'.Guards period x' k where
  record := by rw [hkept.record, hg.record, hjob]
  period := hkept.period.trans hg.period
  execution := hkept.execution.trans hg.execution
  unstopped := hphase

/-- A machine goes on as its part does. -/
theorem Progress.state?_within {σ ρ σ' ρ' : Type} {embed : σ → σ'} {finish : ρ → Progress σ' ρ'}
    {p : Progress σ ρ} {state : σ} (h : p.state? = some state) :
    (p.within embed finish).state? = some (embed state) := by
  cases p with
  | more => exact congrArg (some <| embed ·) (Option.some.inj h)
  | wait => exact congrArg (some <| embed ·) (Option.some.inj h)
  | _ => simp [state?] at h

/-- Heartbeats that go on were not told to stop. -/
theorem Heartbeat.unstopped_of_state? {h h' : Heartbeat} (hs : (h.step s).1.state? = some h') :
    h.phase ≠ .stopped ∧ h'.phase ≠ .stopped := by
  cases hphase : h.phase with
  | calling deadline stage =>
    refine ⟨by simp, ?_⟩
    simp only [step, hphase] at hs
    cases hp : (s.callHeartbeat stage h.record).1 with
    | crash => simp [hp, Progress.state?] at hs
    | _ =>
      simp only [hp] at hs
      obtain rfl := Option.some.inj hs
      simp
  | stopped => simp [step, hphase, Progress.state?] at hs
  | _ =>
    refine ⟨by simp, ?_⟩
    simp only [step, hphase] at hs
    obtain rfl := Option.some.inj hs
    simp

/-- Heartbeats that were not told to stop end only by breaking down. -/
theorem Heartbeat.state?_or_crash (s : Site) {h : Heartbeat} (hphase : h.phase ≠ .stopped) :
    (∃ h', (h.step s).1.state? = some h') ∨ (h.step s).1 = .crash := by
  unfold step
  cases hp : h.phase with
  | stopped => exact absurd hp hphase
  | calling deadline stage =>
    dsimp only
    cases (s.callHeartbeat stage h.record).1 with
    | crash => exact .inr rfl
    | _ => exact .inl ⟨_, rfl⟩
  | _ => exact .inl ⟨_, rfl⟩

end Engine

namespace Host

open Engine
open Time (Duration)

variable {lapse : Ensemble → Nat → Prop} {start sys next : Ensemble} {history : List Move}
  {a b c : Activity} {x x' y : Execution} {k : Token} {n : TaskId} {m : Move}

/-! ## How handlers are started and how they end -/

/-- The move in which the handler of an execution is started under a token. -/
structure Move.Begins (m : Move) (x : Execution) (k : Token) : Prop where
  acts : m.mover.task.acting? m.site = some x
  fresh : x.phase = .fresh
  handled : (m.site.registry.handler? x.job).isSome = true
  token : m.site.newToken x.shutdown = k

/-- Whether a handler is started in a move. -/
def Move.startsHandler (m : Move) : Bool := (m.mover.task.acting? m.site).any fun x =>
  (x.phase matches .fresh) && (m.site.registry.handler? x.job).isSome

theorem Move.exists_begins (h : m.startsHandler = true) :
    ∃ x, m.Begins x (m.site.newToken x.shutdown) := by
  obtain ⟨x, hx, hbegins⟩ := (Option.any_eq_true _ _).mp h
  rw [Bool.and_eq_true] at hbegins
  have hphase : x.phase = .fresh := by
    have hmatch := hbegins.1
    split at hmatch
    · assumption
    · exact absurd hmatch (by simp)
  exact ⟨x, hx, hphase, hbegins.2, rfl⟩

theorem Move.exists_begins_of_any (h : history.any Move.startsHandler = true) :
    ∃ before m after x k, history = before ++ m :: after ∧ m.startsHandler = true ∧
      m.Begins x k := by
  obtain ⟨m, hm, hstarts⟩ := List.any_eq_true.mp h
  obtain ⟨x, hbegins⟩ := m.exists_begins hstarts
  obtain ⟨before, after, hsplit⟩ := List.append_of_mem hm
  exact ⟨before, m, after, x, _, hsplit, hstarts, hbegins⟩

/-- Whether an activity is running the handler of an execution under a token, with the heartbeats
of a number. -/
structure Activity.Handles (b : Activity) (x : Execution) (k : Token) (n : TaskId) : Prop where
  execution : b.task.execution? = some x
  running : x.running? = some (k, n)

/-- A handler that runs after a move of its task ran before and was not stopped, or is started. -/
theorem Task.running_cases {s : Site} {t t' : Task} (ht : (t.step s).1.state? = some t')
    (hx : t'.execution? = some x') (h : x'.running? = some (k, n)) :
    (∃ x, t.execution? = some x ∧ x.running? = some (k, n) ∧ x'.job = x.job ∧ .stop n ∉ t.deeds s) ∨
      ∃ x, t.acting? s = some x ∧ x.phase = .fresh ∧
        (s.registry.handler? x.job).isSome = true ∧ s.newToken x.shutdown = k ∧ n = s.nextTask ∧
        x'.job = x.job := by
  rcases Task.execution_cases ht hx with ⟨x, hacting, hgo⟩ | ⟨hsame, hnone⟩ | ⟨job, t, rfl, -⟩
  · rcases hgo.running_cases h with ⟨hold, hstay⟩ | ⟨hphase, hh, hk, hn⟩
    · refine .inl ⟨x, execution?_of_acting? hacting, hold, hgo.job_eq.1, ?_⟩
      rwa [deeds_of_acting? hacting]
    · exact .inr ⟨x, hacting, hphase, hh, hk, hn, hgo.job_eq.1⟩
  · exact .inl ⟨x', hsame, h, rfl, by simp [hnone]⟩
  · simp [Execution.running?, Execution.fresh] at h

/-- A task goes on as its execution does. -/
theorem Task.state?_of_acting? {s : Site} {t : Task} (hx : t.acting? s = some x)
    (h : (x.step s).1.state? = some x') :
    ∃ t', (t.step s).1.state? = some t' ∧ t'.execution? = some x' := by
  cases t with
  | loop l =>
    simp only [acting?] at hx
    split at hx
    · rename_i y hphase
      obtain rfl := Option.some.inj hx
      exact ⟨_, Task.state?_loop (PollLoop.state?_of_executing hphase h), rfl⟩
    · exact absurd hx (by simp)
  | runs r =>
    simp only [acting?] at hx
    split at hx
    · rename_i y wait deadline hpending hphase
      split at hx
      · rename_i hover
        obtain rfl := Option.some.inj hx
        simp only [step, Runs.step, hpending, hphase, if_pos hover]
        cases hp : (y.step s).1 with
        | more =>
          rw [hp] at h
          obtain rfl := Option.some.inj h
          exact ⟨_, rfl, rfl⟩
        | wait =>
          rw [hp] at h
          obtain rfl := Option.some.inj h
          exact ⟨_, rfl, rfl⟩
        | _ => simp [hp, Progress.state?] at h
      · exact absurd hx (by simp)
    · exact absurd hx (by simp)
  | _ => exact absurd hx (by simp [acting?])

/-- An execution makes the move of its task, unless that has nothing more to do or drops it. -/
theorem Task.acting?_cases {s : Site} {t : Task} (hx : t.execution? = some x) :
    t.acting? s = some x ∨ (t.step s).1.state? = some t ∨ t.deeds s = x.dropDeeds := by
  cases t with
  | loop l => exact .inl hx
  | runs r =>
    simp only [execution?] at hx
    split at hx
    · rename_i y wait deadline hphase
      obtain rfl := Option.some.inj hx
      cases hpending : r.pending with
      | nil =>
        right
        left
        simp only [step, Runs.step, hpending]
        rfl
      | cons plan rest =>
        by_cases hover : wait.all (·.isOver s) = true
        · exact .inl (by simp only [acting?, hpending, hphase, if_pos hover])
        · exact .inr (.inr (by simp only [deeds, Runs.deeds, hpending, hphase, if_neg hover]))
    · exact absurd hx (by simp)
  | _ => exact absurd hx (by simp [execution?])

theorem Task.running_of_unstopped {s : Site} {t : Task} (hx : t.execution? = some x)
    (h : x.running? = some (k, n)) (hstay : .stop n ∉ t.deeds s) :
    ∃ t' x', (t.step s).1.state? = some t' ∧ t'.execution? = some x' ∧
      x'.running? = some (k, n) ∧ x'.job = x.job := by
  rcases acting?_cases hx with hacting | hsame | hdrop
  · rw [deeds_of_acting? hacting] at hstay
    obtain ⟨x', hx', hrunning, hjob⟩ := Execution.running_of_unstopped h hstay
    obtain ⟨t', ht', hexecution⟩ := state?_of_acting? hacting hx'
    exact ⟨t', x', ht', hexecution, hrunning, hjob⟩
  · exact ⟨t, x, hsame, hx, h, rfl⟩
  · obtain ⟨i, hphase⟩ := Execution.running?_eq_some.mp h
    rw [hdrop, Execution.dropDeeds, hphase] at hstay
    exact absurd List.mem_cons_self hstay

/-- Heartbeats are stopped by the execution whose handler they guard, or by who watches them. -/
theorem Task.origin_of_stop {s : Site} {t : Task} (h : .stop n ∈ t.deeds s) :
    (∃ w, t = .watch w ∧ w.heartbeat = n) ∨
      ∃ x k, t.execution? = some x ∧ x.running? = some (k, n) := by
  cases Task.origin_of_mem_deeds t.within_trivial h with
  | endBeats hx hphase => exact .inr ⟨_, _, hx, Execution.running?_eq_some.mpr ⟨_, hphase⟩⟩
  | watchDrop ht => exact .inl ⟨_, ht, rfl⟩

namespace Move.Begins

variable (h : m.Begins x k)

include h

theorem deeds_eq : m.deeds = x.deeds m.site := Task.deeds_of_acting? h.acts

theorem execution : m.mover.task.execution? = some x := Task.execution?_of_acting? h.acts

/-- A handler has heartbeats started with it, and nothing is stopped for it. -/
theorem starting (hs : m.sys.Sound) :
    (m.mover.task.step m.site).2.starting = [(m.site.nextTask, x.beats m.site)] ∧
      (m.mover.task.step m.site).2.stopping = [] := by
  have hstarting : m.site.starting = [] := hs.starting
  have hstopping : m.site.stopping = [] := hs.stopping
  have hdeeds : m.mover.task.deeds m.site = x.deeds m.site := h.deeds_eq
  rw [(m.mover.task.aside_step m.site).starting, (m.mover.task.aside_step m.site).stopping, hdeeds,
    Execution.deeds_of_begun _ h.fresh h.handled]
  cases x.job.cancelRequested <;>
    simp [Deed.onAll, Deed.on, Site.spawn, Site.publish, Site.childToken, Site.hold, Site.abandon,
      hstarting, hstopping]

theorem exists_handles (hs : m.sys.Sound) (hm : m.mover ∈ m.sys.activities) :
    ∃ c ∈ m.after.activities, c.id = m.mover.id ∧
      ∃ x', c.Handles x' k m.site.nextTask ∧ x'.job = x.job := by
  obtain ⟨x', hx', hrunning, hjob⟩ := Execution.running_of_begun m.site h.fresh h.handled
  obtain ⟨t', ht', hexecution⟩ := Task.state?_of_acting? h.acts hx'
  obtain ⟨c, hid, hgo, hc⟩ := hs.mem_move_of_state? hm ht'
  have htask : c.task = t' := Option.some.inj (hgo.state?.symm.trans ht')
  refine ⟨_, hc, (c.id_heeding _).trans hid, x', ⟨?_, h.token ▸ hrunning⟩, hjob⟩
  rw [Ensemble.execution?_heeding, htask, hexecution]

theorem nextTask_lt (hs : m.sys.Sound) : m.site.nextTask < m.after.site.nextTask := by
  obtain ⟨ended, hsite⟩ := m.sys.site_move m.mover
  have hfresh := (Task.startsFrom_step hs.starting m.mover.task).fresh (m.site.nextTask, x.beats m.site)
  rw [Move.after, hsite]
  exact (hfresh (List.mem_of_mem_head? (congrArg List.head? (h.starting hs).1))).2

theorem started_mem (hs : m.sys.Sound) :
    Activity.started (m.site.nextTask, x.beats m.site) ∈ m.after.activities := by
  obtain ⟨hstarting, hstopping⟩ := h.starting hs
  have hstart : (m.site.nextTask, x.beats m.site) ∈ (m.mover.task.step m.site).2.starting :=
    List.mem_of_mem_head? (congrArg List.head? hstarting)
  have hmem := hs.mem_move_of_start hstart
  have hnone : (m.mover.task.step m.sys.site).2.stopping = [] := hstopping
  rwa [hnone, Activity.heeding_of_not_mem List.not_mem_nil] at hmem

theorem not_made : ¬ m.site.tokens.Made k ∧ m.after.site.tokens.Made k :=
  h.token ▸ made_of_begun h.acts h.fresh h.handled

end Move.Begins

/-! ## Handlers and heartbeats after a move -/

namespace Ensemble

/-- A handler that runs after a move ran before and was not stopped, or is started. -/
theorem Sound.handles_move (hs : sys.Sound) (ha : a ∈ sys.activities)
    (hb : b ∈ (sys.move a).activities) (h : b.Handles x' k n) :
    (∃ c ∈ sys.activities, c.id = b.id ∧ (c = a → .stop n ∉ a.task.deeds sys.site) ∧
      ∃ x, c.Handles x k n ∧ x'.job = x.job) ∨
    b.id = a.id ∧ n = sys.site.nextTask ∧ ∃ x, Move.Begins ⟨sys, a⟩ x k ∧ x'.job = x.job := by
  obtain ⟨c, rfl, hc⟩ := hs.mem_move_cases hb
  obtain ⟨hx', hrunning'⟩ := h
  rw [execution?_heeding] at hx'
  rw [Activity.id_heeding]
  rcases hc with ⟨hc, hne⟩ | ⟨hid, hgo⟩ | ⟨⟨id, start⟩, -, rfl⟩
  · exact .inl ⟨c, hc, rfl, fun heq => absurd (heq ▸ rfl) hne, x', ⟨hx', hrunning'⟩, rfl⟩
  · rcases Task.running_cases hgo.state? hx' hrunning' with
      ⟨x, hx, hrunning, hjob, hstay⟩ | ⟨x, hx, hphase, hh, hk, hn, hjob⟩
    · exact .inl ⟨a, ha, hid.symm, fun _ => hstay, x, ⟨hx, hrunning⟩, hjob⟩
    · exact .inr ⟨hid, hn, x, ⟨hx, hphase, hh, hk⟩, hjob⟩
  · cases start <;> exact absurd hx' (by simp [Activity.started, Task.ofStart, Task.execution?,
      PollLoop.fresh])

/-- A handler whose heartbeats its task does not stop goes on. -/
theorem Sound.exists_handles_move (hs : sys.Sound) (ha : a ∈ sys.activities)
    (hb : b ∈ sys.activities) (h : b.Handles x k n)
    (hstay : b = a → .stop n ∉ a.task.deeds sys.site) :
    ∃ c ∈ (sys.move a).activities, c.id = b.id ∧ ∃ x', c.Handles x' k n ∧ x'.job = x.job := by
  by_cases hid : b.id = a.id
  · obtain rfl := eq_of_id_eq hs.nodup hb ha hid
    obtain ⟨t', x', ht', hx', hrunning, hjob⟩ :=
      Task.running_of_unstopped h.execution h.running (hstay rfl)
    obtain ⟨c, hcid, hgo, hc⟩ := hs.mem_move_of_state? hb ht'
    have htask : c.task = t' := Option.some.inj (hgo.state?.symm.trans ht')
    refine ⟨_, hc, (c.id_heeding _).trans hcid, x', ⟨?_, hrunning⟩, hjob⟩
    rw [execution?_heeding, htask, hx']
  · refine ⟨_, hs.mem_move_of_ne hb hid, b.id_heeding _, x, ⟨?_, h.running⟩, rfl⟩
    rw [execution?_heeding, h.execution]

/-- Heartbeats that go on after a move did so before and were not told to stop, or are started for
a handler. -/
theorem Sound.unstopped_move (hs : sys.Sound) (ha : a ∈ sys.activities)
    (hc : c ∈ (sys.move a).activities) {h : Heartbeat} (ht : c.task = .heartbeat h)
    (hphase : h.phase ≠ .stopped) :
    (∃ d ∈ sys.activities, d.id = c.id ∧ .stop c.id ∉ a.task.deeds sys.site ∧
      ∃ g, d.task = .heartbeat g ∧ g.phase ≠ .stopped ∧ g.Kept h) ∨
    c.id = sys.site.nextTask ∧ ∃ x k, Move.Begins ⟨sys, a⟩ x k ∧ h.record = x.job.snapshot ∧
      h.execution = k := by
  obtain ⟨d, rfl, hd⟩ := hs.mem_move_cases hc
  rw [Activity.id_heeding]
  have hunstopped : d.id ∉ (a.task.step sys.site).2.stopping := by
    intro hmem
    rw [Activity.heeding, if_pos hmem, Activity.stopped] at ht
    cases hdt : d.task <;> simp [hdt, Task.stop] at ht
    rw [← ht] at hphase
    exact hphase rfl
  rw [Activity.heeding_of_not_mem hunstopped] at ht
  have hstay : .stop d.id ∉ a.task.deeds sys.site := by
    intro hstop
    rw [(a.task.aside_step sys.site).stopping] at hunstopped
    exact hunstopped (Deed.mem_stopping_of_mem hstop _)
  rcases hd with ⟨hd, -⟩ | ⟨hid, hgo⟩ | ⟨start, hstart, rfl⟩
  · exact .inl ⟨d, hd, rfl, hstay, h, ht, hphase, .refl h⟩
  · have hstate := hgo.state?
    rw [ht] at hstate
    cases hta : a.task with
    | heartbeat g =>
      rw [hta] at hstate
      obtain ⟨h', hh', heq⟩ := state?_within hstate
      obtain rfl := Task.heartbeat.inj heq
      obtain ⟨hrecord, hperiod, hexecution⟩ := Heartbeat.kept_of_state? hh'
      rw [hid] at hstay ⊢
      exact .inl ⟨a, ha, rfl, hta ▸ hstay, g, hta, (Heartbeat.unstopped_of_state? hh').1,
        ⟨hrecord, hperiod, hexecution⟩⟩
    | _ =>
      rw [hta] at hstate
      obtain ⟨_, -, heq⟩ := state?_within hstate
      exact absurd heq (by simp)
  · right
    have hspawn := Move.spawn_of_starting (m := ⟨sys, a⟩) hs hstart
    obtain ⟨id, start⟩ := start
    cases start with
    | heartbeat record period first k =>
      obtain rfl : h = .fresh record period first k := (Task.heartbeat.inj ht).symm
      obtain ⟨x, hx, hphase, hh, hbeats⟩ := Task.of_spawn_heartbeat hspawn
      have hbegins : Move.Begins ⟨sys, a⟩ x (sys.site.newToken x.shutdown) := ⟨hx, hphase, hh, rfl⟩
      have hstarting : (a.task.step sys.site).2.starting = [(sys.site.nextTask, x.beats sys.site)] :=
        (hbegins.starting hs).1
      rw [hstarting, List.mem_singleton] at hstart
      simp only [Execution.beats, Start.heartbeat.injEq] at hbeats
      obtain ⟨rfl, -, -, rfl⟩ := hbeats
      exact ⟨congrArg Prod.fst hstart, x, _, hbegins, rfl, rfl⟩
    | _ => exact absurd ht (by simp [Activity.started, Task.ofStart])

/-- Heartbeats that are not told to stop go on, or break down. -/
theorem Sound.heartbeat_stays (hs : sys.Sound) (ha : a ∈ sys.activities) (hc : c ∈ sys.activities)
    {h : Heartbeat} (ht : c.task = .heartbeat h) (hphase : h.phase ≠ .stopped)
    (hstay : .stop c.id ∉ a.task.deeds sys.site) :
    (c.id, true) ∈ (sys.move a).site.ended ∨ ∃ d ∈ (sys.move a).activities, d.id = c.id ∧
      ∃ g, d.task = .heartbeat g ∧ g.phase ≠ .stopped ∧ h.Kept g := by
  have hunstopped : c.id ∉ (a.task.step sys.site).2.stopping :=
    fun hmem => hstay (Move.stop_of_stopping (m := ⟨sys, a⟩) hs hmem)
  by_cases hid : c.id = a.id
  · obtain rfl := eq_of_id_eq hs.nodup hc ha hid
    have hstep : (c.task.step sys.site).1 = (h.step sys.site).1.within Task.heartbeat .done := by
      rw [ht]
      rfl
    rcases Heartbeat.state?_or_crash sys.site hphase with ⟨g, hg⟩ | hcrash
    · right
      have hstate : (c.task.step sys.site).1.state? = some (.heartbeat g) := by
        rw [hstep, Progress.state?_within hg]
      obtain ⟨d, hdid, hgo, hd⟩ := hs.mem_move_of_state? hc hstate
      rw [Activity.heeding_of_not_mem (hdid ▸ hunstopped)] at hd
      obtain ⟨hrecord, hperiod, hexecution⟩ := Heartbeat.kept_of_state? hg
      exact ⟨d, hd, hdid, g, Option.some.inj (hgo.state?.symm.trans hstate),
        (Heartbeat.unstopped_of_state? hg).2, ⟨hrecord, hperiod, hexecution⟩⟩
    · left
      rw [ended_move, hstep, hcrash]
      simp [Progress.within, Progress.end?]
  · right
    have hd := hs.mem_move_of_ne hc hid
    rw [Activity.heeding_of_not_mem hunstopped] at hd
    exact ⟨c, hd, rfl, h, ht, hphase, .refl h⟩

end Ensemble

/-! ## Who guards whom -/

def Task.IsHeartbeat (t : Task) : Prop := ∃ h, t = .heartbeat h

/-- Whether heartbeats that are watched have numbers below a bound, and no other tasks have them. -/
def Ensemble.WatchesBelow (bound : TaskId) (sys : Ensemble) : Prop :=
  ∀ b ∈ sys.activities, ∀ w, b.task = .watch w →
    w.heartbeat < bound ∧ ∀ c ∈ sys.activities, c.id = w.heartbeat → c.task.IsHeartbeat

/-- Whether who watches heartbeats watches what was started as such. -/
def Ensemble.WatchesHeartbeats (sys : Ensemble) : Prop := sys.WatchesBelow sys.site.nextTask

/-- Whether the heartbeats of a number guard an execution under a token, or have broken down. -/
def Ensemble.Guards (sys : Ensemble) (period : Duration) (x : Execution) (k : Token) (n : TaskId) :
    Prop :=
  (n, true) ∈ sys.site.ended ∨
    ∃ c ∈ sys.activities, c.id = n ∧ ∃ h, c.task = .heartbeat h ∧ h.Guards period x k

/-- How handlers and heartbeats belong together, since a start. -/
structure Guarding (start sys : Ensemble) : Prop where
  le : start.site.nextTask ≤ sys.site.nextTask
  watches : sys.WatchesBelow start.site.nextTask
  /-- The heartbeats of a handler have a number that was given out since, and no other tasks. -/
  numbered : ∀ b ∈ sys.activities, ∀ x k n, b.Handles x k n →
    start.site.nextTask ≤ n ∧ n < sys.site.nextTask ∧
      ∀ c ∈ sys.activities, c.id = n → c.task.IsHeartbeat
  apart : ∀ b ∈ sys.activities, ∀ c ∈ sys.activities, ∀ x y k l n,
    b.Handles x k n → c.Handles y l n → b = c
  /-- Heartbeats that go on guard a handler that is running. -/
  guarding : ∀ c ∈ sys.activities, ∀ h, c.task = .heartbeat h → h.phase ≠ .stopped →
    ¬ start.site.tokens.Made h.execution →
    ∃ b ∈ sys.activities, ∃ x, b.Handles x h.execution c.id ∧ h.record = x.job.snapshot
  /-- A handler that is running is guarded. -/
  guarded : ∀ b ∈ sys.activities, ∀ x k n, b.Handles x k n →
    sys.Guards start.site.beatPeriod x k n

theorem Ensemble.Guards.of_job_eq {period : Duration} (h : sys.Guards period x k n)
    (hjob : x'.job = x.job) : sys.Guards period x' k n := by
  rcases h with hbroken | ⟨c, hc, hid, g, hg, hguards⟩
  · exact .inl hbroken
  · exact .inr ⟨c, hc, hid, g, hg, hguards.of_kept (.refl g) hguards.unstopped hjob⟩

theorem Ensemble.Sound.isHeartbeat_move (hs : sys.Sound) (ha : a ∈ sys.activities)
    (hc : c ∈ (sys.move a).activities) (hlt : c.id < sys.site.nextTask) :
    ∃ d ∈ sys.activities, d.id = c.id ∧ (d.task.IsHeartbeat → c.task.IsHeartbeat) := by
  obtain ⟨d, rfl, hd⟩ := hs.mem_move_cases hc
  have hheeding : d.task.IsHeartbeat → (d.heeding (a.task.step sys.site).2.stopping).task.IsHeartbeat := by
    rintro ⟨h, ht⟩
    unfold Activity.heeding
    split
    · exact ⟨h.stop, by rw [Activity.stopped, ht]; rfl⟩
    · exact ⟨h, ht⟩
  rw [Activity.id_heeding] at hlt ⊢
  rcases hd with ⟨hd, -⟩ | ⟨hid, hgo⟩ | ⟨start, hstart, rfl⟩
  · exact ⟨d, hd, rfl, hheeding⟩
  · refine ⟨a, ha, hid.symm, fun hbeat => hheeding ?_⟩
    obtain ⟨h, ht⟩ := hbeat
    have hstate := hgo.state?
    rw [ht] at hstate
    obtain ⟨h', -, heq⟩ := state?_within hstate
    exact ⟨h', heq.symm⟩
  · have hle := ((Task.startsFrom_step hs.starting a.task).fresh start hstart).1
    exact absurd hlt (Nat.not_lt.mpr hle)

theorem Ensemble.WatchesBelow.move {bound : TaskId} (hw : sys.WatchesBelow bound) (hs : sys.Sound)
    (hle : bound ≤ sys.site.nextTask) (ha : a ∈ sys.activities) :
    (sys.move a).WatchesBelow bound := by
  intro b hb w ht
  obtain ⟨b', hb', v, hv, -, hheartbeat⟩ := hs.watch_move ha hb ht
  obtain ⟨hlt, hbeats⟩ := hw b' hb' v hv
  rw [hheartbeat]
  refine ⟨hlt, fun c hc hid => ?_⟩
  obtain ⟨d, hd, hdid, hkind⟩ := hs.isHeartbeat_move ha hc
    (hid ▸ Nat.lt_of_lt_of_le hlt hle)
  exact hkind (hbeats d hd (hdid.trans hid))

theorem Ensemble.Opening.guarding (hs : start.Opening) (hw : start.WatchesHeartbeats) :
    Guarding start start := by
  have hnone : ∀ b ∈ start.activities, ∀ x k n, ¬ b.Handles x k n := by
    intro b hb x k n h
    have hx := h.execution
    rw [(hs.fresh b hb).execution?] at hx
    exact absurd hx (by simp)
  refine ⟨Nat.le_refl _, hw, fun b hb x k n h => absurd h (hnone b hb x k n),
    fun b hb c _ x y k l n h => absurd h (hnone b hb x k n), fun c hc h ht _ hnew => ?_,
    fun b hb x k n h => absurd h (hnone b hb x k n)⟩
  have hfresh := hs.fresh c hc
  rw [ht] at hfresh
  exact absurd hfresh.2 hnew

/-- The heartbeats of a handler that is started guard it. -/
theorem Ensemble.Sound.guards_of_begins (hs : sys.Sound)
    (hperiod : sys.site.beatPeriod = start.site.beatPeriod) (h : Move.Begins ⟨sys, a⟩ x k) :
    (sys.move a).Guards start.site.beatPeriod x k sys.site.nextTask := by
  refine .inr ⟨_, h.started_mem hs, rfl, _, rfl, rfl, hperiod, h.token, ?_⟩
  exact fun hstopped => nomatch hstopped

namespace Guarding

variable (hg : Guarding start sys) (hs : sys.Sound) (ha : a ∈ sys.activities)

include hg hs ha

omit hs in
/-- Nothing but heartbeats is told to stop. -/
theorem isHeartbeat_of_stop (hstop : .stop n ∈ a.task.deeds sys.site) (hc : c ∈ sys.activities)
    (hid : c.id = n) : c.task.IsHeartbeat := by
  rcases Task.origin_of_stop hstop with ⟨w, hw, rfl⟩ | ⟨y, l, hy, hrunning⟩
  · exact (hg.watches a ha w hw).2 c hc hid
  · exact (hg.numbered a ha y l n ⟨hy, hrunning⟩).2.2 c hc hid

omit hs in
/-- Who is told to stop was there. -/
theorem lt_of_stop (hstop : .stop n ∈ a.task.deeds sys.site) : n < sys.site.nextTask := by
  rcases Task.origin_of_stop hstop with ⟨w, hw, rfl⟩ | ⟨y, l, hy, hrunning⟩
  · exact Nat.lt_of_lt_of_le (hg.watches a ha w hw).1 hg.le
  · exact (hg.numbered a ha y l n ⟨hy, hrunning⟩).2.1

/-- Where the tasks after a move come from, heartbeats apart: nobody tells them to stop. -/
theorem mem_move_cases (hb : b ∈ (sys.move a).activities) (hkind : ¬ b.task.IsHeartbeat) :
    b ∈ sys.activities ∧ b.id ≠ a.id ∨
      b.id = a.id ∧ b.Continues (a.task.step sys.site).2 (a.task.step sys.site).1 ∨
      ∃ start ∈ (a.task.step sys.site).2.starting, b = .started start := by
  obtain ⟨c, rfl, hc⟩ := hs.mem_move_cases hb
  have hstop : c.id ∈ (a.task.step sys.site).2.stopping → .stop c.id ∈ a.task.deeds sys.site :=
    Move.stop_of_stopping (m := ⟨sys, a⟩) hs
  have hheeding : c.id ∉ (a.task.step sys.site).2.stopping →
      c.heeding (a.task.step sys.site).2.stopping = c := Activity.heeding_of_not_mem
  have hold : c.id < sys.site.nextTask → c.id ∉ (a.task.step sys.site).2.stopping := by
    intro hlt hmem
    obtain ⟨d, hd, hid, hkept⟩ := hs.isHeartbeat_move ha hb ((c.id_heeding _).symm ▸ hlt)
    rw [Activity.id_heeding] at hid
    exact hkind (hkept (hg.isHeartbeat_of_stop ha (hstop hmem) hd hid))
  rcases hc with ⟨hc, hne⟩ | ⟨hid, hgo⟩ | ⟨start, hstart, rfl⟩
  · rw [hheeding (hold (hs.bounded c hc))]
    exact .inl ⟨hc, hne⟩
  · rw [hheeding (hold (hid ▸ hs.bounded a ha))]
    exact .inr (.inl ⟨hid, hgo⟩)
  · have hle := ((Task.startsFrom_step hs.starting a.task).fresh start hstart).1
    rw [hheeding fun hmem => Nat.not_lt.mpr hle (hg.lt_of_stop ha (hstop hmem))]
    exact .inr (.inr ⟨start, hstart, rfl⟩)

omit hs in
/-- Nobody else stops the heartbeats of a handler. -/
theorem eq_of_stop (hb : b ∈ sys.activities) (h : b.Handles x k n)
    (hstop : .stop n ∈ a.task.deeds sys.site) : b = a := by
  rcases Task.origin_of_stop hstop with ⟨w, hw, rfl⟩ | ⟨y, l, hy, hrunning⟩
  · have hlt := (hg.watches a ha w hw).1
    exact absurd hlt (Nat.not_lt.mpr (hg.numbered b hb x k _ h).1)
  · exact hg.apart b hb a ha x y k l n h ⟨hy, hrunning⟩

theorem numbered_move (hb : b ∈ (sys.move a).activities) (h : b.Handles x' k n) :
    start.site.nextTask ≤ n ∧ n < (sys.move a).site.nextTask ∧
      ∀ c ∈ (sys.move a).activities, c.id = n → c.task.IsHeartbeat := by
  have hle := Ensemble.nextTask_le_move hs a
  rcases hs.handles_move ha hb h with ⟨c, hc, -, -, x, hx, -⟩ | ⟨-, rfl, x, hx, -⟩
  · obtain ⟨hold, hlt, hkind⟩ := hg.numbered c hc x k n hx
    refine ⟨hold, Nat.lt_of_lt_of_le hlt hle, fun d hd hid => ?_⟩
    obtain ⟨e, he, heid, hkept⟩ := hs.isHeartbeat_move ha hd (hid ▸ hlt)
    exact hkept (hkind e he (heid.trans hid))
  · have hstarted := hx.started_mem hs
    refine ⟨hg.le, hx.nextTask_lt hs, fun d hd hid => ?_⟩
    obtain rfl := Ensemble.eq_of_id_eq (hs.activities_move a).1 hd hstarted hid
    exact ⟨_, rfl⟩

theorem apart_move (hb : b ∈ (sys.move a).activities) (hc : c ∈ (sys.move a).activities)
    {l : Token} (h : b.Handles x k n) (h' : c.Handles y l n) : b = c := by
  refine Ensemble.eq_of_id_eq (hs.activities_move a).1 hb hc ?_
  rcases hs.handles_move ha hb h with ⟨d, hd, hdid, -, x₀, hx₀, -⟩ | ⟨hbid, hn, -⟩
  · rcases hs.handles_move ha hc h' with ⟨e, he, heid, -, y₀, hy₀, -⟩ | ⟨-, hn, -⟩
    · rw [← hdid, ← heid, hg.apart d hd e he x₀ y₀ k l n hx₀ hy₀]
    · exact absurd hn (Nat.ne_of_lt (hg.numbered d hd x₀ k n hx₀).2.1)
  · rcases hs.handles_move ha hc h' with ⟨e, he, -, -, y₀, hy₀, -⟩ | ⟨hcid, -⟩
    · exact absurd hn (Nat.ne_of_lt (hg.numbered e he y₀ l n hy₀).2.1)
    · exact hbid.trans hcid.symm

theorem guarding_move (hc : c ∈ (sys.move a).activities) {h : Heartbeat}
    (ht : c.task = .heartbeat h) (hphase : h.phase ≠ .stopped)
    (hnew : ¬ start.site.tokens.Made h.execution) :
    ∃ b ∈ (sys.move a).activities, ∃ x, b.Handles x h.execution c.id ∧
      h.record = x.job.snapshot := by
  rcases hs.unstopped_move ha hc ht hphase with
    ⟨d, hd, hid, hstay, g, htd, hgphase, hkept⟩ | ⟨hid, x, k, hbegins, hrecord, rfl⟩
  · rw [hkept.execution] at hnew ⊢
    obtain ⟨b, hb, x, hx, hrecord⟩ := hg.guarding d hd g htd hgphase hnew
    rw [hid] at hx
    obtain ⟨b', hb', -, x', hx', hjob⟩ := hs.exists_handles_move ha hb hx fun _ => hstay
    exact ⟨b', hb', x', hx', by rw [hkept.record, hrecord, hjob]⟩
  · obtain ⟨b, hb, -, x', hx', hjob⟩ := hbegins.exists_handles hs ha
    exact ⟨b, hb, x', hid ▸ hx', by rw [hrecord, hjob]⟩

/-- The heartbeats of a handler go on guarding it as long as it runs. -/
theorem guards_move (hb : b ∈ sys.activities) (h : b.Handles x k n)
    (hstay : b = a → .stop n ∉ a.task.deeds sys.site) :
    (sys.move a).Guards start.site.beatPeriod x k n := by
  rcases hg.guarded b hb x k n h with hbroken | ⟨d, hd, rfl, g, htd, hguards⟩
  · left
    rw [Ensemble.ended_move]
    exact List.mem_append_left _ hbroken
  · have hunstopped : .stop d.id ∉ a.task.deeds sys.site :=
      fun hstop => hstay (hg.eq_of_stop ha hb h hstop) hstop
    rcases hs.heartbeat_stays ha hd htd hguards.unstopped hunstopped with
      hbroken | ⟨e, he, hid, f, hte, hfphase, hkept⟩
    · exact .inl hbroken
    · exact .inr ⟨e, he, hid, f, hte, hguards.of_kept hkept hfphase rfl⟩

theorem move (hperiod : sys.site.beatPeriod = start.site.beatPeriod) :
    Guarding start (sys.move a) := by
  refine ⟨Nat.le_trans hg.le (Ensemble.nextTask_le_move hs a), hg.watches.move hs hg.le ha,
    fun b hb x k n h => hg.numbered_move hs ha hb h,
    fun b hb c hc x y k l n h h' => hg.apart_move hs ha hb hc h h',
    fun c hc h ht hphase hnew => hg.guarding_move hs ha hc ht hphase hnew, ?_⟩
  intro b hb x' k n h
  rcases hs.handles_move ha hb h with ⟨c, hc, -, hstay, x, hx, hjob⟩ | ⟨-, rfl, x, hx, hjob⟩
  · exact (hg.guards_move hs ha hc hx hstay).of_job_eq hjob
  · exact (hs.guards_of_begins hperiod hx).of_job_eq hjob

end Guarding

/-- A pause leaves who handles what. -/
theorem Pause.exists_handles (hp : Pause lapse sys next) (hb : b ∈ next.activities)
    (h : b.Handles x k n) : ∃ c ∈ sys.activities, c.id = b.id ∧ c.Handles x k n := by
  obtain ⟨c, hc, hid, htask⟩ := hp.exists_task hb
  exact ⟨c, hc, hid, htask ▸ h.execution, h.running⟩

theorem Guarding.pause (hg : Guarding start sys) (hs : sys.Sound) (hp : Pause lapse sys next) :
    Guarding start next := by
  obtain ⟨clock, -, hsite⟩ := hp.site_eq
  have hforward : ∀ c ∈ sys.activities, ∃ d ∈ next.activities, d.id = c.id ∧ d.task = c.task := by
    intro c hc
    obtain ⟨d, hd, hid, htask, -⟩ := hp.exists_activity hc
    exact ⟨d, hd, hid, htask⟩
  constructor
  case le => exact hsite ▸ hg.le
  case watches =>
    intro b hb w ht
    obtain ⟨b', hb', -, htask⟩ := hp.exists_task hb
    obtain ⟨hlt, hbeats⟩ := hg.watches b' hb' w (htask.trans ht)
    refine ⟨hlt, fun c hc hid => ?_⟩
    obtain ⟨c', hc', hid', htask'⟩ := hp.exists_task hc
    exact htask' ▸ hbeats c' hc' (hid'.trans hid)
  case numbered =>
    intro b hb x k n h
    obtain ⟨c, hc, -, hx⟩ := hp.exists_handles hb h
    obtain ⟨hold, hlt, hkind⟩ := hg.numbered c hc x k n hx
    refine ⟨hold, hsite ▸ hlt, fun d hd hid => ?_⟩
    obtain ⟨d', hd', hid', htask⟩ := hp.exists_task hd
    exact htask ▸ hkind d' hd' (hid'.trans hid)
  case apart =>
    intro b hb c hc x y k l n h h'
    obtain ⟨d, hd, hid, hx⟩ := hp.exists_handles hb h
    obtain ⟨e, he, hid', hy⟩ := hp.exists_handles hc h'
    refine Ensemble.eq_of_id_eq (hp.sound hs).nodup hb hc ?_
    rw [← hid, ← hid', hg.apart d hd e he x y k l n hx hy]
  case guarding =>
    intro c hc h ht hphase hnew
    obtain ⟨c', hc', hid, htask⟩ := hp.exists_task hc
    obtain ⟨b, hb, x, hx, hrecord⟩ := hg.guarding c' hc' h (htask.trans ht) hphase hnew
    obtain ⟨b', hb', -, htask'⟩ := hforward b hb
    exact ⟨b', hb', x, ⟨htask' ▸ hx.execution, hid ▸ hx.running⟩, hrecord⟩
  case guarded =>
    intro b hb x k n h
    obtain ⟨c, hc, -, hx⟩ := hp.exists_handles hb h
    rcases hg.guarded c hc x k n hx with hbroken | ⟨d, hd, hid, g, hgt, hguards⟩
    · exact .inl (hp.ended_eq ▸ hbroken)
    · obtain ⟨d', hd', hid', htask⟩ := hforward d hd
      exact .inr ⟨d', hd', hid'.trans hid, g, htask.trans hgt, hguards⟩

theorem Interleaving.guarding {mid : Ensemble} (h : Interleaving lapse mid history sys)
    (hs : mid.Sound) (hperiod : mid.site.beatPeriod = start.site.beatPeriod)
    (hg : Guarding start mid) : Guarding start sys := by
  induction h with
  | nil => exact hg
  | move h ha _ ih => exact ih.move (h.sound hs) ha (h.setAlike.beatPeriod_eq.trans hperiod)
  | pause h hp ih => exact ih.pause (h.sound hs) hp

end Host

end LeasedWork
