import LeasedWork.Proofs.Engine.Polling
import LeasedWork.Proofs.Host.Closing
import LeasedWork.Proofs.Host.Guarding

/-!
# The gates of polling

Before a loop calls for a job, the storage was reported ready, which is never taken back; in the same
iteration the loop has seen the store initialized, which may be taken back; and the token of its pool
was not cancelled when the iteration began, which may have changed since. The service waits for the
first of these before it starts a pool, and nothing cuts that wait short, because only heartbeats are
ever told to stop.
-/
namespace LeasedWork

namespace Engine

variable {s : Site}

theorem Site.ready_onAll (s : Site) (deeds : List Deed) : (Deed.onAll s deeds).ready = s.ready :=
  Deed.onAll_induction (P := fun t => t.ready = s.ready)
    (fun d _ _ h => by cases d <;> exact h) rfl

/-- A service comes to wait by its first move only, and waits for shutdown or the storage. -/
theorem Service.step_of_waiting? {v v' : Service} (h : (v.step s).1.state? = some v')
    (hphase : v'.phase = .waiting) :
    (v.step s).1 = .wait (.either (.cancel v'.shutdown) .ready) v' := by
  unfold step at h ⊢
  cases hv : v.phase with
  | fresh =>
    simp only [hv] at h ⊢
    split at h
    · simp [Progress.state?] at h
    · rename_i hhosted
      obtain rfl := Option.some.inj h
      rw [if_neg hhosted]
  | waiting =>
    simp only [hv] at h
    split at h
    · simp [Progress.state?] at h
    · obtain rfl := Option.some.inj h
      simp at hphase
  | watching pools =>
    simp only [hv] at h
    cases hp : (pools.step s).1 with
    | more =>
      rw [hp] at h
      obtain rfl := Option.some.inj h
      simp at hphase
    | wait =>
      rw [hp] at h
      obtain rfl := Option.some.inj h
      simp at hphase
    | _ => simp [hp, Progress.state?] at h

namespace PollLoop

variable {l l' : PollLoop}

/-- A loop leaves its gate only when the storage is ready. -/
theorem Goes.ready_of_leaves (h : l.Goes s l') (hgate : l.AtGate) (h' : ¬ l'.AtGate) :
    s.ready = true := by
  have hne : ∀ phase, l.phase = phase → phase ≠ .gate → phase ≠ .gateSleep → False := by
    rintro phase rfl hgate' hsleep
    exact hgate.elim hgate' hsleep
  have hcalling : ∀ {expired stage}, l.phase = calling expired stage → False := by
    intro expired stage hphase
    cases expired <;> exact hne _ hphase (by simp [calling]) (by simp [calling])
  cases h with
  | waits _ hgate' => exact absurd hgate' h'
  | enters _ hready => exact hready
  | wakes h => rcases h with h | h <;> exact (hne _ h (by simp) (by simp)).elim
  | begins h | skips h | turns h | rests h | executes h | concludes h =>
    exact (hne _ h (by simp) (by simp)).elim
  | calls h => exact (hcalling h).elim
  | granted h => exact (hcalling h).elim

end PollLoop

/-- The store hands nothing out on a call whose token is cancelled. -/
theorem Site.askDequeue_cancelled (s : Site) (request : LeaseRequest) :
    (s.askDequeue request true).1 = some (.ok none) ∧
      (s.askDequeue request true).2.store.entries = s.store.entries := by
  have hstore : s.store.dequeue request true s.now = (.ok none, s.store.countDequeue) := rfl
  have hasked : s.askDequeue request true =
      (some (.ok none), { s with store := s.store.countDequeue }) := by
    simp [askDequeue, answered, hstore]
  rw [hasked]
  exact ⟨rfl, rfl⟩

end Engine

namespace Host

open Engine

variable {lapse : Ensemble → Nat → Prop} {start sys next : Ensemble} {history : List Move}
  {a b : Activity} {l l' : PollLoop} {m : Move} {k : Token}

/-! ## The storage stays ready -/

theorem Move.ready_after (h : m.site.ready = true) : m.after.site.ready = true := by
  obtain ⟨ended, hsite⟩ := m.sys.site_move m.mover
  rw [after, hsite]
  exact (m.mover.task.aside_step m.site).ready ((m.site.ready_onAll _).trans h)

theorem Pause.ready_eq (hp : Pause lapse sys next) : next.site.ready = sys.site.ready := by
  obtain ⟨clock, -, hsite⟩ := hp.site_eq
  rw [hsite]

theorem Pause.isCancelled_eq (hp : Pause lapse sys next) (k : Token) :
    next.site.isCancelled k = sys.site.isCancelled k := by
  obtain ⟨clock, -, hsite⟩ := hp.site_eq
  rw [hsite]
  rfl

/-- What a task waits for after a pause is what it waited for before, unless that has come. -/
theorem Pause.wait_cases (hp : Pause lapse sys next) (hb : b ∈ next.activities) :
    ∃ c ∈ sys.activities, c.id = b.id ∧ c.task = b.task ∧
      (b.wait = c.wait ∨ b.wait = none ∧ ∃ w, c.wait = some w ∧ w.isOver sys.site = true) := by
  cases hp with
  | lapse => exact ⟨b, hb, rfl, rfl, .inl rfl⟩
  | turns => exact ⟨b, hb, rfl, rfl, .inl rfl⟩
  | wake =>
    rw [Ensemble.activities_wake] at hb
    obtain ⟨c, hc, rfl⟩ := List.mem_map.mp hb
    obtain ⟨hid, htask, hwait⟩ := awoken_cases sys.site c
    exact ⟨c, hc, hid.symm, htask.symm, hwait⟩

theorem Interleaving.isCancelled (h : Interleaving lapse start history sys)
    (hk : start.site.isCancelled k = true) : sys.site.isCancelled k = true := by
  induction h with
  | nil => exact hk
  | move _ _ _ ih => exact Ensemble.isCancelled_move _ ih
  | pause _ hp ih => exact (hp.isCancelled_eq k).trans ih

/-! ## Loops -/

namespace Ensemble

/-- A loop after a move is one that did not move, or what the move made of it, or was just
started. -/
theorem Sound.loop_move (hs : sys.Sound) (hb : b ∈ (sys.move a).activities)
    (ht : b.task = .loop l') :
    (∃ c ∈ sys.activities, c.id = b.id ∧ c.id ≠ a.id ∧ c.task = .loop l') ∨
    (b.id = a.id ∧ ∃ l, a.task = .loop l ∧ (l.step sys.site).1.state? = some l') ∨
    l'.phase = .gate := by
  obtain ⟨c, rfl, hc⟩ := hs.mem_move_cases hb
  have htask : c.task = .loop l' := by
    unfold Activity.heeding at ht
    split at ht
    · rw [Activity.stopped] at ht
      cases hct : c.task <;> simp [hct, Task.stop] at ht
      rw [ht]
    · exact ht
  rw [Activity.id_heeding]
  rcases hc with ⟨hc, hne⟩ | ⟨hid, hgo⟩ | ⟨⟨id, start⟩, -, rfl⟩
  · exact .inl ⟨c, hc, rfl, hne, htask⟩
  · have hstate := hgo.state?
    rw [htask] at hstate
    cases hta : a.task with
    | loop l =>
      rw [hta] at hstate
      obtain ⟨l₁, hl₁, heq⟩ := state?_within hstate
      obtain rfl := Task.loop.inj heq
      exact .inr (.inl ⟨hid, l, rfl, hl₁⟩)
    | _ =>
      rw [hta] at hstate
      obtain ⟨_, -, heq⟩ := state?_within hstate
      exact absurd heq (by simp)
  · cases start <;> simp only [Activity.started, Task.ofStart, Task.loop.injEq, reduceCtorEq] at htask
    exact .inr (.inr (by rw [← htask]; rfl))

end Ensemble

/-- Whoever has the number of a loop is that loop, as far as it has come. -/
theorem Interleaving.sameLoop (h : Interleaving lapse start history sys) (hs : start.Sound)
    {c : Activity} (hc : c ∈ start.activities) (ht : c.task = .loop l) :
    ∀ b ∈ sys.activities, b.id = c.id → ∃ l', b.task = .loop l' ∧ l.SameLoop l' := by
  refine h.task_induction (Q := fun t => ∃ l', t = .loop l' ∧ l.SameLoop l') hs (hs.bounded c hc)
    ?_ ?_ ?_
  · rintro t ⟨l', rfl, hsame⟩
    exact ⟨l', rfl, hsame⟩
  · rintro s t t' ⟨l₁, rfl, hsame⟩ hstep
    obtain ⟨l₂, hl₂, rfl⟩ := state?_within hstep
    exact ⟨l₂, rfl, hsame.trans (PollLoop.proceeds_step s l₁ l₂ hl₂).1⟩
  · intro b hb hid
    obtain rfl := Ensemble.eq_of_id_eq hs.nodup hb hc hid
    exact ⟨l, ht, .refl l⟩

/-- Whether a loop is at its gate as long as the storage is not ready. -/
def Ensemble.LoopsWait (sys : Ensemble) : Prop :=
  ∀ b ∈ sys.activities, ∀ l, b.task = .loop l → l.AtGate ∨ sys.site.ready = true

theorem Interleaving.loopsWait (h : Interleaving lapse start history sys) (hs : start.Opening) :
    sys.LoopsWait := by
  induction h with
  | nil =>
    intro b hb l ht
    have hfresh := hs.fresh b hb
    rw [ht] at hfresh
    exact .inl (.inl hfresh)
  | @move history sys a h ha _ ih =>
    intro b hb l' ht
    by_cases hgate : l'.AtGate
    · exact .inl hgate
    right
    apply Move.ready_after (m := ⟨sys, a⟩)
    rcases (h.sound hs.toSound).loop_move hb ht with
      ⟨c, hc, -, -, htc⟩ | ⟨-, l, hta, hl⟩ | hfresh
    · exact (ih c hc l' htc).resolve_left hgate
    · rcases ih a ha l hta with hold | hready
      · exact (PollLoop.proceeds_step sys.site l l' hl).2.ready_of_leaves hold hgate
      · exact hready
    · exact absurd (.inl hfresh) hgate
  | pause _ hp ih =>
    intro b hb l ht
    obtain ⟨c, hc, -, htask⟩ := hp.exists_task hb
    rw [hp.ready_eq]
    exact ih c hc l (htask.trans ht)

/-! ## Iterations -/

/-- Whether the loop of a number begins an iteration in a move: it finds the store initialized and
its pool not cancelled. -/
structure Move.Opens (m : Move) (id : TaskId) (l : PollLoop) : Prop where
  mover : m.mover.id = id
  top : ∃ l₀, m.mover.task = .loop l₀ ∧ l₀.SameLoop l ∧ l₀.phase = .top
  initialized : m.site.store.initialized = true
  active : m.site.isCancelled l.pool = false

/-- Whether a loop is still in the iteration that it began in one of the last moves, and has only
called for a job since. -/
def PollsSince (history : List Move) (id : TaskId) (l : PollLoop) : Prop :=
  ∃ past i mid, history = past ++ i :: mid ∧ i.Opens id l ∧
    ∀ n ∈ mid, n.mover.id = id → ∃ l', n.mover.task = .loop l' ∧ l'.SameLoop l ∧ l'.Polls

theorem PollsSince.snoc (h : PollsSince history a.id l)
    (hm : m.mover.id = a.id → ∃ l', m.mover.task = .loop l' ∧ l'.SameLoop l ∧ l'.Polls) :
    PollsSince (history ++ [m]) a.id l := by
  obtain ⟨past, i, mid, rfl, hi, hmid⟩ := h
  refine ⟨past, i, mid ++ [m], by simp, hi, fun n hn => ?_⟩
  rcases List.mem_append.mp hn with hn | hn
  · exact hmid n hn
  · exact List.mem_singleton.mp hn ▸ hm

theorem PollsSince.of_same (h : PollsSince history a.id l) (hl : l.SameLoop l') :
    PollsSince history a.id l' := by
  obtain ⟨past, i, mid, rfl, hi, hmid⟩ := h
  refine ⟨past, i, mid, rfl, ⟨hi.mover, ?_, hi.initialized, hl.pool ▸ hi.active⟩, fun n hn hid => ?_⟩
  · obtain ⟨l₀, ht, hl₀, htop⟩ := hi.top
    exact ⟨l₀, ht, hl₀.trans hl, htop⟩
  · obtain ⟨l₁, ht, hl₁, hpolls⟩ := hmid n hn hid
    exact ⟨l₁, ht, hl₁.trans hl, hpolls⟩

/-- A loop that calls for a job has begun its iteration before. -/
theorem Interleaving.pollsSince (h : Interleaving lapse start history sys) (hs : start.Opening)
    (hb : b ∈ sys.activities) (ht : b.task = .loop l) (hpolls : l.Polls) :
    PollsSince history b.id l := by
  have hgate : ∀ l : PollLoop, l.phase = .gate → ¬ l.Polls := by
    rintro l hphase ⟨stage, h | h⟩ <;> exact absurd (hphase.symm.trans h) (by simp)
  induction h generalizing b l with
  | nil =>
    have hfresh := hs.fresh b hb
    rw [ht] at hfresh
    exact absurd hpolls (hgate l hfresh)
  | @move history sys a h ha _ ih =>
    rcases (h.sound hs.toSound).loop_move hb ht with
      ⟨c, hc, hid, hne, htc⟩ | ⟨hid, l₀, hta, hl₀⟩ | hfresh
    · rw [← hid]
      exact (ih hc htc hpolls).snoc fun hmover => absurd hmover.symm hne
    · obtain ⟨hsame, hgo⟩ := PollLoop.proceeds_step sys.site l₀ l hl₀
      rw [hid]
      rcases hgo.polls_cases hpolls with hold | ⟨htop, hpool, hinit⟩
      · exact ((ih ha hta hold).of_same hsame).snoc fun _ => ⟨l₀, hta, hsame, hold⟩
      · refine ⟨history, ⟨sys, a⟩, [], rfl, ⟨rfl, ⟨l₀, hta, hsame, htop⟩, hinit, ?_⟩, by simp⟩
        rw [hsame.pool]
        exact hpool
    · exact absurd hpolls (hgate l hfresh)
  | pause _ hp ih =>
    obtain ⟨c, hc, hid, htask⟩ := hp.exists_task hb
    exact hid ▸ ih hc (htask.trans ht) hpolls

/-! ## The service and its pools -/

/-- Whether every service that waits does so for shutdown or the storage, unless one of them has
come. -/
def Ensemble.ServicesWait (sys : Ensemble) : Prop :=
  ∀ b ∈ sys.activities, ∀ v, b.task = .service v → v.phase = .waiting →
    b.wait = some (.either (.cancel v.shutdown) .ready) ∨
      sys.site.isCancelled v.shutdown = true ∨ sys.site.ready = true

theorem Ensemble.ServicesWait.move (h : sys.ServicesWait) (hg : Guarding start sys)
    (hs : sys.Sound) (ha : a ∈ sys.activities) : (sys.move a).ServicesWait := by
  intro b hb v' ht hphase
  have hkind : ¬ b.task.IsHeartbeat := by
    rintro ⟨g, hbeat⟩
    exact absurd (ht.symm.trans hbeat) (by simp)
  rcases hg.mem_move_cases hs ha hb hkind with ⟨hb, -⟩ | ⟨-, hgo⟩ | ⟨⟨id, word⟩, -, rfl⟩
  · rcases h b hb v' ht hphase with hwait | hcancelled | hready
    · exact .inl hwait
    · exact .inr (.inl (Ensemble.isCancelled_move a hcancelled))
    · exact .inr (.inr (Move.ready_after (m := ⟨sys, a⟩) hready))
  · have hstate := hgo.state?
    rw [ht] at hstate
    obtain ⟨ended, hsite⟩ := sys.site_move a
    cases hta : a.task with
    | service v =>
      rw [hta] at hstate
      obtain ⟨v₁, hv₁, heq⟩ := state?_within hstate
      obtain rfl := Task.service.inj heq
      have hstep : (a.task.step sys.site).1 =
          .wait (.either (.cancel v₁.shutdown) .ready) (.service v₁) := by
        rw [hta]
        exact congrArg (Progress.within Task.service .done) (Service.step_of_waiting? hv₁ hphase)
      rw [hstep] at hgo
      cases hgo with
      | elapsed hover =>
        rw [hsite]
        exact .inr (Bool.or_eq_true_iff.mp hover)
      | wait _ _ hwait => exact .inl hwait
    | _ =>
      rw [hta] at hstate
      obtain ⟨_, -, heq⟩ := state?_within hstate
      exact absurd heq (by simp)
  · cases word <;> simp only [Activity.started, Task.ofStart, Task.service.injEq, reduceCtorEq] at ht
    rw [← ht] at hphase
    exact absurd hphase (by simp [Service.fresh])

theorem Ensemble.ServicesWait.pause (h : sys.ServicesWait) (hp : Pause lapse sys next) :
    next.ServicesWait := by
  intro b hb v ht hphase
  obtain ⟨c, hc, -, htask, hwait⟩ := hp.wait_cases hb
  rw [hp.isCancelled_eq, hp.ready_eq]
  rcases h c hc v (htask.trans ht) hphase with hold | hcome
  · rcases hwait with hsame | ⟨-, w, hw, hover⟩
    · exact .inl (hsame.trans hold)
    · obtain rfl := Option.some.inj (hw.symm.trans hold)
      exact .inr (Bool.or_eq_true_iff.mp hover)
  · exact .inr hcome

theorem Interleaving.servicesWait (h : Interleaving lapse start history sys) (hs : start.Opening)
    (hw : start.WatchesHeartbeats) : sys.ServicesWait := by
  induction h with
  | nil =>
    intro b hb v ht hphase
    have hfresh := hs.fresh b hb
    rw [ht] at hfresh
    have hfresh : v.phase = .fresh := hfresh
    exact absurd (hfresh.symm.trans hphase) (by simp)
  | move h ha _ ih =>
    exact ih.move (h.guarding hs.toSound rfl (hs.guarding hw)) (h.sound hs.toSound) ha
  | pause _ hp ih => exact ih.pause hp

/-- A service that goes on without having been asked to shut down finds the storage ready. -/
theorem Ensemble.ServicesWait.ready (h : sys.ServicesWait) (ha : a ∈ sys.activities)
    (hf : a.isFree sys.site = true) {v : Service} (ht : a.task = .service v)
    (hphase : v.phase = .waiting) (hshutdown : sys.site.isCancelled v.shutdown = false) :
    sys.site.ready = true := by
  rcases h a ha v ht hphase with hwait | hcancelled | hready
  · rw [Activity.isFree, hwait] at hf
    rcases Bool.or_eq_true_iff.mp hf with hcancelled | hready
    · exact absurd hcancelled (by simp [Wait.isOver, hshutdown])
    · exact hready
  · exact absurd hcancelled (by simp [hshutdown])
  · exact hready

/-- A service starts tasks only when it goes on without having been asked to shut down. -/
theorem Task.of_spawn_service {s : Site} {t : Task} {v : Service} (ht : t = .service v)
    {word : Start} (h : .spawn word ∈ t.deeds s) :
    v.phase = .waiting ∧ s.isCancelled v.shutdown = false := by
  cases Task.origin_of_mem_deeds t.within_trivial h with
  | spawnPool hv hphase hshutdown =>
    obtain rfl := Task.service.inj (ht.symm.trans hv)
    exact ⟨hphase, hshutdown⟩
  | spawnLoop hq => exact absurd (ht.symm.trans hq) (by simp)
  | spawnHosting hc => exact absurd (ht.symm.trans hc) (by simp)
  | beats hx => simp [ht, Task.acting?] at hx

theorem Task.of_publish_started {s : Site} {t : Task} {queue : Queue}
    (h : .publish (.workerStarted queue) ∈ t.deeds s) : ∃ q, t = .pool q := by
  generalize hevent : Event.workerStarted queue = e at h
  cases Task.origin_of_mem_deeds t.within_trivial h with
  | publish _ hstarted => exact hstarted queue hevent.symm
  | @final _ _ d => cases d <;> simp [Execution.event] at hevent

/-- Whether a task is a pool, or has one started. -/
def Task.HostsPool : Task → Prop
  | .pool _ => True
  | .conductor c => ∃ queue workers worker k, c.task = .pool queue workers worker k
  | _ => False

theorem Task.HostsPool.of_state? {s : Site} {t t' : Task} (h : t'.HostsPool)
    (ht : (t.step s).1.state? = some t') : t.HostsPool := by
  cases t with
  | pool p => trivial
  | conductor c =>
    obtain ⟨c', hc', rfl⟩ := state?_within ht
    obtain ⟨queue, workers, worker, k, hpool⟩ := h
    exact ⟨queue, workers, worker, k, (Conductor.of_state? hc').1 ▸ hpool⟩
  | _ =>
    obtain ⟨_, -, rfl⟩ := state?_within ht
    exact h

/-- Where no pool was there from the beginning, none is there before the storage is ready. -/
theorem Interleaving.ready_of_hostsPool (h : Interleaving lapse start history sys)
    (hs : start.Opening) (hw : start.WatchesHeartbeats)
    (hnone : ∀ b ∈ start.activities, ¬ b.task.HostsPool) :
    ∀ b ∈ sys.activities, b.task.HostsPool → sys.site.ready = true := by
  induction h with
  | nil => exact fun b hb hpool => absurd hpool (hnone b hb)
  | @move history sys a h ha hf ih =>
    refine (h.sound hs.toSound).tasks_move
      (Q := fun t => t.HostsPool → (sys.move a).site.ready = true) (fun t ht => ?_)
      (fun b hb _ hpool => Move.ready_after (m := ⟨sys, a⟩) (ih b hb hpool))
      (fun t ht hpool => Move.ready_after (m := ⟨sys, a⟩) (ih a ha (hpool.of_state? ht)))
      (fun word hword hpool => Move.ready_after (m := ⟨sys, a⟩) ?_)
    · cases t with
      | heartbeat => exact fun hpool => absurd hpool id
      | _ => exact ht
    · have hspawn := Move.spawn_of_starting (m := ⟨sys, a⟩) (h.sound hs.toSound) hword
      obtain ⟨id, word⟩ := word
      cases word with
      | pool queue workers worker k =>
        rcases Task.of_spawn_pool hspawn with ⟨v, ht, hphase, hshutdown⟩ | ⟨c, ht, hc⟩
        · exact (h.servicesWait hs hw).ready ha hf ht hphase hshutdown
        · have ht : a.task = .conductor c := ht
          exact ih a ha (by rw [ht]; exact ⟨queue, workers, worker, k, hc⟩)
      | _ => exact hpool.elim
  | pause _ hp ih =>
    intro b hb hpool
    obtain ⟨c, hc, -, htask⟩ := hp.exists_task hb
    rw [hp.ready_eq]
    exact ih c hc (htask ▸ hpool)

/-! ## Pools that are cancelled -/

/-- What a move of a loop comes to whose pool is cancelled. -/
structure Move.Cut (m : Move) (l : PollLoop) : Prop where
  /-- The store gives it no job. -/
  denied : ∀ job, ¬ m.mover.task.Obtains m.site job
  /-- The store is left as it is by its calls for a job. -/
  spared : l.Polls → m.after.site.store.entries = m.site.store.entries
  /-- It ends if it is not in the middle of an iteration. -/
  ends : ¬ l.Polls → (∀ x, l.phase ≠ .executing x) → m.mover.id ∉ m.after.ids

theorem Move.cut_of_cancelled (hs : m.sys.Sound) (hm : m.mover ∈ m.sys.activities)
    (ht : m.mover.task = .loop l) (hpool : m.site.isCancelled l.pool = true) : m.Cut l := by
  constructor
  case denied =>
    rintro job (⟨hl, -, hasked⟩ | ⟨hr, -⟩)
    · obtain rfl := Task.loop.inj (ht.symm.trans hl)
      rw [hpool, (m.site.askDequeue_cancelled _).1] at hasked
      exact absurd hasked (by simp)
    · exact absurd (ht.symm.trans hr) (by simp)
  case spared =>
    intro hpolls
    have hdeeds : ∀ d ∈ m.deeds, ∃ request, d = .operate (.dequeue request true) := by
      intro d hd
      rw [deeds, ht, Task.deeds, PollLoop.deeds] at hd
      obtain ⟨stage, hphase | hphase⟩ := hpolls
      all_goals
        simp only [hphase, hpool] at hd
        exact ⟨_, (mem_deedsOfStage hd).2.2⟩
    rw [m.tallied_after.entries]
    refine Deed.onAll_induction (P := fun t => t.store.entries = m.site.store.entries)
      (fun d hd t hentries => ?_) rfl
    obtain ⟨request, rfl⟩ := hdeeds d hd
    exact hentries
  case ends =>
    intro hpolls hidle hthere
    have hend := ((hs.mem_ids_move_of_lt hm (hs.bounded _ hm)).mp hthere).2 rfl
    rw [ht] at hend
    simp only [Task.step] at hend
    have hdone : (l.step m.sys.site).1 = .done () := PollLoop.step_of_cancelled hpool hpolls hidle
    rw [hdone] at hend
    exact absurd hend (by simp [Progress.within, Progress.end?])

/-! ## The gates -/

/-- That all polling in a history is behind its gates. -/
structure PollingIsGated (start : Ensemble) (history : List Move) : Prop where
  /-- A loop calls for a job only when the storage was reported ready. -/
  ready : ∀ m ∈ history, ∀ l, m.mover.task = .loop l → l.Polls → m.site.ready = true
  /-- So it is when a service starts pools. -/
  launched : ∀ m ∈ history, ∀ v, m.mover.task = .service v → m.launched ≠ [] →
    m.site.ready = true
  /-- Where all pools are those of services, no queue is said to be worked before. -/
  announced : (∀ b ∈ start.activities, ¬ b.task.HostsPool) → ∀ m ∈ history, ∀ queue,
    .workerStarted queue ∈ m.published → m.site.ready = true
  /-- A loop that calls for a job has seen the store initialized in the same iteration. -/
  initialized : ∀ before m after, history = before ++ m :: after → ∀ l,
    m.mover.task = .loop l → l.Polls → PollsSince before m.mover.id l
  /-- Once the token of a pool is cancelled, so is every iteration of its loops. -/
  cancelled : ∀ before m after, history = before ++ m :: after → ∀ k,
    m.site.isCancelled k = true → ∀ n ∈ m :: after, ∀ l, n.mover.task = .loop l → l.pool = k →
      n.Cut l

/-- Whatever the order in which tasks move, and whatever happens to the storage and to tokens
meanwhile: a loop calls for jobs only once the storage was ready and while the store was initialized
at its last look, and it is given no job once its pool is cancelled. -/
theorem polling_is_gated (hstart : start.Opening) (hwatch : start.WatchesHeartbeats)
    (h : Interleaving lapse start history sys) : PollingIsGated start history := by
  constructor
  case ready =>
    intro m hm l ht hpolls
    obtain ⟨past, hpast, hmover, -⟩ := h.of_mem hm
    refine (hpast.loopsWait hstart m.mover hmover l ht).resolve_left fun hgate => ?_
    obtain ⟨stage, hphase⟩ := hpolls
    rcases hgate with hgate | hgate <;> simp [hgate] at hphase
  case launched =>
    intro m hm v ht hlaunched
    obtain ⟨past, hpast, hmover, hfree⟩ := h.of_mem hm
    obtain ⟨word, hword⟩ := List.exists_mem_of_ne_nil _ hlaunched
    obtain ⟨hphase, hshutdown⟩ := Task.of_spawn_service ht
      (Move.spawn_of_starting (hpast.sound hstart.toSound) (List.mem_reverse.mp hword))
    exact (hpast.servicesWait hstart hwatch).ready hmover hfree ht hphase hshutdown
  case announced =>
    intro hnone m hm queue hpublished
    obtain ⟨past, hpast, hmover, -⟩ := h.of_mem hm
    obtain ⟨q, ht⟩ := Task.of_publish_started (Move.mem_published.mp hpublished)
    exact hpast.ready_of_hostsPool hstart hwatch hnone m.mover hmover (by rw [ht]; trivial)
  case initialized =>
    rintro before m after rfl l ht hpolls
    obtain ⟨hbefore, hmover, -, -⟩ := h.split
    exact hbefore.pollsSince hstart hmover ht hpolls
  case cancelled =>
    rintro before m after rfl k hk n hn l ht rfl
    obtain ⟨hbefore, hmover, hfree, hafter⟩ := h.split
    rcases List.mem_cons.mp hn with rfl | hn
    · exact Move.cut_of_cancelled (hbefore.sound hstart.toSound) hmover ht hk
    · obtain ⟨between, hbetween, hmover', -⟩ := hafter.of_mem hn
      refine Move.cut_of_cancelled ?_ hmover' ht ?_
      · exact hbetween.sound ((hbefore.sound hstart.toSound).move _ hmover)
      · exact hbetween.isCancelled (Ensemble.isCancelled_move _ hk)

/-- A service whose storage is ready only after a while, with a store that is initialized later
still. -/
def lateStorage : Ensemble :=
  let slow : Handler := .scripted 0 "slow" [⟨[.sleep 4000], .returns (.ok "done")⟩]
  let site := { Site.initial with registry := Registry.empty.register .exports none slow }
  ((Ensemble.ofSite site).host (.timeline (.ofList
    [(0, .setInitialized false), (0, .enqueue .exports "" none 2), (1000, .notifyReady),
      (2000, .setInitialized true), (9000, .setInitialized false), (9000, .shutdown)]))).host
    (.service (.fresh [.ofQueue .exports] "a" site.shutdown))

/-- One job is executed until after the shutdown; the other one stays where it is. -/
def lateStorageTurns : List Turn :=
  [Turn.go 0, .go 0, .go 0, .go 1, .pass 1000, .go 0, .go 0, .go 1, .go 1, .go 2, .go 2, .go 3,
    .pass 2000, .go 0, .go 0, .pass 6000, .go 3, .go 3, .pass 7000] ++
    List.replicate 6 (Turn.go 3) ++ [Turn.go 4, .pass 9000, .go 0, .go 0, .go 0, .pass 11000] ++
    List.replicate 4 (Turn.go 3)

theorem opening_lateStorage : lateStorage.Opening := by
  refine ((Ensemble.opening_ofSite rfl rfl ?_).host ?_).host ?_
  · exact fun t ht => absurd ht List.not_mem_nil
  · exact trivial
  · rfl

theorem task_of_mem_lateStorage (hb : b ∈ lateStorage.activities) :
    (∃ t, b.task = .timeline t) ∨ ∃ v, b.task = .service v := by
  have hactivities : lateStorage.activities = [_, _] := rfl
  rw [hactivities] at hb
  obtain rfl | rfl := List.mem_pair.mp hb
  · exact .inl ⟨_, rfl⟩
  · exact .inr ⟨_, rfl⟩

/-- The time at which a loop does something about a call for a job. -/
def Move.polledAt? (m : Move) : Option Nat :=
  match m.mover.task with
  | .loop l => if l.phase matches .scanning _ | .fetching _ then some m.site.clock else none
  | _ => none

theorem polling_is_gated_late_storage :
    let history := (lateStorage.follow whenIdle lateStorageTurns).1
    history.filterMap Move.polledAt? = [7000, 7000] ∧
      (∃ m ∈ history, m.site.clock = 1000 ∧ .workerStarted .exports ∈ m.published ∧
        m.site.ready = true) ∧
      (∃ m ∈ history, ∃ l, m.mover.task = .loop l ∧ m.site.clock = 11000 ∧ m.Cut l ∧
        m.mover.id ∉ m.after.ids) ∧
      PollingIsGated lateStorage history := by
  intro history
  have hgated : PollingIsGated lateStorage history := by
    refine polling_is_gated opening_lateStorage (fun b hb w ht => ?_)
      (Ensemble.interleaving_follow whenIdle lateStorageTurns lateStorage)
    rcases task_of_mem_lateStorage hb with ⟨_, htask⟩ | ⟨_, htask⟩ <;>
      exact absurd (htask.symm.trans ht) (by simp)
  have hnone : ∀ b ∈ lateStorage.activities, ¬ b.task.HostsPool := by
    intro b hb
    rcases task_of_mem_lateStorage hb with ⟨_, htask⟩ | ⟨_, htask⟩ <;>
      exact htask ▸ id
  refine ⟨by decide +kernel, ?_, ?_, hgated⟩
  · have hrun : history.any (fun m => decide (m.site.clock = 1000) &&
        decide (.workerStarted .exports ∈ m.published)) = true := by decide +kernel
    obtain ⟨m, hm, hpublished⟩ := List.any_eq_true.mp hrun
    simp only [Bool.and_eq_true, decide_eq_true_eq] at hpublished
    exact ⟨m, hm, hpublished.1, hpublished.2, hgated.announced hnone m hm .exports hpublished.2⟩
  · have hrun : history.any (fun m => decide (m.site.clock = 11000) &&
        match m.mover.task with
        | .loop l => l.isTop && m.site.isCancelled l.pool
        | _ => false) = true := by decide +kernel
    obtain ⟨m, hm, hcut⟩ := List.any_eq_true.mp hrun
    rw [Bool.and_eq_true, decide_eq_true_eq] at hcut
    obtain ⟨hclock, hcut⟩ := hcut
    split at hcut
    · rename_i l ht
      rw [Bool.and_eq_true] at hcut
      obtain ⟨before, after, hsplit⟩ := List.append_of_mem hm
      have hm' := hgated.cancelled before m after hsplit l.pool hcut.2 m List.mem_cons_self l ht rfl
      have htop := PollLoop.isTop_iff.mp hcut.1
      have hpolls : ¬ l.Polls := by
        rintro ⟨stage, hphase | hphase⟩ <;> exact absurd (htop.symm.trans hphase) (by simp)
      exact ⟨m, hm, l, ht, hclock, hm', hm'.ends hpolls fun x hx => by simp [htop] at hx⟩
    · exact absurd hcut (by simp)

end Host

end LeasedWork
