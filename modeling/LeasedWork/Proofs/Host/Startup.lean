import LeasedWork.Host.Server
import LeasedWork.Proofs.Host.Parallelism
import LeasedWork.Proofs.Settings.QueueList

/-!
# What a server hosts

A server starts the hosting service with the queues that it is told to host, and nothing but the
service starts pools. In its second move the service starts a pool for every queue that is switched
on, and each pool starts its loops in its first; nothing keeps either from moving. Where all queues
are switched off, the service is over with its first move.
-/
namespace LeasedWork.Host

open Engine

variable {lapse : Ensemble → Nat → Prop} {start sys next : Ensemble} {history : List Move}
  {a b : Activity} {id : TaskId} {v v' : Service} {m n : Move} {s : Site} {t t' : Task}

/-! ## What hosting comes to -/

/-- How many moves in a history are those of the task of a number. -/
def turnsOf (id : TaskId) (history : List Move) : Nat := history.countP fun m => m.mover.id = id

/-- Whether a task is there and may make the next move. -/
def Ensemble.LetsMove (sys : Ensemble) (id : TaskId) : Prop :=
  ∃ a ∈ sys.activities, a.id = id ∧ a.isFree sys.site = true

/-- Whether the pool of a number has so many loops: it starts them in its first move and no others
later, and as long as it has not moved it may. -/
def HasLoops (history : List Move) (sys : Ensemble) (id : TaskId) (queue : Queue) (workers : Nat)
    (worker : String) : Prop :=
  (turnsOf id history = 0 ∧ sys.LetsMove id) ∨
  ∃ before m after k, history = before ++ m :: after ∧ m.mover.id = id ∧
    (m.launched.map (·.2) = (List.range workers).map fun slot => .loop queue worker slot k) ∧
    ∀ n ∈ before ++ after, n.mover.id = id → n.launched = []

/-- How far a service has come that is to host some queues. -/
inductive Hosts (hosted : List HostedQueue) (worker : String) (service : TaskId)
    (history : List Move) (sys : Ensemble) : Prop
  /-- It has not moved twice, and may; if there are no queues, it has not moved at all. -/
  | waits (turns : turnsOf service history < if hosted = [] then 1 else 2)
      (free : sys.LetsMove service) (quiet : ∀ m ∈ history, m.launched = [])
  /-- It has ended and nothing was started. -/
  | ends (none : hosted = []) (ended : (service, false) ∈ sys.site.ended)
      (quiet : ∀ m ∈ history, m.launched = [])
  /-- It has started a pool for each queue, and there are no other pools. -/
  | opens {before after : List Move} {m : Move} {scope : Token} (some : hosted ≠ [])
      (split : history = before ++ m :: after) (mover : m.mover.id = service)
      (pools : m.launched.map (·.2) = hosted.map fun h => .pool h.queue h.workers worker scope)
      (alone : ∀ n ∈ before ++ after, ∀ word ∈ n.launched, ∀ queue workers worker scope,
        word.2 ≠ .pool queue workers worker scope)
      (loops : ∀ word ∈ m.launched, ∀ queue workers worker scope,
        word.2 = .pool queue workers worker scope →
          HasLoops history sys word.1 queue workers worker)

/-! ## Before the pools are started -/

/-- Whether a task is nothing that starts pools. -/
def Task.StartsNoPool : Task → Prop
  | .service _ | .conductor _ => False
  | _ => True

theorem Task.StartsNoPool.of_state? (h : t.StartsNoPool) (ht : (t.step s).1.state? = some t') :
    t'.StartsNoPool := by
  cases t with
  | service => exact absurd h id
  | conductor => exact absurd h id
  | _ =>
    obtain ⟨_, -, rfl⟩ := state?_within ht
    exact trivial

theorem Task.StartsNoPool.stop (h : t.StartsNoPool) : t.stop.StartsNoPool := by
  cases t <;> exact h

theorem Task.of_spawn_hosting {queues : List HostedQueue} {worker : String} {k : Token}
    (h : .spawn (.service queues worker k) ∈ t.deeds s) : ∃ c, t = .conductor c := by
  generalize hword : Start.service queues worker k = word at h
  cases Task.origin_of_mem_deeds t.within_trivial h with
  | spawnLoop => nomatch hword
  | spawnPool => nomatch hword
  | spawnHosting ht => exact ⟨_, ht⟩
  | beats => nomatch hword

/-- Whether an activity starts pools only if it is the service of a number. -/
def Activity.StartsPoolsAs (id : TaskId) (b : Activity) : Prop :=
  b.id = id ∧ (∃ v, b.task = .service v) ∨ b.task.StartsNoPool

theorem Activity.StartsPoolsAs.heeding (h : b.StartsPoolsAs id) (ids : List TaskId) :
    (b.heeding ids).StartsPoolsAs id := by
  rcases h with ⟨hid, v, ht⟩ | hno
  · exact .inl ⟨(b.id_heeding ids).trans hid, v, (b.task_heeding (by rw [ht]; rfl)).trans ht⟩
  · right
    unfold Activity.heeding
    split
    · exact hno.stop
    · exact hno

/-- Whether the service of a number is all that starts pools. -/
def Ensemble.SoleService (sys : Ensemble) (id : TaskId) : Prop :=
  ∀ b ∈ sys.activities, b.StartsPoolsAs id

theorem Ensemble.SoleService.move (h : sys.SoleService id) (hs : sys.Sound)
    (ha : a ∈ sys.activities) : (sys.move a).SoleService id := by
  intro b hb
  obtain ⟨c, rfl, hc⟩ := hs.mem_move_cases hb
  apply Activity.StartsPoolsAs.heeding
  rcases hc with ⟨hc, -⟩ | ⟨hid, hgo⟩ | ⟨start, hstart, rfl⟩
  · exact h c hc
  · rcases h a ha with ⟨haid, v, ht⟩ | hno
    · have hstate := hgo.state?
      rw [ht] at hstate
      obtain ⟨v', -, hv'⟩ := state?_within hstate
      exact .inl ⟨hid.trans haid, v', hv'.symm⟩
    · exact .inr (hno.of_state? hgo.state?)
  · right
    have hspawn := Move.spawn_of_starting (m := ⟨sys, a⟩) hs hstart
    obtain ⟨n, word⟩ := start
    cases word with
    | service =>
      obtain ⟨c, hc⟩ := Task.of_spawn_hosting hspawn
      have hc : a.task = .conductor c := hc
      rcases h a ha with ⟨-, v, ht⟩ | hno
      · exact absurd (hc.symm.trans ht) (by simp)
      · rw [hc] at hno
        exact False.elim hno
    | _ => exact trivial

theorem Interleaving.soleService (h : Interleaving lapse start history sys) (hs : start.Sound)
    (hsole : start.SoleService id) : sys.SoleService id := by
  induction h with
  | nil => exact hsole
  | move h ha _ ih => exact ih.move (h.sound hs) ha
  | pause _ hp ih =>
    intro b hb
    obtain ⟨c, hc, hid, htask⟩ := hp.exists_task hb
    rw [Activity.StartsPoolsAs, ← hid, ← htask]
    exact ih c hc

/-- Where there is one service, only it starts pools. -/
theorem Interleaving.mover_of_pool (h : Interleaving lapse start history sys) (hs : start.Sound)
    (hsole : start.SoleService id) (hm : m ∈ history) {word : TaskId × Start}
    (hword : word ∈ m.launched) {queue : Queue} {workers : Nat} {worker : String} {k : Token}
    (hpool : word.2 = .pool queue workers worker k) : m.mover.id = id := by
  obtain ⟨past, hpast, hmover, -⟩ := h.of_mem hm
  have hspawn := Move.spawn_of_starting (hpast.sound hs) (List.mem_reverse.mp hword)
  rw [hpool] at hspawn
  rcases hpast.soleService hs hsole m.mover hmover with ⟨hid, -⟩ | hno
  · exact hid
  · rcases Task.of_spawn_pool hspawn with ⟨v, ht, -⟩ | ⟨c, ht, -⟩
    · rw [ht] at hno
      exact False.elim hno
    · rw [ht] at hno
      exact False.elim hno

/-- What a service is that has moved so often and has not started its pools. -/
inductive Service.Due (v : Service) : Nat → Service → Prop
  | fresh : Due v 0 v
  | waiting (h : v.hosted ≠ []) : Due v 1 { v with phase := .waiting }

/-- Whether a service has not started its pools yet, and nothing but event logs is there besides. -/
structure Poised (v : Service) (id : TaskId) (history : List Move) (sys : Ensemble) : Prop where
  quiet : ∀ m ∈ history, m.launched = []
  ready : sys.site.ready = true
  calm : sys.site.isCancelled v.shutdown = false
  due : ∃ v', Service.Due v (turnsOf id history) v' ∧
    ∃ a ∈ sys.activities, a.id = id ∧ a.task = .service v' ∧ a.wait = none
  others : ∀ b ∈ sys.activities, b.id ≠ id → ∃ l, b.task = .eventLog l

theorem turnsOf_concat (m : Move) (history : List Move) : turnsOf id (history ++ [m]) =
    turnsOf id history + if m.mover.id = id then 1 else 0 := by
  simp [turnsOf, List.countP_append, List.countP_cons]

theorem Move.launched_of_no_spawn (hs : m.sys.Sound) (h : ∀ word, .spawn word ∉ m.deeds) :
    m.launched = [] := by
  apply List.eq_nil_iff_forall_not_mem.mpr
  intro word hword
  exact h word.2 (Move.spawn_of_starting hs (List.mem_reverse.mp hword))

/-- A move that comes to no deeds starts nothing and leaves the site as ready and as calm. -/
theorem Move.still_of_no_deeds (hs : m.sys.Sound) (h : m.deeds = []) :
    m.launched = [] ∧ ∀ k, m.after.site.isCancelled k = m.site.isCancelled k := by
  constructor
  · apply Move.launched_of_no_spawn hs
    simp [h]
  · intro k
    have hcancelled := m.isCancelled_after k
    simp only [h, List.not_mem_nil, false_and, exists_false, or_false] at hcancelled
    exact Bool.eq_iff_iff.mpr hcancelled

/-- Whether a move is the one in which a service starts its pools, or ends for want of queues. -/
def Move.Decides (m : Move) (v : Service) : Prop :=
  v.hosted = [] ∧ m.mover.task = .service v ∨
    v.hosted ≠ [] ∧ m.mover.task = .service { v with phase := .waiting }

theorem Service.step_of_fresh (hphase : v.phase = .fresh) (hhosted : v.hosted ≠ []) (s : Site) :
    v.step s = (.wait (.either (.cancel v.shutdown) .ready) { v with phase := .waiting }, s) := by
  rw [Service.step, hphase]
  simp only [if_neg hhosted]

namespace Poised

theorem quiet_concat (h : Poised v id history sys) (hm : m.launched = []) :
    ∀ n ∈ history ++ [m], n.launched = [] := by
  intro n hn
  rcases List.mem_append.mp hn with hn | hn
  · exact h.quiet n hn
  · rw [List.mem_singleton.mp hn, hm]

theorem others_move (h : Poised v id history sys) (hs : sys.Sound) (ha : a ∈ sys.activities)
    (hlaunched : Move.launched ⟨sys, a⟩ = []) :
    ∀ b ∈ (sys.move a).activities, b.id ≠ id → ∃ l, b.task = .eventLog l := by
  intro b hb hbid
  obtain ⟨c, rfl, ⟨hc, -⟩ | ⟨hid, hgo⟩ | ⟨start, hstart, -⟩⟩ := hs.mem_move_cases hb
  · rw [Activity.id_heeding] at hbid
    obtain ⟨l, hl⟩ := h.others c hc hbid
    exact ⟨l, (c.task_heeding (by rw [hl]; rfl)).trans hl⟩
  · rw [Activity.id_heeding] at hbid
    obtain ⟨l, hl⟩ := h.others a ha (hid ▸ hbid)
    have hstate := hgo.state?
    rw [hl] at hstate
    obtain ⟨l', -, hl'⟩ := state?_within hstate
    exact ⟨l', (c.task_heeding (by rw [← hl']; rfl)).trans hl'.symm⟩
  · have hnone : (a.task.step sys.site).2.starting.reverse = [] := hlaunched
    rw [List.reverse_eq_nil_iff.mp hnone] at hstart
    exact absurd hstart List.not_mem_nil

/-- The move of an event log keeps a service from nothing. -/
theorem move_of_ne (h : Poised v id history sys) (hs : sys.Sound) (ha : a ∈ sys.activities)
    (hne : a.id ≠ id) : Poised v id (history ++ [⟨sys, a⟩]) (sys.move a) := by
  obtain ⟨l, hl⟩ := h.others a ha hne
  have hdeeds : Move.deeds ⟨sys, a⟩ = [] := by
    rw [Move.deeds, hl]
    rfl
  obtain ⟨hlaunched, hcancelled⟩ := Move.still_of_no_deeds (m := ⟨sys, a⟩) hs hdeeds
  constructor
  case quiet => exact h.quiet_concat hlaunched
  case ready => exact Move.ready_after (m := ⟨sys, a⟩) h.ready
  case calm => exact (hcancelled v.shutdown).trans h.calm
  case others => exact h.others_move hs ha hlaunched
  case due =>
    obtain ⟨v', hdue, b, hb, hid, ht, hwait⟩ := h.due
    refine ⟨v', by rwa [turnsOf_concat, if_neg hne], ?_⟩
    have hbne : b.id ≠ a.id := fun heq => hne (heq.symm.trans hid)
    exact ⟨_, hs.mem_move_of_ne hb hbne, (b.id_heeding _).trans hid,
      (b.task_heeding (by rw [ht]; rfl)).trans ht, Activity.wait_heeding hwait⟩

/-- The first move of a service that has queues to host only brings it nearer to the second. -/
theorem move_of_fresh (h : Poised v id history sys) (hs : sys.Sound) (ha : a ∈ sys.activities)
    (hid : a.id = id) (ht : a.task = .service v) (hphase : v.phase = .fresh)
    (hhosted : v.hosted ≠ []) (hturns : turnsOf id history = 0) :
    Poised v id (history ++ [⟨sys, a⟩]) (sys.move a) := by
  have hdeeds : Move.deeds ⟨sys, a⟩ = [] := by
    rw [Move.deeds, ht, Task.deeds, Service.deeds, hphase]
  obtain ⟨hlaunched, hcancelled⟩ := Move.still_of_no_deeds (m := ⟨sys, a⟩) hs hdeeds
  have hstep : a.task.step sys.site = (.wait (.either (.cancel v.shutdown) .ready)
      (.service { v with phase := .waiting }), sys.site) := by
    rw [ht, Task.step, Service.step_of_fresh hphase hhosted]
    rfl
  constructor
  case quiet => exact h.quiet_concat hlaunched
  case ready => exact Move.ready_after (m := ⟨sys, a⟩) h.ready
  case calm => exact (hcancelled v.shutdown).trans h.calm
  case others => exact h.others_move hs ha hlaunched
  case due =>
    refine ⟨{ v with phase := .waiting }, ?_, ?_⟩
    · rw [turnsOf_concat, if_pos hid, hturns]
      exact .waiting hhosted
    · obtain ⟨c, hcid, hgo, hmem⟩ := hs.mem_move_of_state? ha (by rw [hstep]; rfl)
      rw [hstep] at hgo hmem
      have hover : Wait.isOver sys.site (.either (.cancel v.shutdown) .ready) = true :=
        Bool.or_eq_true_iff.mpr (.inr h.ready)
      cases hgo with
      | elapsed _ hct hwait =>
        exact ⟨_, hmem, (c.id_heeding _).trans (hcid.trans hid),
          (c.task_heeding (by rw [hct]; rfl)).trans hct, Activity.wait_heeding hwait⟩
      | wait hnot => exact absurd (hover.symm.trans hnot) (by simp)

theorem pause (h : Poised v id history sys) (hp : Pause lapse sys next) :
    Poised v id history next := by
  constructor
  case quiet => exact h.quiet
  case ready => exact hp.ready_eq.trans h.ready
  case calm => rw [hp.isCancelled_eq, h.calm]
  case due =>
    obtain ⟨v', hdue, a, ha, hid, ht, hwait⟩ := h.due
    obtain ⟨b, hb, hbid, hbt, hbwait⟩ := hp.exists_activity ha
    refine ⟨v', hdue, b, hb, hbid.trans hid, hbt.trans ht, ?_⟩
    apply Option.eq_none_iff_forall_not_mem.mpr
    intro w hw
    exact absurd (hwait.symm.trans (hbwait w hw)) (by simp)
  case others =>
    intro b hb hbid
    obtain ⟨c, hc, hid, htask⟩ := hp.exists_task hb
    exact htask ▸ h.others c hc (hid ▸ hbid)

theorem move (h : Poised v id history sys) (hs : sys.Sound) (hphase : v.phase = .fresh)
    (ha : a ∈ sys.activities) : Poised v id (history ++ [⟨sys, a⟩]) (sys.move a) ∨
      a.id = id ∧ Move.Decides ⟨sys, a⟩ v := by
  by_cases hid : a.id = id
  · obtain ⟨v', hdue, b, hb, hbid, ht, -⟩ := h.due
    obtain rfl := Ensemble.eq_of_id_eq hs.nodup ha hb (hid.trans hbid.symm)
    generalize hturns : turnsOf id history = turns at hdue
    cases hdue with
    | fresh =>
      by_cases hhosted : v.hosted = []
      · exact .inr ⟨hid, .inl ⟨hhosted, ht⟩⟩
      · exact .inl (h.move_of_fresh hs ha hid ht hphase hhosted hturns)
    | waiting hhosted => exact .inr ⟨hid, .inr ⟨hhosted, ht⟩⟩
  · exact .inl (h.move_of_ne hs ha hid)

end Poised

/-- A service has not come to its decision, or it has. -/
theorem Interleaving.poised_or_decides (h : Interleaving lapse start history sys)
    (hs : start.Sound) (hphase : v.phase = .fresh) (hstart : Poised v id [] start) :
    Poised v id history sys ∨ ∃ before m after, history = before ++ m :: after ∧
      Poised v id before m.sys ∧ m.mover.id = id ∧ m.Decides v := by
  induction h with
  | nil => exact .inl hstart
  | @move history sys a h ha _ ih =>
    rcases ih with hpoised | ⟨before, m, after, rfl, hm⟩
    · rcases hpoised.move (h.sound hs) hphase ha with hnext | ⟨hid, hdecides⟩
      · exact .inl hnext
      · exact .inr ⟨history, ⟨sys, a⟩, [], rfl, hpoised, hid, hdecides⟩
    · exact .inr ⟨before, m, after ++ [⟨sys, a⟩], by simp, hm⟩
  | pause _ hp ih => exact ih.imp_left fun hpoised => hpoised.pause hp

/-! ## Where there is nothing to host -/

/-- Event logs alone start nothing. -/
theorem Interleaving.launched_of_eventLogs (h : Interleaving lapse start history sys)
    (hs : start.Sound) (hlogs : ∀ b ∈ start.activities, ∃ l, b.task = .eventLog l) :
    (∀ b ∈ sys.activities, ∃ l, b.task = .eventLog l) ∧ ∀ m ∈ history, m.launched = [] := by
  induction h with
  | nil => exact ⟨hlogs, by simp⟩
  | @move history sys a h ha _ ih =>
    obtain ⟨l, hl⟩ := ih.1 a ha
    have hdeeds : Move.deeds ⟨sys, a⟩ = [] := by
      rw [Move.deeds, hl]
      rfl
    have hlaunched := (Move.still_of_no_deeds (m := ⟨sys, a⟩) (h.sound hs) hdeeds).1
    constructor
    · refine (h.sound hs).tasks_move (Q := fun t => ∃ l, t = .eventLog l) ?_ ?_ ?_ ?_
      · rintro t ⟨l, rfl⟩
        exact ⟨l, rfl⟩
      · exact fun b hb _ => ih.1 b hb
      · intro t ht
        rw [hl] at ht
        obtain ⟨l', -, rfl⟩ := state?_within ht
        exact ⟨l', rfl⟩
      · intro word hword
        have hspawn := Move.spawn_of_starting (m := ⟨sys, a⟩) (h.sound hs) hword
        rw [hdeeds] at hspawn
        exact absurd hspawn List.not_mem_nil
    · intro m hm
      rcases List.mem_append.mp hm with hm | hm
      · exact ih.2 m hm
      · rw [List.mem_singleton.mp hm, hlaunched]
  | pause _ hp ih =>
    refine ⟨fun b hb => ?_, ih.2⟩
    obtain ⟨c, hc, -, htask⟩ := hp.exists_task hb
    exact htask ▸ ih.1 c hc

theorem Interleaving.mem_ended {end' : TaskId × Bool} (h : Interleaving lapse start history sys)
    (hended : end' ∈ start.site.ended) : end' ∈ sys.site.ended := by
  induction h with
  | nil => exact hended
  | move _ _ _ ih =>
    rw [Ensemble.ended_move]
    exact List.mem_append_left _ ih
  | pause _ hp ih => rwa [hp.ended_eq]

/-- A service that has nothing to host ends, and nothing is left that starts anything. -/
theorem Poised.ends {past after : List Move} (h : Poised v id past m.sys) (hs : m.sys.Sound)
    (hm : m.mover ∈ m.sys.activities) (hid : m.mover.id = id) (ht : m.mover.task = .service v)
    (hphase : v.phase = .fresh) (hhosted : v.hosted = [])
    (hafter : Interleaving lapse m.after after sys) :
    (id, false) ∈ sys.site.ended ∧ ∀ n ∈ past ++ m :: after, n.launched = [] := by
  have hdeeds : m.deeds = [] := by
    rw [Move.deeds, ht, Task.deeds, Service.deeds, hphase]
  have hlaunched := (Move.still_of_no_deeds hs hdeeds).1
  have hdone : (m.mover.task.step m.sys.site).1 = .done () := by
    rw [ht, Task.step, Service.step, hphase]
    simp only [if_pos hhosted]
    rfl
  have hended : (id, false) ∈ m.after.site.ended := by
    rw [Move.after, Ensemble.ended_move, hdone, hid]
    simp [Progress.end?]
  have hgone : id ∉ m.after.ids := by
    intro hmem
    have hthere := ((hs.mem_ids_move_of_lt hm (hid ▸ hs.bounded _ hm)).mp hmem).2 hid.symm
    rw [hdone] at hthere
    exact absurd hthere (by simp [Progress.end?])
  have hlogs : ∀ b ∈ m.after.activities, ∃ l, b.task = .eventLog l := by
    intro b hb
    apply h.others_move hs hm hlaunched b hb
    rintro rfl
    exact hgone (List.mem_map_of_mem hb)
  refine ⟨hafter.mem_ended hended, fun n hn => ?_⟩
  rcases List.mem_append.mp hn with hn | hn
  · exact h.quiet n hn
  · rcases List.mem_cons.mp hn with rfl | hn
    · exact hlaunched
    · exact (hafter.launched_of_eventLogs (hs.move _ hm) hlogs).2 n hn

/-! ## Pools and their loops -/

theorem turnsOf_eq_zero : turnsOf id history = 0 ↔ ∀ m ∈ history, m.mover.id ≠ id := by
  simp [turnsOf, List.countP_eq_zero]

/-- A pool that is started goes on to start its loops. -/
theorem Interleaving.hasLoops {before after : List Move} {queue : Queue} {workers : Nat}
    {worker : String} {scope : Token}
    (h : Interleaving lapse start (before ++ m :: after) sys) (hs : start.Sound)
    (hd : start.Departed) {word : TaskId × Start} (hword : word ∈ m.launched)
    (hpool : word.2 = .pool queue workers worker scope) (hworkers : 1 ≤ workers) :
    HasLoops (before ++ m :: after) sys word.1 queue workers worker := by
  obtain ⟨hbefore, hmover, hfree, hafter⟩ := h.split
  have hsm := hbefore.sound hs
  have hs' := hsm.move m.mover hmover
  have hd' := (hbefore.departed hs hd).move hsm hmover
  have hearlier : ∀ n ∈ before ++ [m], n.mover.id ≠ word.1 :=
    hbefore.mover_ne hs hmover (List.mem_map_of_mem hword)
  let b := (Activity.started word).heeding (m.mover.task.step m.site).2.stopping
  have hb : b ∈ m.after.activities := hsm.mem_move_of_start (List.mem_reverse.mp hword)
  have hid : b.id = word.1 := Activity.id_heeding _ _
  have htask : b.task = .pool (.fresh queue workers worker scope) := by
    have hstop : (Activity.started word).task.stop = (Activity.started word).task := by
      rw [Activity.started, hpool]
      rfl
    rw [Activity.task_heeding _ hstop, Activity.started, hpool]
    rfl
  rcases hafter.untouched_or_begun hs' hb (by rw [htask]; rfl) with
    ⟨⟨c, hc, hcid, -, hwait⟩, hnone⟩ | ⟨between, n, rest, rfl, hnone, hnid, hnt⟩
  · have hcwait : c.wait = none := hwait (Activity.wait_heeding rfl)
    refine .inl ⟨turnsOf_eq_zero.mpr ?_, c, hc, hcid.trans hid, ?_⟩
    · intro n hn
      rw [List.append_cons] at hn
      rcases List.mem_append.mp hn with hn | hn
      · exact hearlier n hn
      · exact hid ▸ hnone n hn
    · rw [Activity.isFree, hcwait]
      rfl
  · obtain ⟨hbetween, hnmover, -, hrest⟩ := hafter.split
    have hsn := hbetween.sound hs'
    have hlaunches := Move.launches_of_pool hsn (hnt.trans htask) rfl
    have hsize : (Pool.fresh queue workers worker scope).size = workers := Nat.max_eq_left hworkers
    rw [hsize] at hlaunches
    refine .inr ⟨before ++ m :: between, n, rest, _, by simp, hnid.trans hid, hlaunches.1, ?_⟩
    intro n' hn' hn'id
    rw [List.append_cons, List.append_assoc, List.mem_append] at hn'
    rcases hn' with hn' | hn'
    · exact absurd hn'id (hearlier n' hn')
    · rcases List.mem_append.mp hn' with hn' | hn'
      · exact absurd (hn'id.trans hid.symm) (hnone n' hn')
      · exact hlaunches.launched_later hsn (hbetween.departed hs' hd') hnmover hrest hn'
          (hn'id.trans (hnid.trans hid).symm)

/-- Whatever the order in which tasks move, a service that may begin hosts just the queues that are
switched on. -/
theorem Interleaving.hosts (h : Interleaving lapse start history sys) (hs : start.Sound)
    (hd : start.Departed) (hphase : v.phase = .fresh) (hstart : Poised v id [] start)
    (hcounts : ∀ q ∈ v.queues, 1 ≤ q.workers) :
    Hosts v.hosted v.worker id history sys := by
  rcases h.poised_or_decides hs hphase hstart with
    hpoised | ⟨before, m, after, rfl, hpoised, hid, hdecides⟩
  · obtain ⟨v', hdue, a, ha, haid, -, hwait⟩ := hpoised.due
    refine .waits ?_ ⟨a, ha, haid, by rw [Activity.isFree, hwait]; rfl⟩ hpoised.quiet
    generalize turnsOf id history = turns at hdue
    cases hdue with
    | fresh => split <;> omega
    | waiting hhosted =>
      rw [if_neg hhosted]
      omega
  · obtain ⟨hbefore, hmover, -, hafter⟩ := h.split
    have hsm := hbefore.sound hs
    rcases hdecides with ⟨hhosted, ht⟩ | ⟨hhosted, ht⟩
    · obtain ⟨hended, hquiet⟩ := hpoised.ends hsm hmover hid ht hphase hhosted hafter
      exact .ends hhosted hended hquiet
    · have hlaunches := Move.launches_of_service hsm ht rfl hpoised.calm
      have hsole : start.SoleService id := by
        intro b hb
        by_cases hbid : b.id = id
        · obtain ⟨v', -, a, ha, haid, hat, -⟩ := hstart.due
          obtain rfl := Ensemble.eq_of_id_eq hs.nodup hb ha (hbid.trans haid.symm)
          exact .inl ⟨hbid, v', hat⟩
        · obtain ⟨l, hl⟩ := hstart.others b hb hbid
          rw [Activity.StartsPoolsAs, hl]
          exact .inr trivial
      refine .opens hhosted rfl hid hlaunches.1 ?_ ?_
      · intro n hn word hword queue workers worker scope hpool
        have hmem : n ∈ before ++ m :: after := by
          rcases List.mem_append.mp hn with hn | hn <;> simp [hn]
        have hnid := h.mover_of_pool hs hsole hmem hword hpool
        have hnone : n.launched = [] := by
          rcases List.mem_append.mp hn with hn | hn
          · exact hpoised.quiet n hn
          · exact hlaunches.launched_later hsm (hbefore.departed hs hd) hmover hafter hn
              (hnid.trans hid.symm)
        rw [hnone] at hword
        exact absurd hword List.not_mem_nil
      · intro word hword queue workers worker scope hpool
        refine h.hasLoops hs hd hword hpool ?_
        have hmem : word.2 ∈ m.launched.map (·.2) := List.mem_map_of_mem hword
        rw [hlaunches.1, hpool] at hmem
        obtain ⟨q, hq, heq⟩ := List.mem_map.mp hmem
        obtain ⟨-, rfl, -, -⟩ := Start.pool.inj heq
        exact hcounts q (List.mem_filter.mp hq).1

/-! ## Settings -/

namespace Server

variable {env : Environment} {suffix : String} {queues listed : List HostedQueue}
  {fault : EntryFault}

/-- Whether no task is there yet, and nobody has asked to shut down. -/
structure Idle (s : Site) : Prop where
  starting : s.starting = []
  stopping : s.stopping = []
  ended : s.ended = []
  calm : s.isCancelled s.shutdown = false

theorem idle_initial : Idle Site.initial := ⟨rfl, rfl, rfl, by decide⟩

theorem Idle.writeLog (h : Idle s) (line : LogLine) : Idle (s.writeLog line) :=
  ⟨h.starting, h.stopping, h.ended, h.calm⟩

theorem Idle.notifyReady (h : Idle s) : Idle s.notifyReady := by
  unfold Site.notifyReady
  split
  · exact h
  · exact ⟨h.starting, h.stopping, h.ended, h.calm⟩

theorem ready_notifyReady (s : Site) : s.notifyReady.ready = true := by
  unfold Site.notifyReady
  split
  · assumption
  · rfl

theorem Idle.registerAll (h : Idle s) (queues : List HostedQueue) :
    Idle (registerAll s queues) := by
  induction queues generalizing s with
  | nil => exact h
  | cons q rest ih => exact ih ⟨h.starting, h.stopping, h.ended, h.calm⟩

/-- The line that says that no queues are listed. -/
def unlistedLine : LogLine :=
  line (HostedQueue.listVariable ++ " not set, hosting every queue with one worker") []

/-- Lines with other messages say something else. -/
theorem unlistedLine_ne {x : LogLine} (message : String) (hx : x.message = message)
    (h : unlistedLine.message ≠ message) : unlistedLine ≠ x := by
  rintro rfl
  exact h hx

theorem mem_lines_writeLog {x : LogLine} (s : Site) (line : LogLine) :
    x ∈ (s.writeLog line).log.map (·.line) ↔ x = line ∨ x ∈ s.log.map (·.line) :=
  List.mem_cons

theorem unlisted_registerAll (s : Site) (queues : List HostedQueue) :
    unlistedLine ∈ (registerAll s queues).log.map (·.line) ↔
      unlistedLine ∈ s.log.map (·.line) := by
  induction queues generalizing s with
  | nil => exact Iff.rfl
  | cons q rest ih =>
    apply (ih _).trans
    rw [mem_lines_writeLog]
    exact or_iff_right (unlistedLine_ne "Registered job handler" rfl (by decide))

theorem unlisted_notifyReady (s : Site) : unlistedLine ∈ s.notifyReady.log.map (·.line) ↔
    unlistedLine ∈ s.log.map (·.line) := by
  unfold Site.notifyReady
  split
  · exact Iff.rfl
  · rw [mem_lines_writeLog]
    exact or_iff_right
      (unlistedLine_ne "Storage ready, job hosting unblocked" rfl (by decide))

theorem unlistedLine_ne_firstLine : unlistedLine ≠ (LogOutput.ofEnvironment env).firstLine :=
  unlistedLine_ne "Logging initialized" rfl (by decide)

theorem prepare_of_error (h : HostedQueue.listOfEnvironment env = .error fault) (s : Site) :
    prepare env suffix s = (.error (.badQueues fault),
      { s.writeLog (LogOutput.ofEnvironment env).firstLine with
        timing := Timing.ofEnvironment env }) := by
  rw [prepare, h]

/-- A list that can be read is what a server is told, unless there is nothing on it. -/
theorem prepare_of_ok (suffix : String) (h : HostedQueue.listOfEnvironment env = .ok listed)
    (hseed : env.bytes? seedVariable = none) : ∃ worker site,
      prepare env suffix Site.initial =
        (.ok ⟨if listed = [] then everyQueue else listed, worker⟩, site) ∧
      Idle site ∧ site.ready = true ∧ (unlistedLine ∈ site.log.map (·.line) ↔ listed = []) := by
  have hnone : env.text? seedVariable = none := by
    rw [Environment.text?, hseed]
    rfl
  unfold prepare seed
  simp only [h, hnone]
  have hread : Idle { Site.initial.writeLog (LogOutput.ofEnvironment env).firstLine with
      timing := Timing.ofEnvironment env } :=
    ⟨rfl, rfl, rfl, idle_initial.calm⟩
  refine ⟨_, _, rfl, Idle.notifyReady (Idle.registerAll (Idle.writeLog ?_ _) _),
    ready_notifyReady _, ?_⟩
  · split
    · exact hread.writeLog _
    · exact hread
  · rw [unlisted_notifyReady, unlisted_registerAll, mem_lines_writeLog]
    rw [or_iff_right (unlistedLine_ne "Configuration loaded" rfl (by decide))]
    by_cases hlisted : listed = []
    · simp only [hlisted, iff_true]
      exact List.mem_cons_self
    · simp only [hlisted, iff_false]
      rw [List.mem_map]
      rintro ⟨e, he, heq⟩
      obtain rfl := List.mem_singleton.mp he
      exact unlistedLine_ne_firstLine heq.symm

/-! ## The tasks of a server -/

theorem activities_ensemble (server : Server) (h : Idle s) :
    (server.ensemble s).2.activities =
      [⟨s.nextTask, .eventLog .fresh, none, 0, 0⟩,
        ⟨s.nextTask + 1, .service (.fresh server.queues server.worker s.shutdown), none, 0, 0⟩] ∧
    (server.ensemble s).1 = s.nextTask + 1 := by
  unfold ensemble
  simp [Ensemble.host, Ensemble.ofSite, Ensemble.add, Site.spawn, Ensemble.settle, h.starting,
    h.stopping, Task.ofStart]

theorem site_ensemble {server : Server} (s : Site) :
    (server.ensemble s).2.site =
      { s with starting := [], stopping := [], nextTask := s.nextTask + 2 } := by
  rw [ensemble]
  exact Ensemble.site_settle _

theorem sound_ensemble {server : Server} (h : Idle s) : (server.ensemble s).2.Sound := by
  obtain ⟨hact, -⟩ := activities_ensemble server h
  constructor
  case nodup => simp [Ensemble.ids, hact]
  case bounded =>
    intro a ha
    rw [hact] at ha
    rw [site_ensemble]
    rcases List.mem_pair.mp ha with rfl | rfl
    · exact Nat.lt_add_of_pos_right Nat.two_pos
    · exact Nat.lt_succ_self _
  case starting => rw [site_ensemble]
  case stopping => rw [site_ensemble]

/-- A server whose storage is ready begins with its service about to host its queues. -/
theorem poised_ensemble {server : Server} (h : Idle s) (hready : s.ready = true) :
    Poised (.fresh server.queues server.worker s.shutdown) (server.ensemble s).1 []
      (server.ensemble s).2 := by
  obtain ⟨hact, hid⟩ := activities_ensemble server h
  constructor
  case quiet => simp
  case ready => rwa [site_ensemble]
  case calm =>
    rw [site_ensemble]
    exact h.calm
  case due =>
    refine ⟨_, .fresh, ⟨s.nextTask + 1, .service _, none, 0, 0⟩, ?_, hid.symm, rfl, rfl⟩
    rw [hact]
    exact List.mem_cons_of_mem _ List.mem_cons_self
  case others =>
    intro b hb hbid
    rw [hact] at hb
    rw [hid] at hbid
    rcases List.mem_pair.mp hb with rfl | rfl
    · exact ⟨_, rfl⟩
    · exact absurd rfl hbid

/-- Whatever the order in which its tasks move, a server hosts its queues that are switched on. -/
theorem ensemble_hosts {server : Server} (h : Idle s) (hready : s.ready = true)
    (hcounts : ∀ q ∈ server.queues, 1 ≤ q.workers)
    (hrun : Interleaving lapse (server.ensemble s).2 history sys) :
    Hosts (server.queues.filter (·.enabled)) server.worker (server.ensemble s).1 history sys := by
  have hdeparted : (server.ensemble s).2.Departed := by
    apply Ensemble.departed_of_none
    rw [site_ensemble]
    exact h.ended
  exact hrun.hosts (sound_ensemble h) hdeparted rfl (poised_ensemble h hready) hcounts

/-! ## From the environment to the pools -/

/-- Whether a server that is started in an environment hosts just some queues, as far as they are
switched on, in every run until it is interrupted. -/
def HostsQueues (env : Environment) (suffix : String) (queues : List HostedQueue) : Prop :=
  ∃ worker site, prepare env suffix Site.initial = (.ok ⟨queues, worker⟩, site) ∧
    ∀ lapse history sys, Interleaving lapse (ensemble ⟨queues, worker⟩ site).2 history sys →
      Hosts (queues.filter (·.enabled)) worker (ensemble ⟨queues, worker⟩ site).1 history sys

/-- Whether an environment lists no queues: the variable is not set, or not to valid text, or there
is nothing but blanks between its commas. -/
def ListsNothing (env : Environment) : Prop :=
  env.bytes? HostedQueue.listVariable = none ∨
  (∃ bytes, env.bytes? HostedQueue.listVariable = some bytes ∧ ¬ bytes.IsValidUTF8) ∨
  ∃ text, env.text? HostedQueue.listVariable = some text ∧
    HostedQueue.entries text.toList = []

theorem text?_eq_none_iff {name : String} : env.text? name = none ↔ env.bytes? name = none ∨
    ∃ bytes, env.bytes? name = some bytes ∧ ¬ bytes.IsValidUTF8 := by
  rw [Environment.text?]
  cases env.bytes? name with
  | none => simp
  | some bytes => simp [String.fromUTF8?]

theorem parseList_eq_nil_iff {text : List Char} :
    HostedQueue.parseList text = .ok [] ↔ HostedQueue.entries text = [] := by
  rw [HostedQueue.parseList_eq_ok_iff, List.forall₂_nil_left_iff]

/-- An environment lists nothing just if an empty list is read. -/
theorem listsNothing_iff : ListsNothing env ↔ HostedQueue.listOfEnvironment env = .ok [] := by
  rw [ListsNothing, ← or_assoc, ← text?_eq_none_iff, HostedQueue.listOfEnvironment]
  cases env.text? HostedQueue.listVariable with
  | none => simp
  | some text => simp [parseList_eq_nil_iff]

/-- What a server makes of what it is told to host. -/
structure HostsAsTold (env : Environment) (suffix : String) : Prop where
  /-- Without a list every queue that jobs are meant for has one loop. -/
  unlisted : ListsNothing env → HostsQueues env suffix
    [⟨.exports, true, 1⟩, ⟨.imports, true, 1⟩, ⟨.defrag, true, 1⟩, ⟨.bulkDelete, true, 1⟩,
      ⟨.bulkUpdate, true, 1⟩, ⟨.reindex, true, 1⟩, ⟨.transaction, true, 1⟩]
  /-- It is said in the log that nothing is listed just if so it is. -/
  noted : unlistedLine ∈ (prepare env suffix Site.initial).2.log.map (·.line) ↔ ListsNothing env
  listed : ∀ text queues, env.text? HostedQueue.listVariable = some text →
    HostedQueue.parseList text.toList = .ok queues → queues ≠ [] → HostsQueues env suffix queues
  /-- What is wrong with the list is an error of the configuration, and nothing else is done. -/
  refused : ∀ text fault, env.text? HostedQueue.listVariable = some text →
    HostedQueue.parseList text.toList = .error fault → fault.toError = .config fault.message ∧
    ∀ interrupted fuel, serve env suffix interrupted fuel =
      ⟨[⟨0, none, (LogOutput.ofEnvironment env).firstLine⟩], some (.badQueues fault)⟩
  /-- There is nothing else that a server may be told. -/
  told : ListsNothing env ∨ ∃ text, env.text? HostedQueue.listVariable = some text ∧
    ((∃ queues, HostedQueue.parseList text.toList = .ok queues ∧ queues ≠ []) ∨
      ∃ fault, HostedQueue.parseList text.toList = .error fault)

theorem one_le_workers_of_listOfEnvironment (h : HostedQueue.listOfEnvironment env = .ok listed) :
    ∀ q ∈ listed, 1 ≤ q.workers := by
  rw [HostedQueue.listOfEnvironment] at h
  split at h
  · exact HostedQueue.one_le_workers_of_parseList h
  · cases h
    simp

/-- A server that is not told to seed anything hosts what it is told to host. -/
theorem server_hosts_as_told (env : Environment) (suffix : String)
    (hseeds : env.bytes? seedVariable = none) : HostsAsTold env suffix := by
  have htold : ∀ text, env.text? HostedQueue.listVariable = some text →
      HostedQueue.listOfEnvironment env = HostedQueue.parseList text.toList := by
    intro text htext
    rw [HostedQueue.listOfEnvironment, htext]
  constructor
  case unlisted =>
    intro hnothing
    obtain ⟨worker, site, hprepare, hidle, hready, -⟩ :=
      prepare_of_ok suffix (listsNothing_iff.mp hnothing) hseeds
    have hevery : ∀ q ∈ everyQueue, 1 ≤ q.workers := by decide
    change HostsQueues env suffix everyQueue
    refine ⟨worker, site, hprepare, fun lapse history sys hrun => ?_⟩
    exact ensemble_hosts hidle hready hevery hrun
  case noted =>
    rw [listsNothing_iff]
    cases hlist : HostedQueue.listOfEnvironment env with
    | error fault =>
      rw [prepare_of_error hlist]
      simp [Site.writeLog, Site.initial, unlistedLine_ne_firstLine]
    | ok listed =>
      obtain ⟨worker, site, hprepare, -, -, hline⟩ := prepare_of_ok suffix hlist hseeds
      rw [hprepare, hline, Except.ok.injEq]
  case listed =>
    intro text queues htext hqueues hne
    have hlist := (htold text htext).trans hqueues
    obtain ⟨worker, site, hprepare, hidle, hready, -⟩ :=
      prepare_of_ok suffix hlist hseeds
    rw [if_neg hne] at hprepare
    refine ⟨worker, site, hprepare, fun lapse history sys hrun => ?_⟩
    exact ensemble_hosts hidle hready (one_le_workers_of_listOfEnvironment hlist) hrun
  case refused =>
    intro text fault htext hfault
    refine ⟨rfl, fun interrupted fuel => ?_⟩
    rw [serve, prepare_of_error ((htold text htext).trans hfault)]
    rfl
  case told =>
    rw [listsNothing_iff, HostedQueue.listOfEnvironment]
    cases htext : env.text? HostedQueue.listVariable with
    | none => exact .inl rfl
    | some text =>
      cases hread : HostedQueue.parseList text.toList with
      | error fault => exact .inr ⟨text, rfl, .inr ⟨fault, hread⟩⟩
      | ok queues =>
        by_cases hne : queues = []
        · exact .inl (hread.trans (congrArg Except.ok hne))
        · exact .inr ⟨text, rfl, .inl ⟨queues, hread, hne⟩⟩

/-- An environment with one queue that is switched on and one that is not. -/
def selective : Environment := ⟨[(HostedQueue.listVariable, "export:2,!import".toUTF8)]⟩

theorem server_hosts_as_told_selective :
    selective.bytes? seedVariable = none ∧
      HostsQueues selective "" [⟨.exports, true, 2⟩, ⟨.imports, false, 1⟩] := by
  have hseeds : selective.bytes? seedVariable = none := by decide
  refine ⟨hseeds, ?_⟩
  exact (server_hosts_as_told selective "" hseeds).listed "export:2,!import" _ (by decide)
    (by decide) (by decide)

/-- A variable that is set to what is not text. -/
def unreadable : Environment := ⟨[(HostedQueue.listVariable, ⟨#[255]⟩)]⟩

/-- A server that is told what is not text starts all the same. -/
theorem unreadable_queues_start : ¬ ∀ (env : Environment) (suffix : String) (bytes : ByteArray),
    env.bytes? seedVariable = none → env.bytes? HostedQueue.listVariable = some bytes →
    ¬ bytes.IsValidUTF8 → ∃ fault, (prepare env suffix Site.initial).1 = .error fault := by
  intro h
  obtain ⟨fault, hfault⟩ := h unreadable "" ⟨#[255]⟩ (by decide) rfl (by decide)
  have hnone : HostedQueue.listOfEnvironment unreadable = .ok [] := by decide
  obtain ⟨worker, site, hprepare, -⟩ := prepare_of_ok "" hnone (by decide)
  rw [hprepare] at hfault
  cases hfault

end Server

end LeasedWork.Host
