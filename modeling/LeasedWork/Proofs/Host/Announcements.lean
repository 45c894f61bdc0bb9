import LeasedWork.Proofs.Host.Telling

/-!
# What a pool announces

All tasks send their events to one bus. Of those that a pool sends, in the name of its own task and
of its loops, the first says that it has started, and the last one, after all loops have ended, that
it has stopped. In between, each loop gives one account after the other: what it tells from one lease
to its next call for a job is all there is to tell of that lease.
-/
namespace LeasedWork.Host

open Engine

variable {lapse : Ensemble → Nat → Prop} {start sys : Ensemble} {history before after : List Move}
  {m g n : Move} {a b : Activity} {p : Pool} {l : PollLoop} {x : Execution} {id : TaskId}
  {ids : List TaskId} {job : Job}

/-! ## The events of some tasks -/

/-- The events that the tasks of some numbers send along a history, in their order. -/
def sent (history : List Move) (ids : List TaskId) : List Event :=
  (history.filter fun m => decide (m.mover.id ∈ ids)).flatMap Move.published

theorem sent_append (before after : List Move) (ids : List TaskId) :
    sent (before ++ after) ids = sent before ids ++ sent after ids := by
  simp only [sent, List.filter_append, List.flatMap_append]

theorem sent_singleton_of_mem (h : m.mover.id ∈ ids) : sent [m] ids = m.published := by
  simp [sent, h]

theorem sent_eq_nil (h : ∀ m ∈ history, m.mover.id ∉ ids) : sent history ids = [] := by
  have hnone : history.filter (fun m => decide (m.mover.id ∈ ids)) = [] :=
    List.filter_eq_nil_iff.mpr fun m hm => by simpa using h m hm
  rw [sent, hnone]
  rfl

theorem sent_singleton_of_not_mem (h : m.mover.id ∉ ids) : sent [m] ids = [] :=
  sent_eq_nil fun m' hm' => by rwa [List.mem_singleton.mp hm']

theorem Move.published_of_pool (ht : m.mover.task = .pool p) :
    m.published = (p.deeds m.site).filterMap Deed.event? := by
  rw [published_eq, deeds, ht]
  rfl

theorem Move.published_of_loop (ht : m.mover.task = .loop l) :
    m.published = (l.deeds m.site).filterMap Deed.event? := by
  rw [published_eq, deeds, ht]
  rfl

theorem Move.published_of_executing (ht : m.mover.task = .loop l)
    (hx : l.phase = .executing x) : m.published = (x.deeds m.site).filterMap Deed.event? := by
  rw [published_of_loop ht, PollLoop.deeds, hx]

/-! ## The task of a pool -/

/-- What every move of a task keeps, and one has brought about, holds of that task from then on. -/
theorem Interleaving.task_later {Q : Task → Prop} (h : Interleaving lapse m.after history sys)
    (hs : m.sys.Sound) (hm : m.mover ∈ m.sys.activities) (hstop : ∀ t, Q t → Q t.stop)
    (hfirst : ∀ t, (m.mover.task.step m.site).1.state? = some t → Q t)
    (hstep : ∀ s t t', Q t → (Task.step s t).1.state? = some t' → Q t') :
    ∀ b ∈ sys.activities, b.id = m.mover.id → Q b.task := by
  have hlt := hs.bounded _ hm
  refine h.task_induction (hs.move _ hm) ?_ hstop hstep ?_
  · exact Nat.lt_of_lt_of_le hlt (Ensemble.nextTask_le_move hs _)
  · exact hs.task_move hlt hstop (fun hne => absurd rfl hne) fun _ => hfirst

/-- Whether a task is a pool that works a queue and watches its loops. -/
def Task.WatchesFor (t : Task) (queue : Queue) : Prop :=
  ∃ p f, t = .pool p ∧ p.queue = queue ∧ p.phase = .watching f

theorem Task.WatchesFor.stop {t : Task} {queue : Queue} (h : t.WatchesFor queue) :
    t.stop.WatchesFor queue := by
  obtain ⟨p, f, rfl, hp⟩ := h
  exact ⟨p, f, rfl, hp⟩

theorem Task.watchesFor_of_state? {s : Site} {t : Task}
    (h : ((Task.pool p).step s).1.state? = some t) : t.WatchesFor p.queue := by
  obtain ⟨p', hp', rfl⟩ := state?_within h
  obtain ⟨hqueue, f, hf⟩ := Pool.watching_of_state? hp'
  exact ⟨p', f, rfl, hqueue, hf⟩

/-- Whoever has the number of a pool that has moved is that pool, and watches its loops. -/
theorem Interleaving.watchesFor (h : Interleaving lapse m.after history sys) (hs : m.sys.Sound)
    (hm : m.mover ∈ m.sys.activities) (ht : m.mover.task = .pool p) :
    ∀ b ∈ sys.activities, b.id = m.mover.id → b.task.WatchesFor p.queue := by
  refine h.task_later (Q := (Task.WatchesFor · p.queue)) hs hm (fun _ => .stop) (fun t hstep => ?_) ?_
  · exact Task.watchesFor_of_state? (ht ▸ hstep)
  · rintro s t t' ⟨q, f, rfl, hq, -⟩ hstep
    exact hq ▸ Task.watchesFor_of_state? hstep

/-- A pool that watches its loops says that it has stopped in the move that ends it, and nothing
before. -/
theorem Move.published_of_watchesFor {queue : Queue} (hs : m.sys.Sound)
    (hm : m.mover ∈ m.sys.activities) (h : m.mover.task.WatchesFor queue) :
    m.published = if m.mover.id ∈ m.after.ids then [] else [.workerStopped queue] := by
  obtain ⟨p, f, ht, rfl, hf⟩ := h
  have hthere : m.mover.id ∈ m.after.ids ↔ (p.step m.site).1.end? = none := by
    have hend : (m.mover.task.step m.sys.site).1.end? = (p.step m.site).1.end? := by
      rw [ht, Task.step]
      cases hp : (p.step m.sys.site).1 <;> simp only [site, hp] <;> rfl
    rw [← hend]
    exact (hs.mem_ids_move_of_lt hm (hs.bounded _ hm)).trans
      ⟨fun h => h.2 rfl, fun hgoes => ⟨List.mem_map_of_mem hm, fun _ => hgoes⟩⟩
  rw [published_of_pool ht]
  rcases Pool.events_of_watching (s := m.site) hf with ⟨-, hevents, hend⟩ | ⟨-, hevents, hend⟩
  · rw [hevents, if_pos (hthere.mpr hend)]
  · rw [hevents, if_neg (by rw [hthere, hend]; simp)]

/-- A pool that is about to make its first move has not moved before. -/
theorem Interleaving.unmoved (h : Interleaving lapse start history sys) (hs : start.Sound)
    (hb : b ∈ sys.activities) (ht : b.task = .pool p) (hphase : p.phase = .fresh) :
    ∀ m ∈ history, m.mover.id ≠ b.id := by
  intro m hm hid
  obtain ⟨past, rest, rfl⟩ := List.append_of_mem hm
  obtain ⟨hpast, hmover, -, hrest⟩ := h.split
  have hmoved : ∀ (s : Site) (t t' : Task), (t.step s).1.state? = some t' →
      ∀ q, t' = .pool q → q.phase ≠ .fresh := by
    rintro s t _ hstep q rfl hfresh
    cases t with
    | pool p =>
      obtain ⟨p', f, heq, -, hf⟩ := Task.watchesFor_of_state? hstep
      obtain rfl := Task.pool.inj heq
      exact absurd (hfresh.symm.trans hf) (by simp)
    | _ =>
      obtain ⟨_, -, heq⟩ := state?_within hstep
      exact absurd heq (by simp)
  refine hrest.task_later (Q := fun t => ∀ q, t = .pool q → q.phase ≠ .fresh) (hpast.sound hs)
    hmover (fun t hq q heq => ?_) (hmoved _ _) (fun s t t' _ => hmoved s t t') b hb hid.symm p ht
    hphase
  cases t with
  | heartbeat => exact absurd heq (by simp [Task.stop])
  | _ => exact hq q heq

/-- Whoever moves with the number of a loop that was started is that loop. -/
theorem Interleaving.loop_of_launched (h : Interleaving lapse start (before ++ m :: after) sys)
    (hs : start.Sound) (ht : m.mover.task = .pool p) (hphase : p.phase = .fresh) :
    ∀ n ∈ before ++ m :: after, n.mover.id ∈ m.launched.map (·.1) →
      ∃ l, n.mover.task = .loop l := by
  intro n hn hid
  obtain ⟨hbefore, hm, -, hafter⟩ := h.split
  have hsm := hbefore.sound hs
  obtain ⟨word, hword, hwid⟩ := List.mem_map.mp hid
  have hloop : ∃ l, Task.ofStart word.2 = .loop l := by
    have hmem : word.2 ∈ m.launched.map (·.2) := List.mem_map_of_mem hword
    rw [(Move.launches_of_pool hsm ht hphase).1] at hmem
    obtain ⟨slot, -, hslot⟩ := List.mem_map.mp hmem
    exact ⟨_, by rw [← hslot]; rfl⟩
  obtain ⟨l, hl⟩ := hloop
  have hlater : n ∈ after := by
    have hnot : n ∉ before ++ [m] := fun hmem => hbefore.mover_ne hs hm hid n hmem rfl
    rw [List.append_cons] at hn
    exact (List.mem_append.mp hn).resolve_left hnot
  obtain ⟨past, hpast, hmover, -⟩ := hafter.of_mem hlater
  obtain ⟨b, hb, hbid, htask⟩ := Move.exists_launched hsm hword (by rw [hl]; rfl)
  obtain ⟨l', hl', -⟩ :=
    hpast.sameLoop (hsm.move m.mover hm) hb (htask.trans hl) n.mover hmover (hwid ▸ hbid.symm)
  exact ⟨l', hl'⟩

/-- From its first move on, a pool tells nothing but what its loops tell, and at last that it has
stopped. -/
theorem Interleaving.sent_later (h : Interleaving lapse m.after history sys) (hs : m.sys.Sound)
    (hd : m.sys.Departed) (hm : m.mover ∈ m.sys.activities) (ht : m.mover.task = .pool p)
    (hphase : p.phase = .fresh) :
    sent history (m.mover.id :: m.launched.map (·.1)) = sent history (m.launched.map (·.1)) ++
      if m.mover.id ∈ sys.ids then [] else [.workerStopped p.queue] := by
  have hlaunches := Move.launches_of_pool hs ht hphase
  have hlt := hs.bounded _ hm
  have hnew : m.mover.id ∉ m.launched.map (·.1) := fun hid =>
    absurd (Ensemble.le_of_launched hs hid) (Nat.not_le.mpr hlt)
  induction h with
  | nil =>
    have hgoes : (m.mover.task.step m.sys.site).1.end? = none := by
      obtain ⟨-, t, f, hstep, -⟩ := hlaunches
      have hstep : (m.mover.task.step m.sys.site).1 = .more t := hstep
      rw [hstep]
      rfl
    have hthere : m.mover.id ∈ m.after.ids :=
      (hs.mem_ids_move hm).mpr (.inl ⟨List.mem_map_of_mem hm, fun _ => hgoes⟩)
    rw [if_pos hthere]
    rfl
  | @move history sys a h ha hf ih =>
    have hsound := h.sound (hs.move m.mover hm)
    rw [sent_append, sent_append, ih]
    by_cases hpool : a.id = m.mover.id
    · have hthere : m.mover.id ∈ sys.ids := hpool ▸ List.mem_map_of_mem ha
      rw [if_pos hthere, sent_singleton_of_mem (by simp [hpool]), sent_singleton_of_not_mem
        (by simpa [hpool] using hnew), Move.published_of_watchesFor hsound ha
        (h.watchesFor hs hm ht a ha hpool), List.append_nil]
      exact hpool ▸ rfl
    have hkept : m.mover.id ∈ (sys.move a).ids ↔ m.mover.id ∈ sys.ids := by
      have hbound := Nat.lt_of_lt_of_le hlt (Nat.le_trans (Ensemble.nextTask_le_move hs m.mover)
        (h.nextTask_le (hs.move m.mover hm)))
      refine (hsound.mem_ids_move_of_lt ha hbound).trans (and_iff_left fun heq => ?_)
      exact absurd heq.symm hpool
    by_cases hloop : a.id ∈ m.launched.map (·.1)
    · have hthere : m.mover.id ∈ sys.ids := by
        by_contra hgone
        have hcloses := hlaunches.failsClosed hs hd hm h
        exact hcloses.awaits hgone a.id hloop (List.mem_map_of_mem ha)
      rw [if_pos hthere, if_pos (hkept.mpr hthere),
        sent_singleton_of_mem (List.mem_cons_of_mem _ hloop), sent_singleton_of_mem hloop]
      simp
    · rw [sent_singleton_of_not_mem (by simp [hpool, hloop]), sent_singleton_of_not_mem hloop]
      simp [hkept]
  | pause _ hp ih =>
    rw [hp.ids_eq]
    exact ih

/-- When a pool says that it has stopped, all its loops are gone. -/
theorem Interleaving.gone_of_stopped {queue : Queue} (h : Interleaving lapse m.after history n.sys)
    (hs : m.sys.Sound) (hd : m.sys.Departed) (hm : m.mover ∈ m.sys.activities)
    (ht : m.mover.task = .pool p) (hphase : p.phase = .fresh) (hn : n.mover ∈ n.sys.activities)
    (hfree : n.mover.isFree n.site = true) (hpool : n.mover.id = m.mover.id)
    (htold : .workerStopped queue ∈ n.published) :
    ∀ id ∈ m.launched.map (·.1), id ∉ n.sys.ids := by
  intro id hid hthere
  have hsn := h.sound (hs.move m.mover hm)
  have hgone : m.mover.id ∉ n.after.ids := by
    intro hmem
    rw [Move.published_of_watchesFor hsn hn (h.watchesFor hs hm ht n.mover hn hpool), hpool,
      if_pos hmem] at htold
    exact absurd htold List.not_mem_nil
  have hcloses := (Move.launches_of_pool hs ht hphase).failsClosed hs hd hm (h.move hn hfree)
  refine hcloses.awaits hgone id hid ((hsn.mem_ids_move hn).mpr (.inl ⟨hthere, fun heq => ?_⟩))
  have hle := Ensemble.le_of_launched hs hid
  exact absurd (hs.bounded _ hm) (Nat.not_lt.mpr (hpool ▸ heq ▸ hle))

/-! ## The account of a lease -/

/-- Whether a move is one of the loop of a number in the middle of a call for a job. -/
def Move.Polls (m : Move) (id : TaskId) : Prop :=
  m.mover.id = id ∧ ∃ l, m.mover.task = .loop l ∧ l.Polls

/-- Whether the loop of a number executes a job, and has told in some moves what its execution has
told so far. -/
def Underway (history : List Move) (sys : Ensemble) (id : TaskId) (job : Job) : Prop :=
  ∃ b ∈ sys.activities, b.id = id ∧ ∃ l x, b.task = .loop l ∧ l.phase = .executing x ∧
    x.job = job ∧ sent history [id] = x.toldSoFar

/-- Whether the loop of a number is through with a job in one of some moves, and has told in them
all that there is to tell of it. -/
def FullyTold (history : List Move) (id : TaskId) (job : Job) : Prop :=
  ∃ e ∈ history, e.mover.id = id ∧ ∃ l x, e.mover.task = .loop l ∧ l.phase = .executing x ∧
    x.job = job ∧ x.Account e.site (sent history [id])

/-- Whether a task is a loop that executes no job. -/
def Task.IsDisengaged (t : Task) : Prop := ∃ l, t = .loop l ∧ ∀ x, l.phase ≠ .executing x

theorem Task.IsDisengaged.stop {t : Task} (h : t.IsDisengaged) : t.stop.IsDisengaged := by
  obtain ⟨l, rfl, hx⟩ := h
  exact ⟨l, rfl, hx⟩

/-- A loop that executes no job does not execute one after its next move, unless it is in the middle
of a call for one. -/
theorem Task.IsDisengaged.of_state? {s : Site} {t t' : Task} (h : t.IsDisengaged)
    (hpolls : ∀ l, t = .loop l → ¬ l.Polls) (hstep : (t.step s).1.state? = some t') :
    t'.IsDisengaged := by
  obtain ⟨l, rfl, hx⟩ := h
  obtain ⟨l', hl', rfl⟩ := state?_within hstep
  refine ⟨l', rfl, fun x' hx' => ?_⟩
  rcases executing_of_loop hl' hx' with ⟨x, hbefore, -⟩ | ⟨expired, job, -, hphase, -⟩
  · exact hx x hbefore
  · exact hpolls l rfl (PollLoop.polls_iff.mpr ⟨expired, .underway false, hphase⟩)

/-- A loop that executes a job does not call for one. -/
theorem Underway.not_polls (h : Underway history n.sys id job) (hs : n.sys.Sound)
    (hn : n.mover ∈ n.sys.activities) : ¬ n.Polls id := by
  rintro ⟨hid, l, ht, stage, hphase⟩
  obtain ⟨b, hb, hbid, l', x, ht', hx, -⟩ := h
  obtain rfl := Ensemble.eq_of_id_eq hs.nodup hb hn (hbid.trans hid.symm)
  obtain rfl := Task.loop.inj (ht.symm.trans ht')
  rcases hphase with hphase | hphase <;> exact absurd (hx.symm.trans hphase) (by simp)

/-- A loop that has just been given a job has told nothing of it. -/
theorem Move.underway_of_obtains (hs : g.sys.Sound) (hg : g.mover ∈ g.sys.activities)
    (ht : g.mover.task = .loop l) (hobtains : g.mover.task.Obtains g.site job) :
    Underway [] g.after g.mover.id job := by
  rw [ht] at hobtains
  obtain ⟨b, hb, hid, htask⟩ :=
    hs.exists_move_of_state? hg (t := .loop { l with phase := .executing (.fresh job l.pool) })
      (ht ▸ hobtains.state?_loop) rfl
  exact ⟨b, hb, hid, _, _, htask, rfl, rfl, rfl⟩

theorem Underway.move (h : Underway history sys id job) (hs : sys.Sound) (ha : a ∈ sys.activities)
    (hk : ∀ x, a.task.execution? = some x → x.KeepsRecord)
    (hcalm : ∀ l, a.task = .loop l → ¬ l.BreaksDown sys.site) :
    Underway (history ++ [⟨sys, a⟩]) (sys.move a) id job ∨
      FullyTold (history ++ [⟨sys, a⟩]) id job ∧
        ∀ b ∈ (sys.move a).activities, b.id = id → b.task.IsDisengaged := by
  obtain ⟨b, hb, rfl, l, x, ht, hx, rfl, htold⟩ := h
  by_cases hid : b.id = a.id
  · obtain rfl := Ensemble.eq_of_id_eq hs.nodup hb ha hid
    have hsent : sent (history ++ [⟨sys, b⟩]) [b.id] =
        x.toldSoFar ++ (x.deeds sys.site).filterMap Deed.event? := by
      rw [sent_append, htold, sent_singleton_of_mem (List.mem_singleton_self _),
        Move.published_of_executing ht hx]
      rfl
    have hgoes : ∀ x', (x.step sys.site).1.state? = some x' →
        Underway (history ++ [⟨sys, b⟩]) (sys.move b) b.id x.job := by
      intro x' hx'
      have hl' := Task.state?_loop (PollLoop.state?_of_executing hx hx')
      obtain ⟨c, hc, hcid, htask⟩ := hs.exists_move_of_state? hb (ht ▸ hl') rfl
      exact ⟨c, hc, hcid, _, x', htask, rfl, (Execution.goes_of_state? hx').job_eq.1,
        hsent.trans (Execution.told_of_state? hx')⟩
    cases hp : (x.step sys.site).1 with
    | more x' => exact .inl (hgoes x' (by rw [hp]; rfl))
    | wait w x' => exact .inl (hgoes x' (by rw [hp]; rfl))
    | done result =>
      right
      have hrecord := hk x (by rw [ht]; simp [Task.execution?, hx])
      refine ⟨⟨⟨sys, b⟩, by simp, rfl, l, x, ht, hx, rfl, hsent ▸ x.account_of_done hrecord hp⟩, ?_⟩
      have htop := Task.state?_loop (PollLoop.state?_of_concluded hx hp)
      refine hs.task_move (hs.bounded b hb) (fun _ => .stop) (fun hne => absurd rfl hne)
        fun _ t hstep => ?_
      rw [ht, htop] at hstep
      exact Option.some.inj hstep ▸ ⟨_, rfl, by simp⟩
    | crash =>
      refine absurd ((x.step_eq_crash_iff sys.site).mp hp) ?_
      simpa [PollLoop.BreaksDown, hx] using hcalm l ht
  · obtain ⟨c, hc, hcid, htask⟩ := hs.exists_move_of_ne hb hid (by rw [ht]; rfl)
    refine .inl ⟨c, hc, hcid, l, x, htask.trans ht, hx, rfl, ?_⟩
    rw [sent_append, sent_singleton_of_not_mem (by simpa using Ne.symm hid), List.append_nil, htold]

theorem FullyTold.move (h : FullyTold history id job) (hs : sys.Sound) (ha : a ∈ sys.activities)
    (hlt : id < sys.site.nextTask)
    (hidle : ∀ b ∈ sys.activities, b.id = id → b.task.IsDisengaged)
    (hquiet : ¬ Move.Polls ⟨sys, a⟩ id) :
    FullyTold (history ++ [⟨sys, a⟩]) id job ∧
      ∀ b ∈ (sys.move a).activities, b.id = id → b.task.IsDisengaged := by
  have hnothing : sent [⟨sys, a⟩] [id] = [] := by
    by_cases hid : a.id = id
    · obtain ⟨l, ht, hx⟩ := hidle a ha hid
      rw [sent_singleton_of_mem (by simp [hid]), Move.published_of_loop ht,
        PollLoop.events_of_idle hx]
    · exact sent_singleton_of_not_mem (by simp [hid])
  constructor
  · obtain ⟨e, he, hid, l, x, ht, hx, hjob, haccount⟩ := h
    refine ⟨e, List.mem_append_left _ he, hid, l, x, ht, hx, hjob, ?_⟩
    rwa [sent_append, hnothing, List.append_nil]
  · refine hs.task_move hlt (fun _ => .stop) (fun _ => hidle) fun hid t hstep => ?_
    exact (hidle a ha hid.symm).of_state? (fun l hl hpolls => hquiet ⟨hid.symm, l, hl, hpolls⟩) hstep

/-- As long as a loop does not call for another job, it executes the one that it was given, or has
told all that there is to tell of it. -/
theorem Interleaving.lease_told {between : List Move}
    (hbefore : Interleaving lapse start before g.sys) (hstart : start.Opening)
    (hg : g.mover ∈ g.sys.activities) (hfree : g.mover.isFree g.site = true)
    (ht : g.mover.task = .loop l) (hobtains : g.mover.task.Obtains g.site job)
    (h : Interleaving lapse g.after between sys)
    (hcalm : ∀ c ∈ between, ∀ l, c.mover.task = .loop l → ¬ l.BreaksDown c.site)
    (hquiet : ∀ c ∈ between, ¬ c.Polls g.mover.id) :
    Underway between sys g.mover.id job ∨ FullyTold between g.mover.id job ∧
      ∀ b ∈ sys.activities, b.id = g.mover.id → b.task.IsDisengaged := by
  have hsg := hbefore.sound hstart.toSound
  have hsound := hsg.move g.mover hg
  have hlt := Nat.lt_of_lt_of_le (hsg.bounded _ hg) (Ensemble.nextTask_le_move hsg g.mover)
  induction h with
  | nil => exact .inl (Move.underway_of_obtains hsg hg ht hobtains)
  | @move between sys a h ha _ ih =>
    have hs := h.sound hsound
    have hmem : (⟨sys, a⟩ : Move) ∈ between ++ [⟨sys, a⟩] := by simp
    have hrun := (hbefore.move hg hfree).append h
    rcases ih (fun c hc => hcalm c (List.mem_append_left _ hc))
      (fun c hc => hquiet c (List.mem_append_left _ hc)) with hunder | ⟨htold, hidle⟩
    · exact hunder.move hs ha (hrun.keepsRecord hstart a ha) (hcalm _ hmem)
    · exact .inr (htold.move hs ha (Nat.lt_of_lt_of_le hlt (h.nextTask_le hsound)) hidle
        (hquiet _ hmem))
  | pause _ hp ih =>
    rcases ih hcalm hquiet with ⟨b, hb, hid, l', x, ht', hunder⟩ | ⟨htold, hidle⟩
    · obtain ⟨c, hc, hcid, htask, -⟩ := hp.exists_activity hb
      exact .inl ⟨c, hc, hcid.trans hid, l', x, htask.trans ht', hunder⟩
    · refine .inr ⟨htold, fun b hb hid => ?_⟩
      obtain ⟨c, hc, hcid, htask⟩ := hp.exists_task hb
      exact htask ▸ hidle c hc (hcid.trans hid)

/-! ## The jobs that loops tell of -/

/-- The job of an execution was obtained by the task that executes it. -/
theorem Interleaving.obtained (h : Interleaving lapse start history sys) (hs : start.Opening) :
    ∀ b ∈ sys.activities, ∀ x, b.task.execution? = some x →
      ∃ g ∈ history, g.mover.id = b.id ∧ g.mover.task.Obtains g.site x.job := by
  induction h with
  | nil =>
    intro b hb x hx
    exact absurd ((hs.fresh b hb).execution?.symm.trans hx) (by simp)
  | @move history sys a h ha _ ih =>
    intro b hb x hx
    rcases (h.sound hs.toSound).job_move ha hb hx with ⟨c, hc, hid, y, hy, hjob⟩ | ⟨hid, hobtains⟩
    · obtain ⟨g, hg, hgid, hobtains⟩ := ih c hc y hy
      exact ⟨g, List.mem_append_left _ hg, hgid.trans hid, hjob ▸ hobtains⟩
    · exact ⟨⟨sys, a⟩, by simp, hid.symm, hobtains⟩
  | pause _ hp ih =>
    intro b hb x hx
    obtain ⟨c, hc, hid, htask⟩ := hp.exists_task hb
    obtain ⟨g, hg, hgid, hobtains⟩ := ih c hc x (htask ▸ hx)
    exact ⟨g, hg, hgid.trans hid, hobtains⟩

/-- A loop tells only of jobs that it has obtained. -/
theorem Interleaving.told_of_obtained (h : Interleaving lapse start history n.sys)
    (hs : start.Opening) (hn : n.mover ∈ n.sys.activities) (ht : n.mover.task = .loop l)
    {e : Event} (he : e ∈ n.published) : ∃ g ∈ history, g.mover.id = n.mover.id ∧
      ∃ job, g.mover.task.Obtains g.site job ∧ e.job? = some job.id ∧ e.queue = job.queue := by
  by_cases hx : ∃ x, l.phase = .executing x
  · obtain ⟨x, hx⟩ := hx
    have hexecution : n.mover.task.execution? = some x := by
      rw [ht]
      simp only [Task.execution?, hx]
    rw [Move.published_of_executing ht hx] at he
    obtain ⟨g, hg, hid, hobtains⟩ := h.obtained hs n.mover hn x hexecution
    exact ⟨g, hg, hid, x.job, hobtains, x.of_mem_told (h.keepsRecord hs n.mover hn x hexecution) he⟩
  · rw [Move.published_of_loop ht, PollLoop.events_of_idle (not_exists.mp hx)] at he
    exact absurd he List.not_mem_nil

/-! ## All that a pool sends -/

/-- That a pool announces what it does, its first move being given. -/
structure PoolAnnounces (history : List Move) (sys : Ensemble) (m : Move) (queue : Queue) :
    Prop where
  /-- The pool says that it has started, then its loops tell what they do, and if its task is gone
  it has said after all this that it has stopped. -/
  whole : sent history (m.mover.id :: m.launched.map (·.1)) =
    .workerStarted queue :: sent history (m.launched.map (·.1)) ++
      if m.mover.id ∈ sys.ids then [] else [.workerStopped queue]
  /-- When it says that it has stopped, all its loops are gone. -/
  last : ∀ n ∈ history, n.mover.id = m.mover.id → .workerStopped queue ∈ n.published →
    ∀ id ∈ m.launched.map (·.1), id ∉ n.sys.ids
  /-- What a loop tells is about a job that it has obtained before. -/
  founded : ∀ before n after, history = before ++ n :: after →
    n.mover.id ∈ m.launched.map (·.1) → ∀ e ∈ n.published,
    ∃ g ∈ before, g.mover.id = n.mover.id ∧
      ∃ job, g.mover.task.Obtains g.site job ∧ e.job? = some job.id ∧ e.queue = job.queue
  /-- From a lease to its next call for a job, a loop tells all that there is to tell of that lease
  and nothing else. -/
  accounts : ∀ before g between n after, history = before ++ g :: (between ++ n :: after) →
    g.mover.id ∈ m.launched.map (·.1) → ∀ job, g.mover.task.Obtains g.site job →
    (∀ c ∈ between, ¬ c.Polls g.mover.id) → n.Polls g.mover.id → FullyTold between g.mover.id job
  /-- If it does not call for a job again, it still executes the last one or has told all of it. -/
  latest : ∀ before g between, history = before ++ g :: between →
    g.mover.id ∈ m.launched.map (·.1) → ∀ job, g.mover.task.Obtains g.site job →
    (∀ c ∈ between, ¬ c.Polls g.mover.id) →
    Underway between sys g.mover.id job ∨ FullyTold between g.mover.id job

/-- Whatever the order in which tasks move, and whatever the store answers as long as no call of a
loop breaks down: a pool announces its start, everything that comes of each of its leases, and its
end. -/
theorem pools_announce (hstart : start.Opening) (hended : start.site.ended = [])
    (h : Interleaving lapse start history sys)
    (hcalm : ∀ n ∈ history, ∀ l, n.mover.task = .loop l → ¬ l.BreaksDown n.site) :
    ∀ m ∈ history, ∀ p, m.mover.task = .pool p → p.phase = .fresh →
      PoolAnnounces history sys m p.queue := by
  intro m hm p ht hphase
  have hs := hstart.toSound
  have hd := Ensemble.departed_of_none hended
  obtain ⟨first, later, hhistory⟩ := List.append_of_mem hm
  have hrun := hhistory ▸ h
  obtain ⟨hfirst, hmover, hmfree, hlater⟩ := hrun.split
  have hsm := hfirst.sound hs
  have hdm := hfirst.departed hs hd
  have hloops : ∀ n ∈ history, n.mover.id ∈ m.launched.map (·.1) → ∃ l, n.mover.task = .loop l :=
    hhistory ▸ hrun.loop_of_launched hs ht hphase
  have hunmoved := hfirst.unmoved hs hmover ht hphase
  have hbefore : ∀ c ∈ first ++ [m], c.mover.id ∉ m.launched.map (·.1) := fun c hc hid =>
    hfirst.mover_ne hs hmover hid c hc rfl
  have hpublished : m.published = [.workerStarted p.queue] := by
    rw [Move.published_of_pool ht, Pool.events_of_fresh hphase]
  constructor
  case whole =>
    have hnone : sent first (m.mover.id :: m.launched.map (·.1)) = [] := by
      refine sent_eq_nil fun c hc hid => ?_
      rcases List.mem_cons.mp hid with heq | hid
      · exact hunmoved c hc heq
      · exact hbefore c (List.mem_append_left _ hc) hid
    rw [hhistory, List.append_cons, sent_append, sent_append _ later, sent_append, hnone,
      sent_singleton_of_mem List.mem_cons_self, hpublished, sent_eq_nil hbefore,
      hlater.sent_later hsm hdm hmover ht hphase]
    rfl
  case last =>
    intro n hn hid hstopped
    rcases List.mem_append.mp (hhistory ▸ hn) with hn | hn
    · exact absurd hid (hunmoved n hn)
    rcases List.mem_cons.mp hn with rfl | hn
    · rw [hpublished] at hstopped
      exact absurd hstopped (by simp)
    · obtain ⟨between, after, rfl⟩ := List.append_of_mem hn
      obtain ⟨hbetween, hnmover, hnfree, -⟩ := hlater.split
      exact hbetween.gone_of_stopped hsm hdm hmover ht hphase hnmover hnfree hid hstopped
  case founded =>
    rintro before n after rfl hid e he
    obtain ⟨hpast, hn, -, -⟩ := h.split
    obtain ⟨l, hl⟩ := hloops n (by simp) hid
    exact hpast.told_of_obtained hstart hn hl he
  case accounts =>
    rintro before g between n after rfl hid job hobtains hquiet hpolls
    obtain ⟨hpast, hg, hfree, hafter⟩ := h.split
    obtain ⟨hbetween, hn, -, -⟩ := hafter.split
    obtain ⟨l, hl⟩ := hloops g (by simp) hid
    rcases hpast.lease_told hstart hg hfree hl hobtains hbetween
      (fun c hc => hcalm c (by simp [hc])) hquiet with hunder | ⟨htold, -⟩
    · exact absurd hpolls (hunder.not_polls (hbetween.sound ((hpast.sound hs).move g.mover hg)) hn)
    · exact htold
  case latest =>
    rintro before g between rfl hid job hobtains hquiet
    obtain ⟨hpast, hg, hfree, hbetween⟩ := h.split
    obtain ⟨l, hl⟩ := hloops g (by simp) hid
    refine (hpast.lease_told hstart hg hfree hl hobtains hbetween (fun c hc => ?_) hquiet).imp_right
      And.left
    exact hcalm c (by simp [hc])

/-! ## A pool with two leases -/

/-- A pool of two loops, and two jobs for it. The handler returns at once for the first, and waits for
shutdown with the second. -/
def twoLeases : Ensemble :=
  let script : Handler := .scripted 0 "script"
    [⟨[], .returns (.ok "done")⟩, ⟨[.sleepOrCancel 60000], .returns (.ok "late")⟩]
  let queued := (Store.empty Store.defaultRetries).enqueue .exports "" none Site.start
  let site :=
    { Site.initial with
      store := (queued.2.enqueue .exports "" none Site.start).2, ready := true
      registry := Registry.empty.register .exports none script }
  ((Ensemble.ofSite site).host (.timeline (.ofList [(5000, .shutdown)]))).host
    (.pool (.fresh .exports 2 "a" site.shutdown))

/-- Both jobs are begun before the first is over, and shutdown ends the second and the pool. -/
def twoLeasesTurns : List Turn :=
  [Turn.go 0, .go 1, .go 1, .go 2, .go 3, .pass 1000] ++ List.replicate 6 (Turn.go 2) ++
    List.replicate 6 (Turn.go 3) ++ List.replicate 5 (Turn.go 2) ++
    [Turn.go 4, .go 5, .pass 5000, .go 0] ++ [Turn.go 3, .go 3, .go 2] ++
    List.replicate 3 (Turn.go 1)

theorem opening_twoLeases : twoLeases.Opening := by
  refine ((Ensemble.opening_ofSite rfl rfl ?_).host ?_).host ?_
  · exact fun t ht => absurd ht List.not_mem_nil
  · exact trivial
  · rfl

/-- A loop that breaks down in a move ends in it. -/
theorem Move.end?_of_breaksDown (ht : m.mover.task = .loop l) (h : l.BreaksDown m.site) :
    (m.mover.task.step m.site).1.end? = some true := by
  have hcrash := (l.step_eq_crash_iff m.site).mpr h
  rw [ht]
  simp only [Task.step, hcrash]
  rfl

theorem pools_announce_two_leases :
    let run := twoLeases.follow anytime twoLeasesTurns
    sent run.1 [1, 2, 3] = [.workerStarted .exports, .jobStarted 1 .exports, .jobStarted 2 .exports,
      .jobCompleted 1 .exports, .jobInterrupted 2 .exports, .workerStopped .exports] ∧
    ∃ m ∈ run.1, m.mover.id = 1 ∧ m.launched.map (·.1) = [2, 3] ∧
      PoolAnnounces run.1 run.2 m .exports := by
  intro run
  have hcalm : ∀ n ∈ run.1, ∀ l, n.mover.task = .loop l → ¬ l.BreaksDown n.site := by
    intro n hn l ht hbreaks
    have hends : run.1.all (fun n => (n.mover.task.step n.site).1.end? != some true) = true := by
      decide +kernel
    have hn := List.all_eq_true.mp hends n hn
    rw [Move.end?_of_breaksDown ht hbreaks] at hn
    exact absurd hn (by simp)
  have hannounce := pools_announce opening_twoLeases rfl
    (Ensemble.interleaving_follow anytime twoLeasesTurns twoLeases) hcalm
  refine ⟨by decide +kernel, ?_⟩
  have hrun : run.1.any (fun m => m.mover.id == 1 && m.launched.map (·.1) == [2, 3] &&
      m.mover.task.unmovedPool?.any (·.queue == .exports)) = true := by
    decide +kernel
  obtain ⟨m, hm, hpool⟩ := List.any_eq_true.mp hrun
  simp only [Bool.and_eq_true, beq_iff_eq] at hpool
  obtain ⟨⟨hid, hlaunched⟩, hfirst⟩ := hpool
  obtain ⟨p, hp, hqueue⟩ := (Option.any_eq_true _ _).mp hfirst
  obtain ⟨ht, hphase⟩ := Task.of_unmovedPool? hp
  exact ⟨m, hm, hid, hlaunched, eq_of_beq hqueue ▸ hannounce m hm p ht hphase⟩

end LeasedWork.Host
