import LeasedWork.Proofs.Host.Containment

/-!
# Hosting fails closed

The first loop of a pool to end closes the pool, and the first pool of the service to end closes
the others; either is over only when all that it started has ended. Whoever holds the handle of a
pool and asks it to shut down is answered then, and no sooner. The token that the caller shuts down
by is never cancelled for it.
-/
namespace LeasedWork.Host

open Engine

variable {lapse : Ensemble → Nat → Prop} {start sys next : Ensemble}
  {history before after : List Move} {m : Move} {a b : Activity} {id : TaskId} {s : Site}
  {scope : Token} {ids : List TaskId} {p : Pool} {f : Fleet}

/-! ## What becomes of a task that was started -/

theorem Interleaving.nextTask_le (h : Interleaving lapse start history sys) (hs : start.Sound) :
    start.site.nextTask ≤ sys.site.nextTask := by
  induction h with
  | nil => exact Nat.le_refl _
  | @move _ _ a h _ _ ih => exact Nat.le_trans ih (Ensemble.nextTask_le_move (h.sound hs) a)
  | pause _ hp ih =>
    obtain ⟨clock, -, hsite⟩ := hp.site_eq
    rw [hsite]
    exact ih

/-- What every move of a task keeps is kept of the task of a number. -/
theorem Interleaving.task_induction {Q : Task → Prop} (h : Interleaving lapse start history sys)
    (hs : start.Sound) (hid : id < start.site.nextTask) (hstop : ∀ t, Q t → Q t.stop)
    (hstep : ∀ s t t', Q t → (Task.step s t).1.state? = some t' → Q t')
    (hstart : ∀ b ∈ start.activities, b.id = id → Q b.task) :
    ∀ b ∈ sys.activities, b.id = id → Q b.task := by
  induction h with
  | nil => exact hstart
  | @move history sys a h ha _ ih =>
    refine (h.sound hs).task_move (Nat.lt_of_lt_of_le hid (h.nextTask_le hs)) hstop (fun _ => ih) ?_
    exact fun hmoves t ht => hstep _ _ _ (ih a ha hmoves.symm) ht
  | pause _ hp ih =>
    intro b hb hbid
    obtain ⟨c, hc, hcid, htask⟩ := hp.exists_task hb
    exact htask ▸ ih c hc (hcid.trans hbid)

/-- Who has moved before a task is started is another one. -/
theorem Interleaving.mover_ne (h : Interleaving lapse start history m.sys) (hs : start.Sound)
    (ha : m.mover ∈ m.sys.activities) (hid : id ∈ m.launched.map (·.1)) :
    ∀ m' ∈ history ++ [m], m'.mover.id ≠ id := by
  intro m' hm'
  have hle : m.sys.site.nextTask ≤ id := Ensemble.le_of_launched (h.sound hs) hid
  suffices hlt : m'.mover.id < m.sys.site.nextTask from Nat.ne_of_lt (Nat.lt_of_lt_of_le hlt hle)
  rcases List.mem_append.mp hm' with hm' | hm'
  · obtain ⟨before, after, rfl⟩ := List.append_of_mem hm'
    obtain ⟨hbefore, hmover, -, hafter⟩ := h.split
    have hsound := hbefore.sound hs
    have hnext := hafter.nextTask_le (hsound.move m'.mover hmover)
    have hmove := Ensemble.nextTask_le_move hsound m'.mover
    exact Nat.lt_of_lt_of_le (hsound.bounded m'.mover hmover) (Nat.le_trans hmove hnext)
  · obtain rfl := List.mem_singleton.mp hm'
    exact (h.sound hs).bounded m'.mover ha

theorem Move.exists_launched (hs : m.sys.Sound) {word : TaskId × Start} (h : word ∈ m.launched)
    (hstop : (Task.ofStart word.2).stop = Task.ofStart word.2) :
    ∃ b ∈ m.after.activities, b.id = word.1 ∧ b.task = .ofStart word.2 := by
  refine ⟨_, hs.mem_move_of_start (List.mem_reverse.mp h), Activity.id_heeding _ _, ?_⟩
  exact Activity.task_heeding (Activity.started word) hstop

/-- A task that cannot be stopped has not moved yet and is as it was, or has moved first as it
was. -/
theorem Interleaving.untouched_or_begun (h : Interleaving lapse start history sys)
    (hs : start.Sound) (hb : b ∈ start.activities) (hstop : b.task.stop = b.task) :
    (∃ c ∈ sys.activities, c.id = b.id ∧ c.task = b.task ∧ (b.wait = none → c.wait = none)) ∧
      (∀ m ∈ history, m.mover.id ≠ b.id) ∨
    ∃ before m after, history = before ++ m :: after ∧ (∀ m' ∈ before, m'.mover.id ≠ b.id) ∧
      m.mover.id = b.id ∧ m.mover.task = b.task := by
  induction h with
  | nil => exact .inl ⟨⟨b, hb, rfl, rfl, id⟩, by simp⟩
  | @move history sys a h ha _ ih =>
    rcases ih with ⟨⟨c, hc, hid, htask, hwait⟩, hnone⟩ | ⟨before, m, after, rfl, hm⟩
    · by_cases hmoves : c.id = a.id
      · obtain rfl := Ensemble.eq_of_id_eq (h.sound hs).nodup hc ha hmoves
        exact .inr ⟨history, ⟨sys, c⟩, [], rfl, hnone, hid, htask⟩
      · refine .inl ⟨⟨_, (h.sound hs).mem_move_of_ne hc hmoves, (c.id_heeding _).trans hid,
          (c.task_heeding (by rw [htask, hstop])).trans htask,
          fun hnone => Activity.wait_heeding (hwait hnone)⟩, fun m hm => ?_⟩
        rcases List.mem_append.mp hm with hm | hm
        · exact hnone m hm
        · rw [List.mem_singleton.mp hm, ← hid]
          exact fun heq => hmoves heq.symm
    · exact .inr ⟨before, m, after ++ [⟨sys, a⟩], by simp, hm⟩
  | pause _ hp ih =>
    refine ih.imp_left fun hwaits => ⟨?_, hwaits.2⟩
    obtain ⟨c, hc, hid, htask, hwait⟩ := hwaits.1
    obtain ⟨d, hd, hdid, hdtask, hdwait⟩ := hp.exists_activity hc
    refine ⟨d, hd, hdid.trans hid, hdtask.trans htask, fun hnone => ?_⟩
    exact Option.eq_none_iff_forall_not_mem.mpr fun w hw =>
      absurd ((hwait hnone).symm.trans (hdwait w hw)) (by simp)

/-- A task that cannot be stopped has not moved yet, or has moved first as it was. -/
theorem Interleaving.begun (h : Interleaving lapse start history sys) (hs : start.Sound)
    (hb : b ∈ start.activities) (hstop : b.task.stop = b.task) :
    (∃ c ∈ sys.activities, c.id = b.id ∧ c.task = b.task) ∨
    ∃ before m after, history = before ++ m :: after ∧ (∀ m' ∈ before, m'.mover.id ≠ b.id) ∧
      m.mover.id = b.id ∧ m.mover.task = b.task := by
  refine (h.untouched_or_begun hs hb hstop).imp_left fun hwaits => ?_
  obtain ⟨c, hc, hid, htask, -⟩ := hwaits.1
  exact ⟨c, hc, hid, htask⟩

/-- A task that watches a fleet starts no others. -/
theorem Move.launched_of_fleet? (hs : m.sys.Sound) (hf : m.mover.task.fleet? = some f) :
    m.launched = [] := by
  refine List.eq_nil_iff_forall_not_mem.mpr fun word hword => ?_
  have hspawn : .spawn word.2 ∈ m.mover.task.deeds m.site :=
    Move.spawn_of_starting hs (List.mem_reverse.mp hword)
  have hfleet : ∀ (s : Site) (f : Fleet), .spawn word.2 ∉ f.deeds s := by
    intro s f
    unfold Fleet.deeds
    split <;> simp
  cases ht : m.mover.task with
  | pool p =>
    rw [ht] at hf hspawn
    cases hphase : p.phase with
    | fresh => simp [Task.fleet?, hphase] at hf
    | watching loops =>
      simp only [Task.deeds, Pool.deeds, hphase] at hspawn
      rcases List.mem_append.mp hspawn with hspawn | hspawn
      · exact hfleet _ _ hspawn
      · split at hspawn <;> simp at hspawn
  | service v =>
    rw [ht] at hf hspawn
    cases hphase : v.phase with
    | watching pools =>
      simp only [Task.deeds, Service.deeds, hphase] at hspawn
      exact hfleet _ _ hspawn
    | _ => simp [Task.fleet?, hphase] at hf
  | _ => simp [Task.fleet?, ht] at hf

/-- A task that has launched a fleet starts no others after that. -/
theorem Move.Launches.launched_later {starts : List Start} (h : m.Launches scope starts)
    (hs : m.sys.Sound) (hd : m.sys.Departed) (ha : m.mover ∈ m.sys.activities)
    (hlater : Interleaving lapse m.after history sys) {n : Move} (hn : n ∈ history)
    (hid : n.mover.id = m.mover.id) : n.launched = [] := by
  have hs' : m.after.Sound := hs.move m.mover ha
  have hd' : m.after.Departed := hd.move hs ha
  obtain ⟨past, hpast, hmover, -⟩ := hlater.of_mem hn
  rcases hpast.watched hs' hd' (h.watched hs ha) with ⟨c, hc, hcid, f, hf, -⟩ | ⟨hended, -⟩
  · have hsn := hpast.sound hs'
    obtain rfl := Ensemble.eq_of_id_eq hsn.nodup hc hmover (hcid.trans hid.symm)
    exact Move.launched_of_fleet? hsn hf
  · have hgone := (hpast.departed hs' hd').gone m.mover.id hended
    exact absurd (hid ▸ List.mem_map_of_mem hmover) hgone

/-! ## Pools that have wound down -/

/-- Whether the task of a number began as a pool and did not break down, and all that it has
started is gone. -/
structure Wound (history : List Move) (sys : Ensemble) (id : TaskId) (p : Pool) : Prop where
  begun : ∃ m ∈ history, m.mover.id = id ∧ m.mover.task = .pool p
  calm : (id, true) ∉ sys.site.ended
  gone : ∀ m ∈ history, m.mover.id = id → ∀ loop ∈ m.launched, loop.1 ∉ sys.ids

/-- A pool that is gone has wound down. -/
theorem Interleaving.wound (h : Interleaving lapse start (before ++ m :: after) sys)
    (hs : start.Sound) (hd : start.Departed) {word : TaskId × Start} (hword : word ∈ m.launched)
    (hp : Task.ofStart word.2 = .pool p) (hgone : word.1 ∉ sys.ids) :
    Wound (before ++ m :: after) sys word.1 p := by
  have hphase : p.phase = .fresh := by
    obtain ⟨id, start⟩ := word
    cases start <;> simp only [Task.ofStart, Task.pool.injEq, reduceCtorEq] at hp
    rw [← hp]
    rfl
  obtain ⟨hbefore, hm, -, hafter⟩ := h.split
  have hsm : m.sys.Sound := hbefore.sound hs
  have hsa : m.after.Sound := hsm.move m.mover hm
  have hda : m.after.Departed := (hbefore.departed hs hd).move hsm hm
  have hothers := hbefore.mover_ne hs hm (List.mem_map_of_mem hword)
  -- the pool was there, so it has moved since, first as it was started
  obtain ⟨b, hb, hid, htask⟩ := Move.exists_launched hsm hword (by rw [hp]; rfl)
  rcases hafter.begun hsa hb (by rw [htask, hp]; rfl) with
    ⟨c, hc, hcid, -⟩ | ⟨mid, m', rest, rfl, hmid, hmid', htask'⟩
  · exact absurd (hid ▸ hcid ▸ List.mem_map_of_mem hc) hgone
  rw [hid] at hmid hmid'
  rw [htask, hp] at htask'
  obtain ⟨hmiddle, hm', -, hrest⟩ := hafter.split
  have hsm' : m'.sys.Sound := hmiddle.sound hsa
  have hdm' := hmiddle.departed hsa hda
  have hlaunches := Move.launches_of_pool hsm' htask' hphase
  have hcloses := hlaunches.failsClosed hsm' hdm' hm' hrest
  refine ⟨⟨m', by simp, hmid', htask'⟩, hmid' ▸ hcloses.calm, fun n hn hnid loop hloop => ?_⟩
  have hsplit : n ∈ before ++ [m] ∨ n ∈ mid ∨ n = m' ∨ n ∈ rest := by
    simpa [or_assoc] using hn
  rcases hsplit with hn | hn | rfl | hn
  · exact absurd hnid (hothers n hn)
  · exact absurd hnid (hmid n hn)
  · exact hcloses.awaits (hmid' ▸ hgone) loop.1 (List.mem_map_of_mem hloop)
  · rw [hlaunches.launched_later hsm' hdm' hm' hrest hn (hnid.trans hmid'.symm)] at hloop
    exact absurd hloop List.not_mem_nil

/-! ## Conductors -/

/-- Whether a conductor has to do with the task of a number. -/
def Conductor.Holds (c : Conductor) (id : TaskId) : Prop :=
  c.phase = .running id ∨ c.phase = .stopping id

/-- A conductor stays with what it hosts, and has to do with no other task than the one that it has
started. -/
theorem Conductor.of_state? {c c' : Conductor} (h : (c.step s).1.state? = some c') :
    c'.task = c.task ∧ ∀ id, c'.Holds id → c.Holds id ∨ c.phase = .fresh ∧ id = s.nextTask := by
  have hstop : ∀ id early, c.phase = .running id →
      (Conductor.stop s c id early).1.state? = some c' →
      c'.task = c.task ∧ ∀ id, c'.Holds id → c.Holds id ∨ c.phase = .fresh ∧ id = s.nextTask := by
    intro id early hphase h
    obtain rfl := Option.some.inj h
    refine ⟨rfl, fun id' hid' => .inl (.inl ?_)⟩
    simpa [Holds, hphase] using hid'
  unfold step at h
  split at h
  · rename_i hphase
    obtain rfl := Option.some.inj h
    refine ⟨rfl, fun id hid => .inr ⟨hphase, ?_⟩⟩
    simpa [Holds, Site.spawn, eq_comm] using hid
  · rename_i id hphase
    dsimp only at h
    split at h
    · split at h
      · obtain rfl := Option.some.inj h
        exact ⟨rfl, by simp [Holds]⟩
      · split at h
        · exact hstop id false hphase h
        · obtain rfl := Option.some.inj h
          exact ⟨rfl, fun _ hid => .inl hid⟩
    · split at h
      · exact hstop id _ hphase h
      · obtain rfl := Option.some.inj h
        exact ⟨rfl, fun _ hid => .inl hid⟩
  · split at h
    · obtain rfl := Option.some.inj h
      exact ⟨rfl, by simp [Holds]⟩
    · obtain rfl := Option.some.inj h
      exact ⟨rfl, fun _ hid => .inl hid⟩
  · split at h
    · obtain rfl := Option.some.inj h
      exact ⟨rfl, by simp [Holds]⟩
    · obtain rfl := Option.some.inj h
      exact ⟨rfl, fun _ hid => .inl hid⟩
  · obtain rfl := Option.some.inj h
    exact ⟨rfl, fun _ hid => .inl hid⟩

theorem Move.launched_of_conductor {c : Conductor} (ht : m.mover.task = .conductor c)
    (hphase : c.phase = .fresh) : (m.site.nextTask, c.task) ∈ m.launched := by
  rw [launched, ht]
  simp [Task.step, Conductor.step, hphase, Site.spawn]

/-- The task that a conductor has to do with was started by it. -/
theorem Interleaving.conducted (h : Interleaving lapse start history sys) (hs : start.Opening) :
    ∀ a ∈ sys.activities, ∀ c id, a.task = .conductor c → c.Holds id →
      ∃ m ∈ history, (id, c.task) ∈ m.launched := by
  induction h with
  | nil =>
    intro a ha c id ht hholds
    have hfresh := hs.fresh a ha
    rw [ht] at hfresh
    have hphase : c.phase = .fresh := hfresh
    simp [Conductor.Holds, hphase] at hholds
  | @move history sys a h ha _ ih =>
    have hold : ∀ c id, (∃ m ∈ history, (id, Conductor.task c) ∈ m.launched) →
        ∃ m ∈ history ++ [⟨sys, a⟩], (id, Conductor.task c) ∈ m.launched := by
      rintro c id ⟨m, hm, hword⟩
      exact ⟨m, List.mem_append_left _ hm, hword⟩
    refine (h.sound hs.toSound).tasks_move
      (Q := fun t => ∀ c id, t = .conductor c → c.Holds id →
        ∃ m ∈ history ++ [⟨sys, a⟩], (id, c.task) ∈ m.launched)
      (fun t ht => ?_) (fun b hb _ c id ht hholds => hold c id (ih b hb c id ht hholds))
      (fun t ht c' id htask hholds => ?_) (fun word _ c id ht => ?_)
    · cases t with
      | heartbeat => exact fun c id hc => absurd hc (by simp [Task.stop])
      | _ => exact ht
    · subst htask
      cases hta : a.task with
      | conductor c =>
        rw [hta] at ht
        obtain ⟨_, hc, heq⟩ : ∃ c', (c.step sys.site).1.state? = some c' ∧ Task.conductor c' = _ :=
          state?_within ht
        obtain rfl := Task.conductor.inj heq
        obtain ⟨htask, hcases⟩ := Conductor.of_state? hc
        rw [htask]
        rcases hcases id hholds with hheld | ⟨hphase, rfl⟩
        · exact hold c id (ih a ha c id hta hheld)
        · exact ⟨⟨sys, a⟩, by simp, Move.launched_of_conductor hta hphase⟩
      | _ =>
        rw [hta] at ht
        obtain ⟨_, -, heq⟩ := state?_within ht
        exact absurd heq (by simp)
    · obtain ⟨id', word⟩ := word
      cases word <;> simp [Task.ofStart] at ht
  | pause _ hp ih =>
    intro b hb c id ht hholds
    obtain ⟨d, hd, -, htask⟩ := hp.exists_task hb
    exact ih d hd c id (htask.trans ht) hholds

/-- Whether the request for shutdown that a conductor has made is answered in a move. -/
def Move.AnswersShutdown (m : Move) : Prop :=
  ∃ c, (m.mover.task.step m.site).1.state? = some (.conductor c) ∧ c.phase = .over

theorem Move.answersShutdown_iff {c : Conductor} (ht : m.mover.task = .conductor c)
    (hphase : c.phase = .stopping id) : m.AnswersShutdown ↔ m.site.hasEnded id = true := by
  unfold AnswersShutdown
  rw [ht]
  simp only [Task.step, Conductor.step, hphase]
  split
  · rename_i hended
    exact ⟨fun _ => hended, fun _ => ⟨_, rfl, rfl⟩⟩
  · rename_i hended
    refine ⟨fun hanswers => ?_, fun h => absurd h hended⟩
    obtain ⟨c', hc', hover⟩ := hanswers
    obtain rfl := Task.conductor.inj (Option.some.inj hc')
    rw [hphase] at hover
    exact absurd hover (by simp)

/-- A request for shutdown is answered just when what was hosted is gone. If that was a pool, it has
wound down. -/
theorem Interleaving.shutdown_answered {c : Conductor}
    (h : Interleaving lapse start history m.sys) (hs : start.Opening) (hd : start.Departed)
    (ha : m.mover ∈ m.sys.activities) (ht : m.mover.task = .conductor c)
    (hphase : c.phase = .stopping id) : (m.AnswersShutdown ↔ id ∉ m.sys.ids) ∧
      ∀ p, Task.ofStart c.task = .pool p → id ∉ m.sys.ids → Wound history m.sys id p := by
  obtain ⟨m₀, hm₀, hword⟩ := h.conducted hs m.mover ha c id ht (.inr hphase)
  obtain ⟨before, after, rfl⟩ := List.append_of_mem hm₀
  obtain ⟨hbefore, hmover, -, hafter⟩ := h.split
  have hsound := hbefore.sound hs.toSound
  have hdeparted := (hbefore.departed hs.toSound hd).move hsound hmover
  have hid : id ∈ m₀.after.ids :=
    (hsound.mem_ids_move hmover).mpr (.inr (List.mem_map_of_mem hword))
  refine ⟨?_, fun p hp hgone => h.wound hs.toSound hd hword hp hgone⟩
  rw [Move.answersShutdown_iff ht hphase]
  exact hafter.hasEnded_iff (hsound.move m₀.mover hmover) hdeparted hid

/-! ## All that is hosted -/

/-- That what is hosted fails closed. -/
structure FailsClosedThroughout (start : Ensemble) (history : List Move) (sys : Ensemble) :
    Prop where
  /-- A pool starts as many loops as it should, under one token, and fails closed with them. -/
  pools : ∀ m ∈ history, ∀ p, m.mover.task = .pool p → p.phase = .fresh →
    m.launched.map (·.2) = ((List.range p.size).map fun slot =>
      .loop p.queue p.worker slot (m.site.newToken p.shutdown)) ∧
    FailsClosed sys m.mover.id (m.site.newToken p.shutdown) (m.launched.map (·.1))
  /-- No loop is gone while its handler runs. -/
  handlers : ∀ m ∈ history, ∀ l x, m.mover.task = .loop l → l.phase = .executing x →
    m.mover.id ∉ m.after.ids → ∀ i k beats, x.phase ≠ .handling i k beats
  /-- The service starts a pool for each of its queues, under one token, and fails closed with them.
  That token cancels those of all pools. A pool that is gone has wound down. -/
  services : ∀ m ∈ history, ∀ v, m.mover.task = .service v → v.phase = .waiting →
    m.site.isCancelled v.shutdown = false →
    m.launched.map (·.2) = (v.hosted.map fun h =>
      .pool h.queue h.workers v.worker (m.site.newToken v.shutdown)) ∧
    FailsClosed sys m.mover.id (m.site.newToken v.shutdown) (m.launched.map (·.1)) ∧
    (sys.site.isCancelled (m.site.newToken v.shutdown) = true →
      ∀ n ∈ history, ∀ p, n.mover.task = .pool p → p.shutdown = m.site.newToken v.shutdown →
        sys.site.isCancelled (n.site.newToken p.shutdown) = true) ∧
    ∀ word ∈ m.launched, word.1 ∉ sys.ids →
      ∃ p, Task.ofStart word.2 = .pool p ∧ Wound history sys word.1 p
  /-- What was given to the engine to be shut down by is not cancelled by it, unless a handler asks
  for shutdown. -/
  spares : ∀ m ∈ history, m.mover.task.IsEngine → ∀ k : Token,
    (∀ n ∈ k.path, n < start.site.tokens.next) →
    (∀ b ∈ start.activities, ∀ g, b.task = .heartbeat g → g.execution.covers k = false) →
    m.site.isCancelled k = false → m.after.site.isCancelled k = true →
    ∃ x, m.mover.task.acting? m.site = some x ∧ x.AsksShutdown
  /-- A request to shut a pool down is answered when the pool is gone, whether it has ended before
  the request or after it, and it has wound down then. -/
  shutdown : ∀ before m after, history = before ++ m :: after → ∀ c id,
    m.mover.task = .conductor c → c.phase = .stopping id →
    (m.AnswersShutdown ↔ id ∉ m.sys.ids) ∧
    ∀ queue workers worker, c.hosting = .pool queue workers worker → id ∉ m.sys.ids →
      Wound before m.sys id (.fresh queue workers worker c.token)

/-- Whatever is hosted fails closed, in whatever order and for whatever reason loops end. -/
theorem hosting_fails_closed (hstart : start.Opening) (hended : start.site.ended = [])
    (h : Interleaving lapse start history sys) : FailsClosedThroughout start history sys := by
  have hs := hstart.toSound
  have hd := Ensemble.departed_of_none hended
  refine ⟨fun m hm p ht hphase => ?_, fun m hm l x ht hx hgone i k beats hhandling => ?_,
    fun m hm v ht hphase hready => ?_, fun m hm he k hk hbeats hbefore hafter => ?_,
    fun before m after hsplit c id ht hphase => ?_⟩
  · obtain ⟨before, after, rfl⟩ := List.append_of_mem hm
    obtain ⟨hbefore, hmover, -, hafter⟩ := h.split
    have hlaunches := Move.launches_of_pool (hbefore.sound hs) ht hphase
    exact ⟨hlaunches.1, hlaunches.failsClosed (hbefore.sound hs) (hbefore.departed hs hd) hmover
      hafter⟩
  · obtain ⟨before, hbefore, hmover, -⟩ := h.of_mem hm
    refine hgone (((hbefore.sound hs).mem_ids_move hmover).mpr
      (.inl ⟨List.mem_map_of_mem hmover, fun _ => ?_⟩))
    rw [ht]
    exact (end?_of_executing hx).mpr (by simp [Execution.BreaksDown, hhandling])
  · obtain ⟨before, after, rfl⟩ := List.append_of_mem hm
    obtain ⟨hbefore, hmover, -, hafter⟩ := h.split
    have hlaunches := Move.launches_of_service (hbefore.sound hs) ht hphase hready
    refine ⟨hlaunches.1, hlaunches.failsClosed (hbefore.sound hs) (hbefore.departed hs hd) hmover
      hafter, fun hscope n _ p _ hp => ?_, fun word hword hgone => ?_⟩
    · rw [hp]
      exact Site.isCancelled_newToken n.site hscope
    · have hpool : word.2 ∈ m.launched.map (·.2) := List.mem_map_of_mem hword
      rw [hlaunches.1] at hpool
      obtain ⟨hosted, -, hstart⟩ := List.mem_map.mp hpool
      have htask : Task.ofStart word.2 = .pool (.fresh hosted.queue hosted.workers v.worker
          (m.site.newToken v.shutdown)) := by
        rw [← hstart]
        rfl
      exact ⟨_, htask, h.wound hs hd hword htask hgone⟩
  · obtain ⟨before, hpast, hmover, -⟩ := h.of_mem hm
    exact (hpast.granted hstart).asked_of_cancelled hmover he hk hbeats hbefore hafter
  · subst hsplit
    obtain ⟨hbefore, hmover, -, -⟩ := h.split
    obtain ⟨hanswers, hwound⟩ := hbefore.shutdown_answered hstart hd hmover ht hphase
    refine ⟨hanswers, fun queue workers worker hhosting hgone => hwound _ ?_ hgone⟩
    simp [Conductor.task, hhosting, Task.ofStart]

/-! ## A pool that is held by a handle -/

/-- The pool that a task is if it has not moved yet. -/
def Task.unmovedPool? : Task → Option Pool
  | .pool p =>
    match p.phase with
    | .fresh => some p
    | .watching _ => none
  | _ => none

theorem Task.of_unmovedPool? {t : Task} (h : t.unmovedPool? = some p) :
    t = .pool p ∧ p.phase = .fresh := by
  unfold unmovedPool? at h
  split at h
  · split at h
    · rename_i hphase
      obtain rfl := Option.some.inj h
      exact ⟨rfl, hphase⟩
    · exact absurd h (by simp)
  · exact absurd h (by simp)

/-- The conductor that a task is if it has asked for shutdown, and the task that it waits for. -/
def Task.stopping? : Task → Option (Conductor × TaskId)
  | .conductor c =>
    match c.phase with
    | .stopping id => some (c, id)
    | _ => none
  | _ => none

theorem Task.of_stopping? {t : Task} {c : Conductor} (h : t.stopping? = some (c, id)) :
    t = .conductor c ∧ c.phase = .stopping id := by
  unfold stopping? at h
  split at h
  · split at h
    · rename_i hphase
      obtain ⟨rfl, rfl⟩ := Prod.mk.inj (Option.some.inj h)
      exact ⟨rfl, hphase⟩
    · exact absurd h (by simp)
  · exact absurd h (by simp)

/-- A pool of two loops that is held by a handle. The second call for a job breaks down. -/
def handled : Ensemble :=
  let sleeper : Handler := .scripted 0 "sleeper" [⟨[.sleep 300], .returns (.ok "done")⟩]
  let queued := (Store.empty Store.defaultRetries).enqueue .exports "" none Site.start
  let site :=
    { Site.initial with
      store := queued.2, ready := true
      faults := { Faults.none with dequeue := { CallFaults.none with crashes := [2] } }
      registry := Registry.empty.register .exports none sleeper }
  (Ensemble.ofSite site).host
    (.conductor (.fresh (.pool .exports 2 "a") .handle 1500 site.shutdown))

/-- One loop breaks down while the handler of the other sleeps. -/
def handledTurns : List Turn :=
  [Turn.go 0, .go 0, .go 1, .go 1, .go 2, .go 3, .pass 1000] ++ List.replicate 6 (Turn.go 2) ++
    List.replicate 4 (Turn.go 3) ++ [Turn.go 1, .go 1, .go 4]

/-- The handler returns, the pool ends, and only then is it asked to shut down. -/
def handledLaterTurns : List Turn :=
  Turn.pass 1300 :: List.replicate 4 (Turn.go 2) ++
    [Turn.go 4, .go 1, .go 1, .pass 1500, .go 0, .go 0]

theorem opening_handled : handled.Opening := by
  refine (Ensemble.opening_ofSite rfl rfl ?_).host ?_
  · exact fun t ht => absurd ht List.not_mem_nil
  · rfl

theorem hosting_fails_closed_handled :
    let mid := handled.follow whenIdle handledTurns
    let late := handled.follow whenIdle (handledTurns ++ handledLaterTurns)
    (∃ m ∈ mid.1, ∃ p, m.mover.task = .pool p ∧ m.launched.map (·.1) = [2, 3] ∧
      3 ∉ mid.2.ids ∧ 2 ∈ mid.2.ids ∧ m.mover.id ∈ mid.2.ids ∧
      mid.2.site.isCancelled (m.site.newToken p.shutdown) = true) ∧
    ∃ m ∈ late.1, ∃ c id, m.mover.task = .conductor c ∧ c.phase = .stopping id ∧
      m.AnswersShutdown ∧ ∃ before p, Wound before m.sys id p := by
  intro mid late
  have hmid := hosting_fails_closed opening_handled rfl
    (Ensemble.interleaving_follow whenIdle handledTurns handled)
  have hlate := hosting_fails_closed opening_handled rfl
    (Ensemble.interleaving_follow whenIdle (handledTurns ++ handledLaterTurns) handled)
  constructor
  · have hrun : mid.1.any (fun m => m.mover.task.unmovedPool?.isSome &&
        m.launched.map (·.1) == [2, 3] && decide (m.mover.id ∈ mid.2.ids)) = true := by
      decide +kernel
    obtain ⟨m, hm, hpool⟩ := List.any_eq_true.mp hrun
    simp only [Bool.and_eq_true, beq_iff_eq, decide_eq_true_eq] at hpool
    obtain ⟨⟨hsome, hlaunched⟩, hthere⟩ := hpool
    obtain ⟨p, hp⟩ := Option.isSome_iff_exists.mp hsome
    obtain ⟨ht, hphase⟩ := Task.of_unmovedPool? hp
    have hcloses := (hmid.pools m hm p ht hphase).2
    have hgone : 3 ∉ mid.2.ids := by decide +kernel
    exact ⟨m, hm, p, ht, hlaunched, hgone, by decide +kernel, hthere,
      hcloses.prompt 3 (by simp [hlaunched]) hgone 1300 (by decide +kernel)⟩
  · have hrun : late.1.any (fun m => m.mover.task.stopping?.any fun held =>
        decide (held.2 ∉ m.sys.ids) &&
          held.1.hosting matches .pool _ _ _) = true := by decide +kernel
    obtain ⟨m, hm, hstopping⟩ := List.any_eq_true.mp hrun
    obtain ⟨⟨c, id⟩, hheld, hgone⟩ := (Option.any_eq_true _ _).mp hstopping
    simp only [Bool.and_eq_true, decide_eq_true_eq] at hgone
    obtain ⟨ht, hphase⟩ := Task.of_stopping? hheld
    obtain ⟨before, after, hsplit⟩ := List.append_of_mem hm
    obtain ⟨hanswers, hwound⟩ := hlate.shutdown before m after hsplit c id ht hphase
    refine ⟨m, hm, c, id, ht, hphase, hanswers.mpr hgone.1, before, ?_⟩
    cases hhosting : c.hosting with
    | pool queue workers worker => exact ⟨_, hwound queue workers worker hhosting hgone.1⟩
    | service => simp [hhosting] at hgone

end LeasedWork.Host
