import LeasedWork.Proofs.Engine.Breakdown
import LeasedWork.Proofs.Host.Reach
import LeasedWork.Proofs.Host.Schedule

/-!
# What a job can do to its loop

Errors and panics of a handler, refusals of the store, and heartbeats that fail or break down all
end with the execution that they belong to: the loop goes on to its next job, and its pool is not
cancelled. The exception is the call that hands the result over. If it breaks down, the loop does,
and the pool closes.
-/
namespace LeasedWork.Host

open Engine

variable {lapse : Ensemble → Nat → Prop} {start sys next : Ensemble} {history : List Move}
  {a b : Activity} {l : PollLoop} {x : Execution} {s : Site} {k : Token}

/-- Whether a loop executes under the token of its pool, its handler under one below that. -/
def Task.KeepsScope (t : Task) : Prop :=
  ∀ l x, t = .loop l → l.phase = .executing x → x.shutdown = l.pool ∧
    ∀ k, x.token? = some k → ∃ n, k.path = l.pool.path ++ [n]

theorem Task.KeepsScope.of_state? {t t' : Task} (ht : t.KeepsScope)
    (h : (t.step s).1.state? = some t') : t'.KeepsScope := by
  rintro l' x' rfl hx'
  cases t with
  | loop l =>
    obtain ⟨_, hl, heq⟩ : ∃ l', (l.step s).1.state? = some l' ∧ Task.loop l' = _ := state?_within h
    obtain rfl := Task.loop.inj heq
    rw [PollLoop.pool_of_state? hl]
    rcases executing_of_loop hl hx' with ⟨x, hx, hgo⟩ | ⟨-, job, rfl, -⟩
    · obtain ⟨hshutdown, htoken⟩ := ht l x rfl hx
      refine ⟨hgo.job_eq.2.trans hshutdown, fun k hk => ?_⟩
      rcases hgo.token?_eq with ⟨-, -, hnew⟩ | hsame
      · obtain rfl := Option.some.inj (hnew.symm.trans hk)
        exact ⟨s.tokens.next, by rw [hshutdown]; rfl⟩
      · exact htoken k (hsame ▸ hk)
    · exact ⟨rfl, fun k hk => absurd hk (by simp [Execution.fresh, Execution.token?])⟩
  | _ =>
    obtain ⟨_, -, heq⟩ := state?_within h
    exact absurd heq (by simp)

theorem Interleaving.keepsScope (h : Interleaving lapse start history sys) (hs : start.Opening) :
    ∀ a ∈ sys.activities, a.task.KeepsScope := by
  induction h with
  | nil =>
    intro a ha l x hl hx
    have hfresh := hs.fresh a ha
    rw [hl] at hfresh
    have hphase : l.phase = .gate := hfresh
    exact absurd (hphase.symm.trans hx) (by simp)
  | @move history sys a h ha _ ih =>
    refine (h.sound hs.toSound).tasks_move (fun t ht => ?_) (fun b hb _ => ih b hb)
      (fun t ht => (ih a ha).of_state? ht) (fun start _ => ?_)
    · cases t with
      | heartbeat => exact fun l x hl => absurd hl (by simp [Task.stop])
      | _ => exact ht
    · obtain ⟨id, start⟩ := start
      intro l x hl hx
      cases start <;> simp only [Task.ofStart, Task.loop.injEq, reduceCtorEq] at hl
      subst hl
      simp [PollLoop.fresh] at hx
  | pause _ hp ih =>
    intro b hb
    obtain ⟨c, hc, -, htask⟩ := hp.exists_task hb
    exact htask ▸ ih c hc

/-- A loop in the middle of an execution ends just if the execution breaks down. -/
theorem end?_of_executing (hx : l.phase = .executing x) :
    ((Task.loop l).step s).1.end? = none ↔ ¬ x.BreaksDown s := by
  rw [← x.step_eq_crash_iff]
  simp only [Task.step, PollLoop.step, hx]
  cases (x.step s).1 <;> simp [Progress.within, Progress.end?]

/-- Whether a task works at the execution of another: it is that task, or one of the heartbeats. -/
def Activity.WorksAt (b a : Activity) (x : Execution) : Prop :=
  b.id = a.id ∨ ∃ g, b.task = .heartbeat g ∧ x.token? = some g.execution

/-- Whoever works at an execution leaves the token of its pool alone, unless the handler asks for
shutdown. -/
theorem Interleaving.asks_of_cancelled (h : Interleaving lapse start history sys)
    (hstart : start.Opening) (ha : a ∈ sys.activities) (hl : a.task = .loop l)
    (hx : l.phase = .executing x) (hb : b ∈ sys.activities) (hworks : b.WorksAt a x)
    (hbefore : sys.site.isCancelled l.pool = false)
    (hafter : (sys.move b).site.isCancelled l.pool = true) : b.id = a.id ∧ x.AsksShutdown := by
  obtain ⟨hshutdown, htoken⟩ := h.keepsScope hstart a ha l x hl hx
  rcases (Move.isCancelled_after ⟨sys, b⟩ l.pool).mp hafter with hold | ⟨d, hd, hcancels⟩
  · exact absurd (hbefore.symm.trans hold) (by simp)
  rcases hworks with hid | ⟨g, hg, hk⟩
  · obtain rfl := Ensemble.eq_of_id_eq (h.sound hstart.toSound).nodup hb ha hid
    have hacting : b.task.acting? sys.site = some x := by
      rw [hl]
      simp only [Task.acting?, hx]
    have hdeeds : d ∈ x.deeds sys.site := Task.deeds_of_acting? hacting ▸ hd
    rcases Execution.cancels_cases hdeeds hcancels with hasks | ⟨-, hcovers⟩
    · exact ⟨rfl, hasks⟩
    · have hpath : (sys.site.newToken l.pool).path = l.pool.path ++ [sys.site.tokens.next] := rfl
      rw [hshutdown, Site.not_covers_of_child hpath] at hcovers
      exact absurd hcovers (by simp)
  · have hdeeds : d ∈ g.deeds sys.site := by
      have hmem : d ∈ b.task.deeds sys.site := hd
      rwa [hg] at hmem
    obtain ⟨n, hpath⟩ := htoken g.execution hk
    have hcovers := Heartbeat.cancels_cases hdeeds hcancels
    rw [Site.not_covers_of_child hpath] at hcovers
    exact absurd hcovers (by simp)

/-- Throughout a run a loop is there, in its pool, unless it has broken down in a move, or has found
its pool cancelled while it had no job. -/
theorem Interleaving.loop_stays (h : Interleaving lapse start history sys) (hs : start.Sound)
    (ha : a ∈ start.activities) (hl : a.task = .loop l) :
    (∃ b ∈ sys.activities, b.id = a.id ∧ ∃ l', b.task = .loop l' ∧ l'.pool = l.pool) ∨
    ∃ m ∈ history, m.mover.id = a.id ∧ ∃ l', m.mover.task = .loop l' ∧
      (l'.BreaksDown m.site ∨
        m.site.isCancelled l.pool = true ∧ ∀ x, l'.phase ≠ .executing x) := by
  induction h with
  | nil => exact .inl ⟨a, ha, rfl, l, hl, rfl⟩
  | @move history sys c h hc _ ih =>
    have hsound := h.sound hs
    rcases ih with ⟨b, hb, hid, l', hl', hpool⟩ | ⟨m, hm, hbefore⟩
    · by_cases hmoves : b.id = c.id
      · obtain rfl := Ensemble.eq_of_id_eq hsound.nodup hb hc hmoves
        have hsteps := l'.steps sys.site
        generalize hp : (l'.step sys.site).1 = p at hsteps
        cases hsteps with
        | breaksDown hbreaks => exact .inr ⟨⟨sys, b⟩, by simp, hid, l', hl', .inl hbreaks⟩
        | cancelled hcancelled hidle =>
          exact .inr ⟨⟨sys, b⟩, by simp, hid, l', hl', .inr ⟨hpool ▸ hcancelled, hidle⟩⟩
        | @goes _ l'' _ hgoes hpool' =>
          have hstate : (b.task.step sys.site).1.state? = some (.loop l'') := by
            rw [hl']
            exact Task.state?_loop (hp ▸ hgoes)
          obtain ⟨d, hd, hdid, hdtask⟩ := hsound.exists_move_of_state? hb hstate rfl
          exact .inl ⟨d, hd, hdid.trans hid, l'', hdtask, hpool'.trans hpool⟩
      · obtain ⟨d, hd, hdid, hdtask⟩ := hsound.exists_move_of_ne hb hmoves (by rw [hl']; rfl)
        exact .inl ⟨d, hd, hdid.trans hid, l', hdtask.trans hl', hpool⟩
    · exact .inr ⟨m, List.mem_append_left _ hm, hbefore⟩
  | pause _ hp ih =>
    refine ih.imp_left fun hthere => ?_
    obtain ⟨b, hb, hid, l', hl', hpool⟩ := hthere
    obtain ⟨c, hc, hcid, hctask, -⟩ := hp.exists_activity hb
    exact ⟨c, hc, hcid.trans hid, l', hctask.trans hl', hpool⟩

/-- Whatever a job does and whatever becomes of it, unless the call breaks down that hands its
result over: the loop is still there, and goes on to its next job once the execution is done; none
of those who work at the job cancels the pool, unless its handler asks for shutdown; and no other
task takes the loop off its job. So it is with all jobs to come: the loop stays until such a call
breaks down, or a call for a job, or the pool is cancelled and the loop has no job. -/
theorem failure_stays_with_job (hstart : start.Opening) (h : Interleaving lapse start history sys)
    (ha : a ∈ sys.activities) (hl : a.task = .loop l) (hx : l.phase = .executing x) :
    (a.id ∈ (sys.move a).ids ↔ ¬ x.BreaksDown sys.site) ∧
    (∀ result, (x.step sys.site).1 = .done result →
      ∃ b ∈ (sys.move a).activities, b.id = a.id ∧ ∃ l', b.task = .loop l' ∧ l'.pool = l.pool ∧
        ∀ s : Site, s.isCancelled l.pool = false → l'.LooksFurther s) ∧
    (∀ b ∈ sys.activities, b.WorksAt a x → sys.site.isCancelled l.pool = false →
      (sys.move b).site.isCancelled l.pool = true → b.id = a.id ∧ x.AsksShutdown) ∧
    (∀ b ∈ sys.activities, b.id ≠ a.id →
      ∃ c ∈ (sys.move b).activities, c.id = a.id ∧ c.task = .loop l) ∧
    ∀ more later, Interleaving lapse sys more later →
      (∃ b ∈ later.activities, b.id = a.id ∧ ∃ l', b.task = .loop l' ∧ l'.pool = l.pool) ∨
      ∃ m ∈ more, m.mover.id = a.id ∧ ∃ l', m.mover.task = .loop l' ∧
        (l'.BreaksDown m.site ∨
          m.site.isCancelled l.pool = true ∧ ∀ x, l'.phase ≠ .executing x) := by
  have hs : sys.Sound := h.sound hstart.toSound
  have hend : (a.task.step sys.site).1.end? = none ↔ ¬ x.BreaksDown sys.site :=
    hl ▸ end?_of_executing hx
  refine ⟨?_, fun result hdone => ?_, ?_, ?_, ?_⟩
  · rw [hs.mem_ids_move_of_lt ha (hs.bounded a ha), hend]
    exact ⟨fun h => h.2 rfl, fun hgoes => ⟨List.mem_map_of_mem ha, fun _ => hgoes⟩⟩
  · have hstate : (a.task.step sys.site).1.state? = some (.loop { l with phase := .top }) := by
      rw [hl]
      exact Task.state?_loop (PollLoop.state?_of_concluded hx hdone)
    obtain ⟨b, hb, hid, htask⟩ := hs.exists_move_of_state? ha hstate rfl
    exact ⟨b, hb, hid, _, htask, rfl, fun s hs => PollLoop.looksFurther_of_top rfl hs⟩
  · exact fun b hb => h.asks_of_cancelled hstart ha hl hx hb
  · intro b hb hne
    obtain ⟨c, hc, hid, htask⟩ := hs.exists_move_of_ne ha hne.symm (by rw [hl]; rfl)
    exact ⟨c, hc, hid, htask.trans hl⟩
  · exact fun more later hlater => hlater.loop_stays hs ha hl

/-! ## A pool with two jobs -/

/-- The loop of a task that is in the middle of an execution, with the execution. -/
def Task.engagement? : Task → Option (PollLoop × Execution)
  | .loop l =>
    match l.phase with
    | .executing x => some (l, x)
    | _ => none
  | _ => none

theorem Task.of_engagement? {t : Task} (h : t.engagement? = some (l, x)) :
    t = .loop l ∧ l.phase = .executing x := by
  unfold engagement? at h
  split at h
  · rename_i l'
    split at h
    · rename_i hphase
      obtain ⟨rfl, rfl⟩ := Prod.mk.inj (Option.some.inj h)
      exact ⟨rfl, hphase⟩
    · exact absurd h (by simp)
  · exact absurd h (by simp)

/-- A pool of one loop, whose handler panics, and two jobs for it. -/
def panicking (faults : Faults) : Ensemble :=
  let handler : Handler := .scripted 0 "panicking" [⟨[], .panics none⟩]
  let queued := (Store.empty Store.defaultRetries).enqueue .exports "" none Site.start
  let site :=
    { Site.initial with
      store := (queued.2.enqueue .exports "" none Site.start).2, ready := true, faults := faults
      registry := Registry.empty.register .exports none handler }
  (Ensemble.ofSite site).host (.pool (.fresh .exports 1 "a" site.shutdown))

/-- The loop takes the first job, and its result is about to be handed over. -/
def panickingTurns : List Turn :=
  [Turn.go 0, .go 0, .go 1, .pass 1000] ++ List.replicate 7 (Turn.go 1)

theorem opening_panicking (faults : Faults) : (panicking faults).Opening := by
  refine (Ensemble.opening_ofSite rfl rfl ?_).host ?_
  · exact fun t ht => absurd ht List.not_mem_nil
  · rfl

theorem failure_stays_with_job_of_panic :
    let sys := ((panicking .none).follow whenIdle panickingTurns).2
    ∃ a ∈ sys.activities, ∃ l x, a.task = .loop l ∧ l.phase = .executing x ∧
      (x.step sys.site).1 = .done (.finalized .failed true) ∧ a.id ∈ (sys.move a).ids ∧
      ∃ b ∈ (sys.move a).activities, b.id = a.id ∧ ∃ l', b.task = .loop l' ∧
        l'.LooksFurther (sys.move a).site := by
  intro sys
  have hrun : sys.activities.any (fun a => a.task.engagement?.any fun lx =>
      (lx.2.step sys.site).1.result? == some (.finalized .failed true) &&
        !(sys.move a).site.isCancelled lx.1.pool) = true := by decide +kernel
  obtain ⟨a, ha, hlx⟩ := List.any_eq_true.mp hrun
  obtain ⟨⟨l, x⟩, hlx, hends⟩ := (Option.any_eq_true _ _).mp hlx
  rw [Bool.and_eq_true] at hends
  obtain ⟨hl, hx⟩ := Task.of_engagement? hlx
  have hdone : (x.step sys.site).1 = .done (.finalized .failed true) :=
    Progress.eq_done (eq_of_beq hends.1)
  have hfollow := Ensemble.interleaving_follow whenIdle panickingTurns (panicking .none)
  obtain ⟨hstays, hgoes, -⟩ :=
    failure_stays_with_job (opening_panicking .none) hfollow ha hl hx
  obtain ⟨b, hb, hid, l', hl', -, hlooks⟩ := hgoes _ hdone
  refine ⟨a, ha, l, x, hl, hx, hdone, hstays.mpr fun hbreaks => ?_, b, hb, hid, l', hl', ?_⟩
  · rw [← x.step_eq_crash_iff, hdone] at hbreaks
    exact absurd hbreaks (by simp)
  · exact hlooks _ (by simpa using hends.2)

/-- The same job stops its loop, and the pool with it, if the call breaks down that hands its result
over. Nobody has asked for shutdown, and the second job is left waiting. -/
theorem loop_ends_when_complete_breaks_down :
    let broken : Faults := { Faults.none with complete := { CallFaults.none with crashes := [1] } }
    let sys := ((panicking broken).follow whenIdle panickingTurns).2
    let later := (sys.follow whenIdle [.go 1, .go 0, .go 0]).2
    ∃ a ∈ sys.activities, ∃ l x, a.task = .loop l ∧ l.phase = .executing x ∧
      (x.step sys.site).1 = .crash ∧ sys.site.isCancelled l.pool = false ∧
      a.id ∉ later.ids ∧ 0 ∉ later.ids ∧
      later.site.isCancelled l.pool = true ∧ later.site.isCancelled later.site.shutdown = false ∧
      (later.site.store.job? 2).map (·.status) = some .created := by
  intro broken sys later
  have hrun : sys.activities.any (fun a => a.task.engagement?.any fun lx =>
      (lx.2.step sys.site).1.end? == some true && !sys.site.isCancelled lx.1.pool &&
        a.id ∉ later.ids && later.site.isCancelled lx.1.pool) = true := by decide +kernel
  obtain ⟨a, ha, hlx⟩ := List.any_eq_true.mp hrun
  obtain ⟨⟨l, x⟩, hlx, hends⟩ := (Option.any_eq_true _ _).mp hlx
  simp only [Bool.and_eq_true, beq_iff_eq, Bool.not_eq_true', decide_eq_true_eq] at hends
  obtain ⟨⟨⟨hcrash, hbefore⟩, hgone⟩, hafter⟩ := hends
  obtain ⟨hl, hx⟩ := Task.of_engagement? hlx
  exact ⟨a, ha, l, x, hl, hx, Progress.end?_eq_true.mp hcrash, hbefore, hgone, by decide +kernel,
    hafter, by decide +kernel, by decide +kernel⟩

end LeasedWork.Host
