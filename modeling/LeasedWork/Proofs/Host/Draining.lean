import LeasedWork.Proofs.Host.Stillness

/-!
# Busy iterations end

A loop does not sleep after a job, jobs that are put back can be handed out again at once, and
expired leases are handed out too. Yet a busy loop comes to rest, while time stands still: handing a
job out uses up one of the leases that are left in the store, nothing makes new ones, and between
two jobs a loop has only so much to do.
-/
namespace LeasedWork.Host

open Engine

variable {lapse : Ensemble → Nat → Prop} {start mid sys next : Ensemble} {history : List Move}
  {a b c : Activity} {m : Move} {l l' : PollLoop} {job : Job} {e : Entry} {queue : Queue}

/-! ## What is left to be done -/

/-- How often jobs of a queue can still be handed out while time stands still. -/
def Ensemble.leasesLeft (sys : Ensemble) (queue : Queue) : Nat :=
  sys.site.store.leasesLeft queue sys.site.timing.leaseTimeout sys.site.now

/-- How many moves a loop can still make until it rests, at most. -/
def Ensemble.workLeft (sys : Ensemble) (l : PollLoop) : Nat :=
  sys.leasesLeft l.queue * (2 * sys.site.longestTurn + 10) + l.toDo sys.site.longestTurn

/-- How many jobs of a kind were given to loops, to be executed. -/
def executions (history : List Move) (wanted : Job → Bool) : Nat :=
  history.countP fun m => m.given?.any wanted

/-- How many moves the task of a number has made. -/
def movesOf (history : List Move) (id : TaskId) : Nat := history.countP (·.mover.id = id)

/-- Whether a loop begins its sleep in a move. -/
def Move.Rests (m : Move) (l : PollLoop) : Prop :=
  m.mover.task = .loop l ∧ ∃ l', (l.step m.site).1.state? = some l' ∧ l'.phase = .idle

theorem executions_append (history : List Move) (m : Move) (wanted : Job → Bool) :
    executions (history ++ [m]) wanted =
      executions history wanted + (m.given?.any wanted).toNat := by
  rw [executions, List.countP_append, List.countP_singleton, ← executions]
  cases m.given?.any wanted <;> rfl

theorem movesOf_append (history : List Move) (m : Move) (id : TaskId) :
    movesOf (history ++ [m]) id = movesOf history id + if m.mover.id = id then 1 else 0 := by
  rw [movesOf, List.countP_append, List.countP_singleton, ← movesOf]
  simp

/-- What can still be handed out does not become more, and less by each job that is given to a
loop. -/
theorem Move.Regular.leasesLeft_after (h : m.Regular) (queue : Queue) :
    m.after.leasesLeft queue + (m.given?.any (·.queue = queue)).toNat ≤ m.sys.leasesLeft queue := by
  have hnow : m.after.site.now = m.site.now := by
    rw [Site.now, Move.after, Ensemble.clock_move, Site.now, Move.site]
  have htiming : m.after.site.timing = m.site.timing := (m.sys.setAlike_move m.mover).timing
  have hmax := h.ruledAlike.maxRetries
  simp only [Ensemble.leasesLeft, hnow, htiming]
  change _ ≤ m.site.store.leasesLeft queue m.site.timing.leaseTimeout m.site.now
  cases h.effect with
  | spares hentries hgiven =>
    rw [Store.leasesLeft_congr hentries hmax, hgiven]
    exact Nat.le_refl _
  | @leases e request he hel htimeout hgiven hentries =>
    have hused := Store.leasesLeft_leasedEntry m.site.store.maxRetries htimeout hel
    have hleft := Store.leasesLeft_modify he rfl hentries hmax (Nat.le_of_eq hused) queue
    have hwanted : (m.given?.any (·.queue = queue)).toNat =
        if e.job.queue = queue then 1 else 0 := by
      rw [hgiven]
      by_cases hq : e.job.queue = queue <;> simp [Store.leased, hq]
    rw [hwanted]
    exact hleft
  | @beats e he hr hgiven hentries =>
    have hleft := Store.leasesLeft_modify (n := 0) he rfl hentries hmax
      (Store.leasesLeft_beaten _ m.site.timing.leaseTimeout hr) queue
    rw [hgiven]
    exact Nat.le_trans (Nat.le_add_right _ _) hleft
  | @settles x d o e hover he hv hr hgiven hentries =>
    obtain hid : e.job.id = x.job.id := Store.id_of_entry? he
    rw [← hid] at he hentries
    have hqueue : (Store.finalized m.site.store.maxRetries (Execution.finalRecord x.job o d) d.force
        m.site.now e).job.queue = e.job.queue := by
      unfold Store.finalized
      split <;> rfl
    have hleft := Store.leasesLeft_modify (n := 0) he hqueue hentries hmax
      (Store.leasesLeft_finalized _ m.site.timing.leaseTimeout hr (Disposition.isTerminal_status d))
      queue
    rw [hgiven]
    exact Nat.le_trans (Nat.le_add_right _ _) hleft

theorem Ensemble.longestTurn_move (sys : Ensemble) (a : Activity) :
    (sys.move a).site.longestTurn = sys.site.longestTurn := by
  rw [Site.longestTurn, (sys.setAlike_move a).registry, Site.longestTurn]

theorem Move.Regular.workLeft_le (h : m.Regular) (l : PollLoop) :
    m.after.workLeft l ≤ m.sys.workLeft l := by
  have hleases := Nat.le_trans (Nat.le_add_right _ _) (h.leasesLeft_after l.queue)
  rw [Ensemble.workLeft, after, Ensemble.longestTurn_move, Ensemble.workLeft]
  exact Nat.add_le_add_right (Nat.mul_le_mul_right _ hleases) _

/-- A busy loop that does not rest has less to do after its move: if it is given a job, there is a
lease less that is left. -/
theorem Move.Regular.workLeft_lt (h : m.Regular) (ht : m.mover.task = .loop l)
    (hl : l.SameLoop l') (hgo : l.Goes m.site l') (hbusy : l.Busy) (hrest : l'.phase ≠ .idle) :
    l'.Busy ∧ m.after.workLeft l' < m.sys.workLeft l := by
  obtain ⟨hbusy', hcases⟩ := hgo.busy_cases hbusy hrest
  refine ⟨hbusy', ?_⟩
  have hleases := h.leasesLeft_after l.queue
  have hlongest : m.after.site.longestTurn = m.site.longestTurn := m.sys.longestTurn_move m.mover
  rw [Ensemble.workLeft, hlongest, hl.queue, Ensemble.workLeft]
  change _ < _ + l.toDo m.site.longestTurn
  rcases hcases with ⟨expired, job, hphase, hasked, hphase'⟩ | hless
  · have hgiven : m.given? = some job := by
      rw [given?_of_loop ht, PollLoop.given?_of_calling hphase, hasked]
      rfl
    have hqueue : job.queue = l.queue := by
      rw [given?_of_loop ht] at hgiven
      exact PollLoop.queue_of_given? hgiven
    simp only [hgiven, Option.any_some, hqueue, decide_true, Bool.toNat_true] at hleases
    have hmul := Nat.mul_le_mul_right (2 * m.site.longestTurn + 10) hleases
    rw [Nat.succ_mul] at hmul
    rw [PollLoop.toDo_of_granted _ hphase']
    have hpos := PollLoop.toDo_pos hbusy m.site.longestTurn
    exact Nat.lt_of_le_of_lt hmul (Nat.lt_add_of_pos_right hpos)
  · have hmul := Nat.mul_le_mul_right (2 * m.site.longestTurn + 10)
      (Nat.le_trans (Nat.le_add_right _ _) hleases)
    exact Nat.add_lt_add_of_le_of_lt hmul hless

/-! ## Stretches -/

/-- A stretch of moves in which nothing comes from outside, in an ensemble that has come to it from
an opening: time stands still and all moves are calm. Handlers are prompt, and no run of a single
job has passed its lease off as another. -/
structure Stretch (start mid : Ensemble) (history : List Move) (sys : Ensemble) : Prop where
  opening : start.Opening
  store : start.site.store.Sound
  handlers : start.site.HandlesPromptly
  plans : ∀ b ∈ start.activities, b.task.KeepsLeases
  past : ∃ before, Interleaving anytime start before mid
  moves : Interleaving still mid history sys
  calm : ∀ m ∈ history, m.Calm

theorem Pause.site_of_still (h : Pause still sys next) : next.site = sys.site := by
  cases h with
  | lapse _ hclock => rw [show _ = sys.site.clock from hclock]
  | wake => exact sys.site_wake
  | turns => rfl

namespace Stretch

/-- A stretch goes on from where it came from. -/
theorem whole (h : Stretch start mid history sys) :
    ∃ before, Interleaving anytime start (before ++ history) sys := by
  obtain ⟨before, hbefore⟩ := h.past
  exact ⟨before, hbefore.append (h.moves.mono fun _ _ _ => trivial)⟩

theorem sound (h : Stretch start mid history sys) : sys.Sound :=
  h.whole.choose_spec.sound h.opening.toSound

theorem prompt (h : Stretch start mid history sys) :
    ∀ b ∈ sys.activities, ∀ x, b.task.execution? = some x → x.Prompt :=
  h.whole.choose_spec.prompt h.opening h.handlers

theorem regular (h : Stretch start mid history sys) (ha : a ∈ sys.activities)
    (hcalm : Move.Calm ⟨sys, a⟩) : Move.Regular ⟨sys, a⟩ :=
  h.whole.choose_spec.regular h.opening h.store h.handlers ha hcalm

theorem move (h : Stretch start mid history sys) (ha : a ∈ sys.activities)
    (hf : a.isFree sys.site = true) (hcalm : Move.Calm ⟨sys, a⟩) :
    Stretch start mid (history ++ [⟨sys, a⟩]) (sys.move a) := by
  refine { h with moves := h.moves.move ha hf, calm := fun m hm => ?_ }
  rcases List.mem_append.mp hm with hm | hm
  · exact h.calm m hm
  · obtain rfl := List.mem_singleton.mp hm
    exact hcalm

/-- What holds at the beginning of a stretch and is kept by its moves and pauses holds all along. -/
theorem induction {P : List Move → Ensemble → Prop} (h : Stretch start mid history sys)
    (hnil : P [] mid)
    (hmove : ∀ history sys a, Stretch start mid history sys → P history sys →
      Move.Regular ⟨sys, a⟩ → P (history ++ [⟨sys, a⟩]) (sys.move a))
    (hpause : ∀ history sys next, P history sys → Pause still sys next → P history next) :
    P history sys := by
  obtain ⟨opening, store, handlers, plans, past, moves, calm⟩ := h
  induction moves with
  | nil => exact hnil
  | @move history sys a moves ha hf ih =>
    have hcalm : ∀ m ∈ history, m.Calm := fun m hm => calm m (List.mem_append_left _ hm)
    have hbefore : Stretch start mid history sys :=
      ⟨opening, store, handlers, plans, past, moves, hcalm⟩
    refine hmove history sys a hbefore (ih hcalm) (hbefore.regular ha (calm _ ?_))
    exact List.mem_append_right _ (List.mem_singleton.mpr rfl)
  | pause moves hp ih => exact hpause _ _ _ (ih calm) hp

theorem clock_eq (h : Stretch start mid history sys) : sys.site.clock = mid.site.clock :=
  h.induction (P := fun _ sys => sys.site.clock = mid.site.clock) rfl
    (fun _ sys a _ ih _ => (Ensemble.clock_move sys a).trans ih)
    fun _ _ _ ih hp => hp.site_of_still ▸ ih

theorem now_eq (h : Stretch start mid history sys) : sys.site.now = mid.site.now := by
  rw [Site.now, h.clock_eq, Site.now]

theorem isDated_eq (h : Stretch start mid history sys) :
    sys.site.isDated = mid.site.isDated := by
  rw [Site.isDated, h.now_eq, Site.isDated]

theorem setAlike (h : Stretch start mid history sys) : mid.site.SetAlike sys.site :=
  h.moves.setAlike

theorem ruledAlike (h : Stretch start mid history sys) :
    mid.site.store.RuledAlike sys.site.store :=
  h.induction (P := fun _ sys => mid.site.store.RuledAlike sys.site.store) (.refl _)
    (fun _ _ _ _ ih hm => ih.trans hm.ruledAlike) fun _ _ _ ih hp => hp.site_of_still ▸ ih

theorem swift (h : Stretch start mid history sys) (hswift : mid.site.Swift) : start.site.Swift := by
  obtain ⟨before, hbefore⟩ := h.past
  exact hbefore.setAlike.swift_iff.mp hswift

/-- Each job that is given to a loop uses up a lease that was left. -/
theorem executions_add_le (h : Stretch start mid history sys) (queue : Queue) :
    executions history (·.queue = queue) + sys.leasesLeft queue ≤ mid.leasesLeft queue := by
  refine h.induction (P := fun history sys =>
    executions history (·.queue = queue) + sys.leasesLeft queue ≤ mid.leasesLeft queue) ?_ ?_ ?_
  · simp [executions]
  · intro history sys a _ ih hm
    have hafter := hm.leasesLeft_after queue
    rw [executions_append]
    change (sys.move a).leasesLeft queue + _ ≤ sys.leasesLeft queue at hafter
    omega
  · intro history sys next ih hp
    rwa [Ensemble.leasesLeft, hp.site_of_still]

/-- Whether the loop of a number has stayed busy along a history, with only so much left to do, or
is gone, which takes a call that breaks down. -/
inductive StaysBusy (mid : Ensemble) (id : TaskId) (l : PollLoop) (history : List Move)
    (sys : Ensemble) : Prop
  | there {c : Activity} {l' : PollLoop} (hc : c ∈ sys.activities) (hid : c.id = id)
    (ht : c.task = .loop l') (hl : l.SameLoop l') (hbusy : l'.Busy)
    (hwork : movesOf history id + sys.workLeft l' ≤ mid.workLeft l)
  | gone (hid : id ∉ sys.ids) (hlt : id < sys.site.nextTask)
    (hbroken : ¬ (mid.site.Swift ∧ mid.site.isDated = true))
    (hwork : movesOf history id ≤ mid.workLeft l)

/-- A move of the loop itself. -/
theorem staysBusy_move (h : Stretch start mid history sys) {id : TaskId} (ht : a.task = .loop l')
    (hm : Move.Regular ⟨sys, a⟩) (hid : a.id = id) (hl : l.SameLoop l') (hbusy : l'.Busy)
    (hwork : movesOf history id + sys.workLeft l' ≤ mid.workLeft l)
    (hrest : ¬ Move.Rests ⟨sys, a⟩ l') :
    StaysBusy mid id l (history ++ [⟨sys, a⟩]) (sys.move a) := by
  have hmoves : movesOf (history ++ [⟨sys, a⟩]) id = movesOf history id + 1 := by
    rw [movesOf_append, if_pos hid]
  have hsteps := l'.steps sys.site
  generalize hp : (l'.step sys.site).1 = p at hsteps
  cases hsteps with
  | breaksDown hbreaks =>
    refine .gone (fun hmem => ?_) ?_ (fun hfine => ?_) ?_
    · have hlt : id < sys.site.nextTask := hid ▸ hm.sound.bounded a hm.mem
      have hgoes := ((hm.sound.mem_ids_move_of_lt hm.mem hlt).mp hmem).2 hid.symm
      have hend : ((Task.loop l').step sys.site).1.end? = some true := by
        simp only [Task.step, hp, Progress.within, Progress.end?]
      rw [ht, hend] at hgoes
      exact absurd hgoes (by simp)
    · exact hid ▸ Nat.lt_of_lt_of_le (hm.sound.bounded a hm.mem)
        (Ensemble.nextTask_le_move hm.sound a)
    · have hunbroken := (h.whole.choose_spec.busy_free h.opening h.handlers (h.swift hfine.1) a
        hm.mem l' ht hbusy).2
      exact l'.not_breaksDown hunbroken (h.isDated_eq.trans hfine.2) hbreaks
    · have hpos := PollLoop.toDo_pos hbusy sys.site.longestTurn
      rw [hmoves]
      refine Nat.le_trans ?_ hwork
      exact Nat.add_le_add_left (Nat.le_trans hpos (Nat.le_add_left _ _)) _
  | cancelled hcancelled =>
    have hcalm := hm.calm
    simp only [Move.Calm, ht] at hcalm
    exact absurd (hcalm.symm.trans hcancelled) (by simp)
  | @goes _ l'' _ hstate =>
    have hstate' : (l'.step sys.site).1.state? = some l'' := hp ▸ hstate
    obtain ⟨hsame, hgo⟩ := PollLoop.proceeds_step sys.site l' l'' hstate'
    have hidle : l''.phase ≠ .idle := fun hidle => hrest ⟨ht, l'', hstate', hidle⟩
    obtain ⟨hbusy', hless⟩ := hm.workLeft_lt ht hsame hgo hbusy hidle
    obtain ⟨d, hd, hdid, htask⟩ := hm.sound.exists_move_of_state? hm.mem
      (ht ▸ Task.state?_loop hstate') rfl
    refine .there hd (hdid.trans hid) htask (hl.trans hsame) hbusy' ?_
    rw [hmoves]
    change (sys.move a).workLeft l'' < sys.workLeft l' at hless
    omega

/-- A busy loop that does not rest stays busy, and its moves use up what was left to do. -/
theorem staysBusy (h : Stretch start mid history sys) (hb : b ∈ mid.activities)
    (ht : b.task = .loop l) (hbusy : l.Busy)
    (hrest : ∀ m ∈ history, m.mover.id = b.id → ∀ l', ¬ m.Rests l') :
    StaysBusy mid b.id l history sys := by
  revert hrest
  refine h.induction (P := fun history sys =>
    (∀ m ∈ history, m.mover.id = b.id → ∀ l', ¬ m.Rests l') →
      StaysBusy mid b.id l history sys) ?_ ?_ ?_
  · exact fun _ => .there hb rfl ht (.refl l) hbusy (Nat.le_of_eq (Nat.zero_add _))
  · intro history sys a h ih hm hrest
    cases ih fun m hm => hrest m (List.mem_append_left _ hm) with
    | @there c l' hc hid ht' hl hbusy' hwork =>
      by_cases hmoves : a.id = b.id
      · obtain rfl := Ensemble.eq_of_id_eq hm.sound.nodup hm.mem hc (hmoves.trans hid.symm)
        exact h.staysBusy_move ht' hm hmoves hl hbusy' hwork
          (hrest ⟨sys, a⟩ (List.mem_append_right _ (List.mem_singleton.mpr rfl)) hmoves l')
      · obtain ⟨d, hd, hdid, htask⟩ := hm.sound.exists_move_of_ne (a := a) hc
          (fun heq => hmoves (heq.symm.trans hid)) (by rw [ht']; rfl)
        refine .there hd (hdid.trans hid) (htask.trans ht') hl hbusy' ?_
        rw [movesOf_append, if_neg hmoves]
        exact Nat.le_trans (Nat.add_le_add_left (hm.workLeft_le l') _) hwork
    | gone hid hlt hbroken hwork =>
      have hmoves : a.id ≠ b.id := fun heq => hid (heq ▸ List.mem_map_of_mem hm.mem)
      exact .gone (fun hmem => hid ((hm.sound.mem_ids_move_of_lt hm.mem hlt).mp hmem).1)
        (Nat.lt_of_lt_of_le hlt (Ensemble.nextTask_le_move hm.sound a)) hbroken
        (by rwa [movesOf_append, if_neg hmoves])
  · intro history sys next ih hp hrest
    cases ih hrest with
    | @there c l' hc hid ht' hl hbusy' hwork =>
      obtain ⟨d, hd, hdid, htask, -⟩ := hp.exists_activity hc
      refine .there hd (hdid.trans hid) (htask.trans ht') hl hbusy' ?_
      rwa [Ensemble.workLeft, Ensemble.leasesLeft, hp.site_of_still]
    | gone hid hlt hbroken hwork =>
      exact .gone (hp.ids_eq ▸ hid) (hp.site_of_still ▸ hlt) hbroken hwork

/-- Another stretch begins wherever one ends. -/
theorem again (h : Stretch start mid history sys) : Stretch start sys [] sys :=
  { h with past := ⟨_, h.whole.choose_spec⟩, moves := .nil, calm := by simp }

/-- A busy loop that has not come to rest can make the next move. -/
theorem goes_on (h : Stretch start mid history sys) (hb : b ∈ mid.activities)
    (ht : b.task = .loop l) (hbusy : l.Busy)
    (hrest : ∀ m ∈ history, m.mover.id = b.id → ∀ l', ¬ m.Rests l') (hswift : mid.site.Swift)
    (hdated : mid.site.isDated = true) :
    ∃ c ∈ sys.activities, c.id = b.id ∧ c.isFree sys.site = true ∧
      ∃ l', c.task = .loop l' ∧ l.SameLoop l' ∧ l'.Busy ∧
        movesOf history b.id + sys.workLeft l' ≤ mid.workLeft l := by
  cases h.staysBusy hb ht hbusy hrest with
  | @there c l' hc hid ht' hl hbusy' hwork =>
    have hfree := (h.whole.choose_spec.busy_free h.opening h.handlers (h.swift hswift) c hc l' ht'
      hbusy').1
    exact ⟨c, hc, hid, by rw [Activity.isFree, hfree]; rfl, l', ht', hl, hbusy', hwork⟩
  | gone _ _ hbroken => exact absurd ⟨hswift, hdated⟩ hbroken

/-- A loop does not cancel its pool. -/
theorem isCancelled_move (h : Stretch start mid history sys) (ha : a ∈ sys.activities)
    (ht : a.task = .loop l) (hpool : sys.site.isCancelled l.pool = false) :
    (sys.move a).site.isCancelled l.pool = false := by
  by_contra hafter
  rw [Bool.not_eq_false] at hafter
  by_cases hx : ∃ x, l.phase = .executing x
  · obtain ⟨x, hx⟩ := hx
    obtain ⟨-, i, k, beats, rest, hphase, -, hsteps⟩ := h.whole.choose_spec.asks_of_cancelled
      h.opening ha ht hx ha (.inl rfl) hpool hafter
    have hprompt := h.prompt a ha x (by rw [ht, Task.execution?, hx]) i k beats hphase
    exact (hprompt.steps (.act .shutdown) (hsteps ▸ List.mem_cons_self)).1 rfl
  · rw [not_exists] at hx
    rcases (Move.isCancelled_after ⟨sys, a⟩ l.pool).mp hafter with hold | ⟨d, hd, hcancels⟩
    · exact absurd (hpool.symm.trans hold) (by simp)
    change d ∈ a.task.deeds sys.site at hd
    rw [ht, Task.deeds] at hd
    by_cases hcall : ∃ expired, l.phase = PollLoop.calling expired (.underway false)
    · obtain ⟨expired, hphase⟩ := hcall
      rw [PollLoop.deeds_of_calling hphase] at hd
      obtain ⟨-, rfl⟩ := mem_deedsOfCall hd
      exact hcancels
    · rw [not_exists] at hcall
      rw [PollLoop.deeds_of_quiet hcall hx] at hd
      exact absurd hd List.not_mem_nil

/-- A busy loop comes to rest by its own moves. -/
theorem reaches_rest (h : Stretch start mid history sys) (ha : a ∈ sys.activities)
    (ht : a.task = .loop l) (hbusy : l.Busy) (hpool : sys.site.isCancelled l.pool = false)
    (hswift : mid.site.Swift) (hdated : mid.site.isDated = true) :
    ∃ more next, Stretch start mid (history ++ more) next ∧ (∀ m ∈ more, m.mover.id = a.id) ∧
      ∃ m ∈ more.getLast?, ∃ l', m.Rests l' := by
  have hdated' : sys.site.isDated = true := h.isDated_eq.trans hdated
  generalize hn : sys.workLeft l = n
  induction n using Nat.strongRecOn generalizing history sys a l with
  | ind n ih =>
    have hcalm : Move.Calm ⟨sys, a⟩ := by
      simp only [Move.Calm, ht]
      exact hpool
    obtain ⟨c, hc, hid, hfree, -⟩ := h.again.goes_on ha ht hbusy (by simp)
      (h.setAlike.swift_iff.mpr hswift) hdated'
    obtain rfl := Ensemble.eq_of_id_eq h.sound.nodup hc ha hid
    have hnext := h.move ha hfree hcalm
    by_cases hrest : Move.Rests ⟨sys, c⟩ l
    · exact ⟨[⟨sys, c⟩], sys.move c, hnext, by simp, _, rfl, l, hrest⟩
    · have hstays := h.again.staysBusy_move ht (h.regular ha hcalm) rfl (.refl l) hbusy
        (Nat.le_of_eq (Nat.zero_add _)) hrest
      cases hstays with
      | gone _ _ hbroken =>
        exact absurd ⟨h.setAlike.swift_iff.mpr hswift, hdated'⟩ hbroken
      | @there d l' hd hid' ht' hl hbusy' hwork =>
        have hless : (sys.move c).workLeft l' < n := by
          rw [movesOf_append, if_pos rfl, hn] at hwork
          omega
        have hpool' := h.isCancelled_move ha ht hpool
        rw [← hl.pool] at hpool'
        have hdated'' : (sys.move c).site.isDated = true := (sys.isDated_move c).trans hdated'
        obtain ⟨more, next, hmore, hown, m, hlast, hrests⟩ :=
          ih _ hless hnext hd ht' hbusy' hpool' hdated'' rfl
        refine ⟨⟨sys, c⟩ :: more, next, ?_, ?_, m, ?_, hrests⟩
        · rwa [List.append_cons]
        · intro m hm
          rcases List.mem_cons.mp hm with rfl | hm
          · rfl
          · exact (hown m hm).trans hid'
        · rw [List.getLast?_cons, hlast]
          rfl

end Stretch

end LeasedWork.Host
