import LeasedWork.Proofs.Host.Gates
import LeasedWork.Proofs.Host.TokenTree

/-!
# Cancellations stay where they belong

Abandoning an execution reaches nobody else, since nothing lives under its token. The token of a pool
is cancelled with one above it, or because a loop of the pool has ended; all that runs in the pool is
cancelled with it then, and abandoned by nobody for that reason.
-/
namespace LeasedWork.Host

open Engine

variable {lapse : Ensemble → Nat → Prop} {start sys next : Ensemble} {history : List Move}
  {m : Move} {a b : Activity} {s : Site} {t t' : Task} {f : Fleet} {ids : List TaskId}
  {k u parent : Token}

/-! ## What cancels the token of a fleet -/

/-- Whether a task cancels a token for its own sake only when one of some tasks has ended. -/
structure Task.Spares (ids : List TaskId) (k : Token) (t : Task) : Prop where
  fleets : ∀ f, t.fleet? = some f → f.scope = k → f.running ⊆ ids
  conductors : ∀ c, t = .conductor c → c.token ≠ k

theorem Task.Spares.stop (h : t.Spares ids k) : t.stop.Spares ids k := by
  cases t with
  | heartbeat => exact ⟨fun f hf => absurd hf (by simp [Task.stop, fleet?]),
      fun c hc => absurd hc (by simp [Task.stop])⟩
  | _ => exact h

theorem Task.Spares.of_state? (h : t.Spares ids k) (hs : s.starting = []) (hk : s.tokens.Made k)
    (ht : (t.step s).1.state? = some t') : t'.Spares ids k := by
  constructor
  · intro f hf hscope
    rcases fleet_cases hs ht hf with ⟨g, hg, hsame, hrunning⟩ | ⟨parent, hopens, hnew⟩
    · exact List.Subset.trans hrunning (h.fleets g hg (hsame.symm.trans hscope))
    · rw [← hscope, hnew] at hk
      exact absurd ((Tokens.made_child_iff s.tokens s.tokens parent).mp hk) (Nat.lt_irrefl _)
  · rintro c' rfl
    cases t with
    | conductor c =>
      obtain ⟨_, hc, heq⟩ : ∃ c', (c.step s).1.state? = some c' ∧ Task.conductor c' = _ :=
        state?_within ht
      obtain rfl := Task.conductor.inj heq
      rw [Conductor.token_of_state? hc]
      exact h.conductors c rfl
    | _ =>
      obtain ⟨_, -, heq⟩ := state?_within ht
      exact absurd heq (by simp)

theorem Task.spares_ofStart (word : Start) : (Task.ofStart word).Spares ids k := by
  constructor
  · intro f hf
    cases word <;> exact absurd hf (by simp [Task.ofStart, fleet?, Pool.fresh, Service.fresh])
  · intro c hc
    cases word <;> exact absurd hc (by simp [Task.ofStart])

/-- Whether a token is cancelled for its own sake only when one of some tasks has ended. -/
structure Ensemble.Reserved (sys : Ensemble) (ids : List TaskId) (k : Token) : Prop where
  made : sys.site.tokens.Made k
  shutdown : k ≠ sys.site.shutdown
  executions : ¬ sys.IsExecution k
  tasks : ∀ a ∈ sys.activities, a.task.Spares ids k

namespace Ensemble

theorem Reserved.move (h : sys.Reserved ids k) (hs : sys.Sound) (ha : a ∈ sys.activities) :
    (sys.move a).Reserved ids k := by
  constructor
  case made => exact h.made.of_le (Move.next_le_after ⟨sys, a⟩)
  case shutdown => rw [(sys.setAlike_move a).shutdown]; exact h.shutdown
  case executions =>
    intro hk
    rcases hs.isExecution_move ha hk with hk | ⟨x, hbegins⟩
    · exact h.executions hk
    · exact hbegins.not_made.1 h.made
  case tasks =>
    exact hs.tasks_move (fun t ht => ht.stop) (fun b hb _ => h.tasks b hb)
      (fun t ht => (h.tasks a ha).of_state? hs.starting h.made ht)
      (fun word _ => Task.spares_ofStart word.2)

theorem Reserved.pause (h : sys.Reserved ids k) (hp : Pause lapse sys next) :
    next.Reserved ids k := by
  obtain ⟨clock, -, hsite⟩ := hp.site_eq
  constructor
  case made => rw [hsite]; exact h.made
  case shutdown => rw [hsite]; exact h.shutdown
  case executions => exact fun hk => h.executions (hp.isExecution hk)
  case tasks =>
    intro b hb
    obtain ⟨c, hc, -, htask⟩ := hp.exists_task hb
    exact htask ▸ h.tasks c hc

theorem Reserved.ended_of_cancel (h : sys.Reserved ids k) (ha : a ∈ sys.activities)
    (hk : .cancel k ∈ a.task.deeds sys.site) : ∃ id ∈ ids, sys.site.hasEnded id = true := by
  cases Task.closes_of_cancel hk with
  | shutdown hk => exact absurd hk h.shutdown
  | fleet hf hk hended =>
    obtain ⟨id, hid, hended⟩ := hended
    exact ⟨id, (h.tasks a ha).fleets _ hf hk hid, hended⟩
  | conductor ht hk => exact absurd hk ((h.tasks a ha).conductors _ ht)

/-- A reserved token is cancelled in a move with the one above it, or because a task has ended. -/
theorem Reserved.cancelled_move {n : Nat} (h : sys.Reserved ids k) (ha : a ∈ sys.activities)
    (hpath : k.path = parent.path ++ [n]) (hbefore : sys.site.isCancelled k = false)
    (hafter : (sys.move a).site.isCancelled k = true) :
    (sys.move a).site.isCancelled parent = true ∨ ∃ id ∈ ids, sys.site.hasEnded id = true := by
  rcases (Move.isCancelled_after ⟨sys, a⟩ k).mp hafter with hold | ⟨d, hd, hcancels⟩
  · exact absurd (hbefore.symm.trans hold) (by simp)
  have habove : d.Cancels parent → (sys.move a).site.isCancelled parent = true :=
    fun hparent => (Move.isCancelled_after ⟨sys, a⟩ parent).mpr (.inr ⟨d, hd, hparent⟩)
  cases d with
  | cancel c =>
    rcases (Token.covers_child_iff hpath).mp hcancels with hparent | rfl
    · exact .inl (habove hparent)
    · exact .inr (h.ended_of_cancel ha hd)
  | abandon c =>
    rcases (Token.covers_child_iff hpath).mp hcancels with hparent | rfl
    · exact .inl (habove hparent)
    · rcases isExecution_of_abandon ha hd with hk | ⟨x, hbegins⟩
      · exact absurd hk h.executions
      · exact absurd h.made hbegins.not_made.1
  | _ => exact hcancels.elim

end Ensemble

theorem Interleaving.reserved_cancelled {n : Nat} (h : Interleaving lapse start history sys)
    (hs : start.Sound) (hr : start.Reserved ids k) (hpath : k.path = parent.path ++ [n])
    (hstart : start.site.isCancelled k = true → start.site.isCancelled parent = true) :
    sys.Reserved ids k ∧ (sys.site.isCancelled k = true →
      sys.site.isCancelled parent = true ∨ ∃ id ∈ ids, sys.site.hasEnded id = true) := by
  induction h with
  | nil => exact ⟨hr, fun hk => .inl (hstart hk)⟩
  | @move history sys a h ha _ ih =>
    obtain ⟨hreserved, hcancelled⟩ := ih
    refine ⟨hreserved.move (h.sound hs) ha, fun hk => ?_⟩
    have hended : (∃ id ∈ ids, sys.site.hasEnded id = true) →
        ∃ id ∈ ids, (sys.move a).site.hasEnded id = true := by
      rintro ⟨id, hid, hended⟩
      exact ⟨id, hid, (Ensemble.hasEnded_move sys a).mpr (.inl hended)⟩
    cases hbefore : sys.site.isCancelled k with
    | true => exact (hcancelled hbefore).imp (Ensemble.isCancelled_move a) hended
    | false => exact (hreserved.cancelled_move ha hpath hbefore hk).imp_right hended
  | pause h hp ih =>
    refine ⟨ih.1.pause hp, fun hk => ?_⟩
    rw [hp.isCancelled_eq] at hk ⊢
    simp only [hp.hasEnded_eq]
    exact ih.2 hk

/-! ## When a fleet is opened -/

theorem Task.OpensFleet.fleet?_eq_none (h : t.OpensFleet s parent) : t.fleet? = none := by
  cases h with
  | pool ht hphase =>
    subst ht
    simp [Task.fleet?, hphase]
  | service ht hphase =>
    subst ht
    simp [Task.fleet?, hphase]

theorem Task.OpensFleet.not_cancels {d : Deed} (h : t.OpensFleet s parent) (hd : d ∈ t.deeds s) :
    ¬ d.Cancels k := by
  intro hk
  have hengine : t.IsEngine := by
    cases h with
    | pool ht => exact ht ▸ trivial
    | service ht => exact ht ▸ trivial
  cases cancels_of_mem_deeds hengine hd hk with
  | asked hx => exact h.not_acting hx
  | begun hx => exact h.not_acting hx
  | beaten ht =>
    cases h with
    | pool hp => exact absurd (ht.symm.trans hp) (by simp)
    | service hv => exact absurd (ht.symm.trans hv) (by simp)
  | closed hf => exact absurd (h.fleet?_eq_none.symm.trans hf) (by simp)

/-- The token of a fleet that is opened is new, so that nobody else can cancel it for its own sake. -/
theorem Move.reserved_of_opensFleet {starts : List Start} (hs : m.sys.Sound) (hr : m.sys.Rooted)
    (ha : m.mover ∈ m.sys.activities) (hopens : m.mover.task.OpensFleet m.site parent)
    (hlaunches : m.Launches (m.site.newToken parent) starts) :
    m.after.Reserved (m.launched.map (·.1)) (m.site.newToken parent) := by
  obtain ⟨hunmade, hmade⟩ := Move.made_newToken hopens.child_mem
  constructor
  case made => exact hmade
  case shutdown =>
    intro heq
    have hsame : m.after.site.shutdown = m.sys.site.shutdown :=
      (Ensemble.setAlike_move m.sys m.mover).shutdown
    exact hunmade ((heq.trans hsame) ▸ (hr.scopes m.sys.site.shutdown (.inl rfl)).made)
  case executions =>
    intro hk
    rcases hs.isExecution_move ha hk with hk | ⟨x, hbegins⟩
    · exact hunmade (hr.executions _ hk).made
    · exact hopens.not_acting hbegins.acts
  case tasks =>
    refine hs.tasks_move (fun t ht => ht.stop) (fun b hb _ => ⟨fun f hf hk => ?_, fun c hc hk => ?_⟩)
      (fun t ht => ?_) (fun word _ => Task.spares_ofStart word.2)
    · exact absurd (hr.scopes _ (.inr ⟨b, hb, .fleet hf hk⟩)).made hunmade
    · exact absurd (hr.scopes _ (.inr ⟨b, hb, .conductor hc hk⟩)).made hunmade
    · obtain ⟨-, t', f, hstep, hf, -, -, hrunning⟩ := hlaunches
      have hstep : (m.mover.task.step m.sys.site).1 = .more t' := hstep
      rw [hstep] at ht
      obtain rfl := Option.some.inj ht
      refine ⟨fun g hg _ => ?_, fun c hc => absurd hf (by rw [hc]; simp [Task.fleet?])⟩
      obtain rfl := Option.some.inj (hg.symm.trans hf)
      exact hrunning ▸ List.Subset.refl _

/-- A fleet is opened under a token that is cancelled only if the one above it is. -/
theorem Move.cancelled_above_of_opensFleet (hr : m.sys.Rooted)
    (hopens : m.mover.task.OpensFleet m.site parent)
    (hk : m.after.site.isCancelled (m.site.newToken parent) = true) :
    m.after.site.isCancelled parent = true := by
  have hunmade := (Move.made_newToken hopens.child_mem).1
  rcases (m.isCancelled_after _).mp hk with hold | ⟨d, hd, hcancels⟩
  · refine (m.isCancelled_after parent).mpr (.inl ?_)
    simp only [Site.isCancelled, Tokens.isCancelled, List.any_eq_true] at hold ⊢
    obtain ⟨c, hc, hcovers⟩ := hold
    refine ⟨c, hc, ((Token.covers_child_iff rfl).mp hcovers).resolve_right ?_⟩
    rintro rfl
    exact hunmade (hr.cancelled _ hc).made
  · exact absurd hcancels (hopens.not_cancels hd)

/-- What was started in a loop's place is that loop, under the token of its pool. -/
theorem Interleaving.pool_of_launched {word : TaskId × Start} {l : PollLoop}
    (h : Interleaving lapse m.after history sys) (hs : m.sys.Sound)
    (ha : m.mover ∈ m.sys.activities) (hword : word ∈ m.launched)
    (hl : Task.ofStart word.2 = .loop l) (hb : b ∈ sys.activities) (hid : b.id = word.1) :
    ∃ l', b.task = .loop l' ∧ l'.pool = l.pool := by
  obtain ⟨c, hc, hcid, htask⟩ := Move.exists_launched hs hword (by rw [hl]; rfl)
  obtain ⟨l', ht, hsame⟩ :=
    h.sameLoop (hs.move m.mover ha) hc (htask.trans hl) b hb (hid.trans hcid.symm)
  exact ⟨l', ht, hsame.pool⟩

theorem Interleaving.cancelled_with_pool {l : PollLoop} {x : Execution}
    (h : Interleaving lapse start history sys) (hstart : start.Opening) (hb : b ∈ sys.activities)
    (hl : b.task = .loop l) (hx : b.task.execution? = some x) (hk : x.token? = some k)
    (hpool : sys.site.isCancelled l.pool = true) : sys.site.isCancelled k = true := by
  have hphase : l.phase = .executing x := by
    rw [hl, Task.execution?] at hx
    split at hx
    · rename_i y hy
      exact hy.trans (congrArg _ (Option.some.inj hx))
    · exact absurd hx (by simp)
  obtain ⟨-, htoken⟩ := h.keepsScope hstart b hb l x hl hphase
  obtain ⟨n, hpath⟩ := htoken k hk
  exact Site.isCancelled_of_child hpath hpool

/-! ## All cancellations -/

/-- That cancellations stay where they belong. -/
structure CancellationsIsolated (history : List Move) (sys : Ensemble) : Prop where
  /-- Who abandons an execution abandons and cancels its token, which nobody lives under, and cancels
  no other token in use. -/
  abandons : ∀ m ∈ history, ∀ k, .abandon k ∈ m.deeds →
    (m.sys.IsExecution k ∨ ∃ x, m.Begins x k) ∧ ¬ m.sys.IsScope k ∧
    m.after.site.tokens.isAbandoned k = true ∧ m.after.site.isCancelled k = true ∧
    ∀ u, m.sys.IsScope u ∨ m.sys.IsExecution u → u ≠ k →
      m.after.site.isCancelled u = m.site.isCancelled u
  /-- The token of a pool is made below that of its service or of the caller. It is cancelled only if
  that one is, or a loop of the pool has ended. All executions in loops of the pool are cancelled
  with it. -/
  pools : ∀ m ∈ history, ∀ p, m.mover.task = .pool p → p.phase = .fresh →
    (∀ word ∈ m.launched, ∃ slot, word.2 =
      .loop p.queue p.worker slot (m.site.newToken p.shutdown)) ∧
    (sys.site.isCancelled (m.site.newToken p.shutdown) = true →
      (sys.site.isCancelled p.shutdown = true ∨
        ∃ id ∈ m.launched.map (·.1), sys.site.hasEnded id = true) ∧
      ∀ b ∈ sys.activities, b.id ∈ m.launched.map (·.1) → ∀ x k, b.task.execution? = some x →
        x.token? = some k → sys.site.isCancelled k = true)
  /-- No execution counts as abandoned because a token was cancelled that others live under. -/
  unmarked : ∀ m ∈ history, ∀ k, m.sys.IsScope k → m.site.isCancelled k = false →
    m.after.site.isCancelled k = true → ∀ u,
      m.after.site.tokens.isAbandoned u = m.site.tokens.isAbandoned u

/-- Abandoning an execution leaves all other tokens in use as they were. -/
theorem Move.isCancelled_of_abandon (hr : m.sys.Rooted) (ha : m.mover ∈ m.sys.activities)
    (hk : .abandon k ∈ m.deeds) (hu : m.sys.IsScope u ∨ m.sys.IsExecution u) (hne : u ≠ k) :
    m.after.site.isCancelled u = m.site.isCancelled u := by
  have hspares : k.covers u = false := by
    rcases isExecution_of_abandon ha hk with hk | ⟨x, hbegins⟩
    · rcases hu with hu | hu
      · exact hr.leaves k u hk hu
      · exact Bool.eq_false_iff.mpr fun hcovers => hne (hr.apart k u hk hu hcovers)
    · have hknown : m.sys.site.tokens.Knows u := hu.elim (hr.scopes u) (hr.executions u)
      exact Token.not_covers_of_not_made hbegins.not_made.1 hknown
  rw [Bool.eq_iff_iff, m.isCancelled_after]
  refine ⟨fun h => h.resolve_right ?_, .inl⟩
  rintro ⟨d, hd, hcancels⟩
  obtain rfl := Task.eq_abandon hk hd hcancels
  exact absurd (hspares.symm.trans hcancels) (by simp)

theorem Move.not_isScope_of_abandon (hr : m.sys.Rooted) (ha : m.mover ∈ m.sys.activities)
    (hk : .abandon k ∈ m.deeds) : ¬ m.sys.IsScope k := by
  intro hscope
  rcases isExecution_of_abandon ha hk with hexecution | ⟨x, hbegins⟩
  · exact absurd ((hr.leaves k k hexecution hscope).symm.trans (Tokens.covers_refl k)) (by simp)
  · exact hbegins.not_made.1 (hr.scopes k hscope).made

/-- Whatever is cancelled and abandoned in a run, in whatever order: abandoning an execution touches
no other token in use; the token of a pool is cancelled only with one above it or because a loop of
the pool has ended; and what the pool executes is cancelled with it, but not abandoned. -/
theorem cancellations_are_isolated (hstart : start.Opening) (hrooted : start.Rooted)
    (h : Interleaving lapse start history sys) : CancellationsIsolated history sys := by
  have hs := hstart.toSound
  constructor
  case abandons =>
    intro m hm k hk
    obtain ⟨before, hbefore, hmover, -⟩ := h.of_mem hm
    have hr := hbefore.rooted hs hrooted
    refine ⟨isExecution_of_abandon hmover hk, Move.not_isScope_of_abandon hr hmover hk,
      (m.isAbandoned_after k).mpr (.inr hk), ?_, fun u hu hne => ?_⟩
    · exact (m.isCancelled_after k).mpr (.inr ⟨_, hk, Tokens.covers_refl k⟩)
    · exact Move.isCancelled_of_abandon hr hmover hk hu hne
  case pools =>
    intro m hm p ht hphase
    obtain ⟨before, after, rfl⟩ := List.append_of_mem hm
    obtain ⟨hbefore, hmover, -, hafter⟩ := h.split
    have hsm := hbefore.sound hs
    have hr := hbefore.rooted hs hrooted
    have hopens : m.mover.task.OpensFleet m.site p.shutdown := .pool ht hphase rfl
    have hlaunches := Move.launches_of_pool hsm ht hphase
    have hloops : ∀ word ∈ m.launched, ∃ slot, word.2 =
        .loop p.queue p.worker slot (m.site.newToken p.shutdown) := by
      intro word hword
      have hmem : word.2 ∈ m.launched.map (·.2) := List.mem_map_of_mem hword
      rw [hlaunches.1] at hmem
      obtain ⟨slot, -, hslot⟩ := List.mem_map.mp hmem
      exact ⟨slot, hslot.symm⟩
    refine ⟨hloops, fun hcancelled => ⟨?_, fun b hb hid x k hx hk => ?_⟩⟩
    · have hreserved := Move.reserved_of_opensFleet hsm hr hmover hopens hlaunches
      exact (hafter.reserved_cancelled (hsm.move m.mover hmover) hreserved rfl
        (Move.cancelled_above_of_opensFleet hr hopens)).2 hcancelled
    · obtain ⟨word, hword, hwid⟩ := List.mem_map.mp hid
      obtain ⟨slot, hslot⟩ := hloops word hword
      obtain ⟨l, hl, hpool⟩ := hafter.pool_of_launched hsm hmover hword (by rw [hslot]; rfl) hb
        hwid.symm
      have hpool : l.pool = m.site.newToken p.shutdown := hpool
      exact h.cancelled_with_pool hstart hb hl hx hk (hpool ▸ hcancelled)
  case unmarked =>
    intro m hm k hk hbefore hafter u
    obtain ⟨before, hpast, hmover, -⟩ := h.of_mem hm
    have hr := hpast.rooted hs hrooted
    have hnone : ∀ v, .abandon v ∉ m.deeds := by
      intro v hv
      have hne : k ≠ v := by
        rintro rfl
        exact Move.not_isScope_of_abandon hr hmover hv hk
      have hsame := Move.isCancelled_of_abandon hr hmover hv (.inl hk) hne
      rw [hsame, hbefore] at hafter
      exact absurd hafter (by simp)
    rw [Bool.eq_iff_iff, m.isAbandoned_after]
    exact or_iff_left (hnone u)

/-! ## A pool with two executions -/

/-- A pool of two loops, and two jobs for it. One is asked to be cancelled while the handlers run, and
shutdown is asked for after that. -/
def twoExecutions : Ensemble :=
  let stubborn : Handler := .scripted 0 "stubborn" [⟨[.sleep 120000], .returns (.ok "done")⟩]
  let queued := (Store.empty Store.defaultRetries).enqueue .exports "" none Site.start
  let site :=
    { Site.initial with
      store := (queued.2.enqueue .exports "" none Site.start).2, ready := true
      registry := Registry.empty.register .exports none stubborn }
  ((Ensemble.ofSite site).host (.timeline (.ofList
    [(3000, .requestCancel 1), (40000, .shutdown)]))).host
    (.pool (.fresh .exports 2 "a" site.shutdown))

/-- Both handlers run, and the heartbeats of the first abandon its execution. -/
def twoExecutionsTurns : List Turn :=
  [Turn.go 0, .go 1, .go 1, .go 2, .go 3, .pass 1000] ++ List.replicate 6 (Turn.go 2) ++
    List.replicate 6 (Turn.go 3) ++ [Turn.go 4, .go 5, .pass 3000, .go 0, .go 0, .pass 31000] ++
    List.replicate 3 (Turn.go 4)

/-- The other job's heartbeat finds nothing, and the caller asks for shutdown. -/
def twoExecutionsLaterTurns : List Turn :=
  List.replicate 3 (Turn.go 5) ++ [Turn.pass 40000, .go 0]

theorem opening_twoExecutions : twoExecutions.Opening := by
  refine ((Ensemble.opening_ofSite rfl rfl ?_).host ?_).host ?_
  · exact fun t ht => absurd ht List.not_mem_nil
  · exact trivial
  · rfl

theorem rooted_twoExecutions : twoExecutions.Rooted := by
  refine ((Ensemble.rooted_ofSite rfl ?_).host ?_ ?_).host ?_ ?_
  · exact fun n hn => List.mem_singleton.mp hn ▸ Nat.one_pos
  · intro k hk
    cases hk with
    | fleet hf => simp [Task.fleet?] at hf
    | execution hx => simp [Task.execution?] at hx
    | _ ht => simp at ht
  · intro k hk
    cases hk with
    | runs hx => simp [Task.execution?] at hx
    | _ ht => simp at ht
  · intro k hk
    cases hk with
    | pool ht hk =>
      cases ht
      exact .inl hk.symm
    | fleet hf => simp [Task.fleet?, Pool.fresh] at hf
    | execution hx => simp [Task.execution?] at hx
    | _ ht => simp at ht
  · intro k hk
    cases hk with
    | runs hx => simp [Task.execution?] at hx
    | _ ht => simp at ht

/-- Whether a task executes a job under a token. -/
def Task.runsUnder (t : Task) (k : Token) : Bool :=
  t.execution?.any fun x => x.token? == some k

theorem Task.of_runsUnder (h : t.runsUnder k = true) :
    ∃ x, t.execution? = some x ∧ x.token? = some k := by
  obtain ⟨x, hx, hk⟩ := (Option.any_eq_true _ _).mp h
  exact ⟨x, hx, eq_of_beq hk⟩

/-- Whether a move abandons the execution of a token. -/
def Move.abandonsAt (m : Move) (k : Token) : Bool :=
  m.deeds.any fun
    | .abandon c => c == k
    | _ => false

theorem Move.mem_of_abandonsAt (h : m.abandonsAt k = true) : .abandon k ∈ m.deeds := by
  obtain ⟨d, hd, habandons⟩ := List.any_eq_true.mp h
  cases d with
  | abandon c =>
    obtain rfl : c = k := eq_of_beq habandons
    exact hd
  | _ => exact absurd habandons (by simp)

theorem cancellations_are_isolated_two_executions :
    let mid := twoExecutions.follow whenIdle twoExecutionsTurns
    let late := twoExecutions.follow whenIdle (twoExecutionsTurns ++ twoExecutionsLaterTurns)
    (∃ m ∈ mid.1, .abandon ⟨[0, 1, 2]⟩ ∈ m.deeds ∧
      m.after.site.isCancelled ⟨[0, 1, 2]⟩ = true ∧ m.after.site.isCancelled ⟨[0, 1, 3]⟩ = false) ∧
    late.2.site.isCancelled ⟨[0, 1]⟩ = true ∧ late.2.site.isCancelled ⟨[0, 1, 3]⟩ = true ∧
      late.2.site.tokens.isAbandoned ⟨[0, 1, 3]⟩ = false := by
  intro mid late
  have hmid := cancellations_are_isolated opening_twoExecutions rooted_twoExecutions
    (Ensemble.interleaving_follow whenIdle twoExecutionsTurns twoExecutions)
  have hlate := cancellations_are_isolated opening_twoExecutions rooted_twoExecutions
    (Ensemble.interleaving_follow whenIdle (twoExecutionsTurns ++ twoExecutionsLaterTurns)
      twoExecutions)
  refine ⟨?_, by decide +kernel, ?_, by decide +kernel⟩
  · have hrun : mid.1.any (fun m => m.abandonsAt ⟨[0, 1, 2]⟩ &&
        (m.sys.activities.any (·.task.runsUnder ⟨[0, 1, 3]⟩) &&
          !m.site.isCancelled ⟨[0, 1, 3]⟩)) = true := by decide +kernel
    obtain ⟨m, hm, hdeeds⟩ := List.any_eq_true.mp hrun
    simp only [Bool.and_eq_true, Bool.not_eq_true'] at hdeeds
    obtain ⟨habandon, hother, hbefore⟩ := hdeeds
    have habandon : .abandon ⟨[0, 1, 2]⟩ ∈ m.deeds := Move.mem_of_abandonsAt habandon
    obtain ⟨a, ha, hruns⟩ := List.any_eq_true.mp hother
    obtain ⟨x, hx, hk⟩ := Task.of_runsUnder hruns
    obtain ⟨-, -, -, hcancelled, hsame⟩ := hmid.abandons m hm _ habandon
    exact ⟨m, hm, habandon, hcancelled,
      (hsame _ (.inr ⟨a, ha, .runs hx hk⟩) (by decide)).trans hbefore⟩
  · have hrun : late.1.any (fun m => m.mover.task.unmovedPool?.any fun p =>
        m.site.newToken p.shutdown == ⟨[0, 1]⟩ && m.launched.map (·.1) == [2, 3]) = true := by
      decide +kernel
    obtain ⟨m, hm, hpool⟩ := List.any_eq_true.mp hrun
    obtain ⟨p, hp, hids⟩ := (Option.any_eq_true _ _).mp hpool
    simp only [Bool.and_eq_true, beq_iff_eq] at hids
    obtain ⟨ht, hphase⟩ := Task.of_unmovedPool? hp
    have hcancelled : late.2.site.isCancelled (m.site.newToken p.shutdown) = true := by
      rw [hids.1]
      decide +kernel
    have hother : late.2.activities.any
        (fun a => a.id == 3 && a.task.runsUnder ⟨[0, 1, 3]⟩) = true := by decide +kernel
    obtain ⟨a, ha, hruns⟩ := List.any_eq_true.mp hother
    simp only [Bool.and_eq_true, beq_iff_eq] at hruns
    obtain ⟨x, hx, hk⟩ := Task.of_runsUnder hruns.2
    have hlaunched : a.id ∈ m.launched.map (·.1) := by simp [hids.2, hruns.1]
    exact ((hlate.pools m hm p ht hphase).2 hcancelled).2 a ha hlaunched x _ hx hk

end LeasedWork.Host
