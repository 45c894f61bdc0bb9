import LeasedWork.Proofs.Host.Fleets

/-!
# How far cancellations reach

A handler may ask for shutdown, like anyone outside the engine. What the tasks of the engine cancel
of their own accord are tokens that were made for them: a fleet cancels its own, a heartbeat and an
execution that of the execution. Such a token was made after the start, so nothing that was made
before lies below it.
-/
namespace LeasedWork

theorem Token.covers_iff {t u : Token} : t.covers u = true ↔ t.path <+: u.path := by
  simp [covers]

theorem Token.covers_trans {t u v : Token} (h : t.covers u = true) (h' : u.covers v = true) :
    t.covers v = true :=
  covers_iff.mpr ((covers_iff.mp h).trans (covers_iff.mp h'))

/-- A token that was not made before covers none all of whose path was. -/
theorem Token.not_covers_of_not_made {ts : Tokens} {t c : Token} (ht : ¬ ts.Made t)
    (hc : ∀ n ∈ c.path, n < ts.next) : t.covers c = false := by
  rw [Bool.eq_false_iff]
  intro hcovers
  refine ht fun n hn => hc n ?_
  exact (covers_iff.mp hcovers).subset (List.mem_of_getLast? hn)

namespace Engine

variable {s : Site} {x : Execution} {d : Deed} {k : Token}

/-- What is made below a cancelled token is cancelled. -/
theorem Site.isCancelled_newToken {parent : Token} (t : Site) (h : s.isCancelled parent = true) :
    s.isCancelled (t.newToken parent) = true := by
  simp only [isCancelled, Tokens.isCancelled, List.any_eq_true] at h ⊢
  obtain ⟨c, hc, hcovers⟩ := h
  exact ⟨c, hc, Token.covers_trans hcovers (Tokens.covers_child t.tokens parent)⟩

/-- A token does not cover the one that it was made below. -/
theorem Site.not_covers_of_child {parent t : Token} {n : Nat} (ht : t.path = parent.path ++ [n]) :
    t.covers parent = false := by
  rw [Bool.eq_false_iff]
  intro hcovers
  have hle := (Token.covers_iff.mp hcovers).length_le
  rw [ht, List.length_append, List.length_singleton] at hle
  omega

/-- Whether the handler of an execution asks for shutdown in its next step. -/
def Execution.AsksShutdown (x : Execution) : Prop :=
  ∃ i k beats rest, x.phase = .handling i k beats ∧ i.phase = .ready ∧
    i.steps = .act .shutdown :: rest

/-- An execution cancels its own token at its beginning, and nothing else unless its handler asks
for shutdown. -/
theorem Execution.cancels_cases (hd : d ∈ x.deeds s) (hk : d.Cancels k) :
    x.AsksShutdown ∨ x.phase = .fresh ∧ (s.newToken x.shutdown).covers k = true := by
  unfold deeds at hd
  cases hphase : x.phase with
  | fresh =>
    simp only [hphase, beginDeeds] at hd
    split at hd
    · simp only [List.cons_append, List.nil_append, List.mem_cons, List.mem_append,
        List.not_mem_nil, or_false] at hd
      obtain rfl | rfl | hd | rfl | rfl := hd
      · exact hk.elim
      · exact hk.elim
      · split at hd
        · obtain rfl := List.mem_singleton.mp hd
          exact .inr ⟨rfl, hk⟩
        · exact absurd hd List.not_mem_nil
      · exact hk.elim
      · exact hk.elim
    · obtain rfl := List.mem_singleton.mp hd
      exact hk.elim
  | handling i token beats =>
    simp only [hphase, List.mem_append] at hd
    rcases hd with hd | hd
    · unfold Invocation.deeds at hd
      split at hd
      · rename_i action rest hready hsteps
        rcases mem_actDeeds hd with rfl | ⟨rfl, -⟩ | ⟨op, rfl, -⟩
        · exact hk.elim
        · exact .inl ⟨i, token, beats, rest, hphase, hready, hsteps⟩
        · exact hk.elim
      · exact absurd hd List.not_mem_nil
    · split at hd
      · rcases List.mem_cons.mp hd with rfl | hd
        · exact hk.elim
        · unfold decideDeeds at hd
          split at hd
          · simp only [List.mem_cons, List.not_mem_nil, or_false] at hd
            obtain rfl | rfl := hd <;> exact hk.elim
          · exact absurd hd List.not_mem_nil
      · exact absurd hd List.not_mem_nil
  | finalizing token disposition o record stage =>
    simp only [hphase, List.mem_append] at hd
    rcases hd with hd | hd
    · obtain ⟨-, -, rfl⟩ := mem_deedsOfStage hd
      exact hk.elim
    · split at hd
      · simp only [List.mem_cons, List.not_mem_nil, or_false] at hd
        obtain rfl | rfl := hd <;> exact hk.elim
      · obtain rfl := List.mem_singleton.mp hd
        exact hk.elim
      · obtain rfl := List.mem_singleton.mp hd
        exact hk.elim
      · exact absurd hd List.not_mem_nil

theorem Heartbeat.cancels_cases {h : Heartbeat} (hd : d ∈ h.deeds s) (hk : d.Cancels k) :
    h.execution.covers k = true := by
  unfold deeds at hd
  split at hd
  · exact absurd hd List.not_mem_nil
  · exact absurd hd List.not_mem_nil
  · rcases List.mem_append.mp hd with hd | hd
    · obtain ⟨-, -, rfl⟩ := mem_deedsOfStage hd
      exact hk.elim
    · split at hd
      · obtain rfl := List.mem_singleton.mp hd
        exact hk
      · obtain rfl := List.mem_singleton.mp hd
        exact hk.elim
      · exact absurd hd List.not_mem_nil
  · obtain rfl := List.mem_singleton.mp hd
    exact hk.elim

/-- A fleet cancels its token when one of its tasks has ended. -/
theorem Fleet.cancels_cases {f : Fleet} (hd : d ∈ f.deeds s) (hk : d.Cancels k) :
    (∃ id ∈ f.running, s.hasEnded id = true) ∧ f.scope.covers k = true := by
  unfold deeds at hd
  split at hd
  · exact absurd hd List.not_mem_nil
  · rename_i hfirst
    simp only [not_or] at hfirst
    obtain ⟨⟨id, panicked⟩, hended⟩ := Option.ne_none_iff_exists'.mp hfirst.2.2
    obtain rfl := List.mem_singleton.mp hd
    exact ⟨⟨id, Site.of_firstEnded? hended⟩, hk⟩

end Engine

namespace Host

open Engine

variable {lapse : Ensemble → Nat → Prop} {start sys next : Ensemble} {history : List Move}
  {a b : Activity} {s : Site} {t : Task} {f : Fleet} {d : Deed} {k : Token}

/-! ## What tasks of the engine cancel -/

/-- Whether a task is one of the engine's. -/
def Task.IsEngine : Task → Prop
  | .heartbeat _ | .loop _ | .pool _ | .service _ => True
  | .timeline _ | .listener _ | .eventLog _ | .runs _ | .conductor _ | .watch _ => False

/-- Why a task of the engine cancels a token. -/
inductive Task.Cancels (s : Site) (t : Task) (k : Token) : Prop
  | asked {x : Execution} (hx : t.acting? s = some x) (h : x.AsksShutdown)
  | begun {x : Execution} (hx : t.acting? s = some x) (hk : (s.newToken x.shutdown).covers k = true)
  | beaten {h : Heartbeat} (ht : t = .heartbeat h) (hk : h.execution.covers k = true)
  | closed {f : Fleet} (hf : t.fleet? = some f) (hended : ∃ id ∈ f.running, s.hasEnded id = true)
      (hk : f.scope.covers k = true)

theorem Task.cancels_of_mem_deeds (he : t.IsEngine) (hd : d ∈ t.deeds s) (hk : d.Cancels k) :
    t.Cancels s k := by
  cases t with
  | heartbeat h => exact .beaten rfl (Heartbeat.cancels_cases hd hk)
  | loop l =>
    cases hphase : l.phase with
    | executing x =>
      have hx : (Task.loop l).acting? s = some x := by simp only [acting?, hphase]
      rw [deeds_of_acting? hx] at hd
      rcases Execution.cancels_cases hd hk with h | ⟨-, h⟩
      · exact .asked hx h
      · exact .begun hx h
    | scanning stage =>
      simp only [deeds, PollLoop.deeds, hphase] at hd
      obtain ⟨-, -, rfl⟩ := mem_deedsOfStage hd
      exact hk.elim
    | fetching stage =>
      simp only [deeds, PollLoop.deeds, hphase] at hd
      obtain ⟨-, -, rfl⟩ := mem_deedsOfStage hd
      exact hk.elim
    | _ =>
      simp only [deeds, PollLoop.deeds, hphase] at hd
      exact absurd hd List.not_mem_nil
  | pool p =>
    cases hphase : p.phase with
    | fresh =>
      simp only [deeds, Pool.deeds, hphase, List.cons_append, List.nil_append, List.mem_cons,
        List.mem_map] at hd
      obtain rfl | rfl | ⟨slot, -, rfl⟩ := hd <;> exact hk.elim
    | watching loops =>
      simp only [deeds, Pool.deeds, hphase] at hd
      rcases List.mem_append.mp hd with hd | hd
      · obtain ⟨hended, hcovers⟩ := Fleet.cancels_cases hd hk
        exact .closed (by simp only [fleet?, hphase]) hended hcovers
      · split at hd
        · obtain rfl := List.mem_singleton.mp hd
          exact hk.elim
        · exact absurd hd List.not_mem_nil
  | service v =>
    cases hphase : v.phase with
    | fresh =>
      simp only [deeds, Service.deeds, hphase] at hd
      exact absurd hd List.not_mem_nil
    | waiting =>
      simp only [deeds, Service.deeds, hphase] at hd
      split at hd
      · exact absurd hd List.not_mem_nil
      · simp only [List.mem_cons, List.mem_map] at hd
        obtain rfl | ⟨hosted, -, rfl⟩ := hd <;> exact hk.elim
    | watching pools =>
      simp only [deeds, Service.deeds, hphase] at hd
      obtain ⟨hended, hcovers⟩ := Fleet.cancels_cases hd hk
      exact .closed (by simp only [fleet?, hphase]) hended hcovers
  | _ => exact he.elim

/-! ## Tokens of the engine -/

theorem Task.IsFresh.fleet? (h : t.IsFresh s) : t.fleet? = none := by
  cases t with
  | pool p =>
    have hphase : p.phase = .fresh := h
    simp only [Task.fleet?, hphase]
  | service v =>
    have hphase : v.phase = .fresh := h
    simp only [Task.fleet?, hphase]
  | _ => rfl

/-- Whether a task opens a fleet in its next move, under a token that it makes below another one. -/
inductive Task.OpensFleet (s : Site) (t : Task) (parent : Token) : Prop
  | pool {p : Pool} (ht : t = .pool p) (hphase : p.phase = .fresh) (hk : p.shutdown = parent)
  | service {v : Service} (ht : t = .service v) (hphase : v.phase = .waiting)
      (hready : s.isCancelled v.shutdown = false) (hk : v.shutdown = parent)

/-- A task that watches a fleet has watched it before, or has just opened it. -/
theorem Task.fleet_cases {t' : Task} (hs : s.starting = []) (h : (t.step s).1.state? = some t')
    (hf : t'.fleet? = some f) :
    (∃ g, t.fleet? = some g ∧ f.scope = g.scope ∧ f.running ⊆ g.running) ∨
      ∃ parent, t.OpensFleet s parent ∧ f.scope = s.newToken parent := by
  have hwatches : ∀ g, t.fleet? = some g → f.scope = g.scope ∧ f.running ⊆ g.running := by
    intro g hg
    have hgoes := goes_of_fleet? (s := s) hg
    generalize (t.step s).1 = p at h hgoes
    cases hgoes with
    | ends => simp [Progress.state?] at h
    | notes _ _ ht =>
      obtain rfl := Option.some.inj h
      obtain rfl := Option.some.inj (hf.symm.trans ht)
      exact ⟨rfl, List.filter_subset_self _⟩
    | waits _ ht =>
      obtain rfl := Option.some.inj h
      obtain rfl := Option.some.inj (hf.symm.trans ht)
      exact ⟨rfl, List.Subset.refl _⟩
  cases hg : t.fleet? with
  | some g => exact .inl ⟨g, rfl, hwatches g hg⟩
  | none =>
    right
    cases t with
    | pool p =>
      obtain ⟨p', hp', rfl⟩ : ∃ p', (p.step s).1.state? = some p' ∧ Task.pool p' = t' :=
        state?_within h
      cases hphase : p.phase with
      | watching loops => simp [fleet?, hphase] at hg
      | fresh =>
        obtain ⟨g, hstep, -, hscope, -⟩ := Pool.step_of_fresh hs hphase
        rw [hstep] at hp'
        obtain rfl := Option.some.inj hp'
        obtain rfl := Option.some.inj hf
        exact ⟨_, .pool rfl hphase rfl, hscope⟩
    | service v =>
      obtain ⟨v', hv', rfl⟩ : ∃ v', (v.step s).1.state? = some v' ∧ Task.service v' = t' :=
        state?_within h
      cases hphase : v.phase with
      | watching pools => simp [fleet?, hphase] at hg
      | fresh =>
        simp only [Service.step, hphase] at hv'
        split at hv'
        · simp [Progress.state?] at hv'
        · obtain rfl := Option.some.inj hv'
          simp [fleet?] at hf
      | waiting =>
        cases hready : s.isCancelled v.shutdown with
        | true => simp [Service.step, hphase, hready, Progress.state?] at hv'
        | false =>
          obtain ⟨g, hstep, -, hscope, -⟩ := Service.step_of_waiting hs hphase hready
          rw [hstep] at hv'
          obtain rfl := Option.some.inj hv'
          obtain rfl := Option.some.inj hf
          exact ⟨_, .service rfl hphase hready rfl, hscope⟩
    | _ =>
      obtain ⟨_, -, rfl⟩ := state?_within h
      simp [fleet?] at hf

/-- What is known of the tokens that tasks of the engine cancel: they were made after the start, or
belong to heartbeats that were there at the start. -/
structure Ensemble.Granted (start sys : Ensemble) : Prop where
  next_le : start.site.tokens.next ≤ sys.site.tokens.next
  fleets : ∀ a ∈ sys.activities, ∀ f, a.task.fleet? = some f → ¬ start.site.tokens.Made f.scope
  beats : ∀ a ∈ sys.activities, ∀ h, a.task = .heartbeat h → ¬ start.site.tokens.Made h.execution ∨
    ∃ b ∈ start.activities, ∃ g, b.task = .heartbeat g ∧ g.execution = h.execution

namespace Ensemble

theorem Granted.not_made_newToken (hg : Granted start sys) (parent : Token) :
    ¬ start.site.tokens.Made (sys.site.newToken parent) := by
  intro hmade
  have hlt := (Tokens.made_child_iff sys.site.tokens start.site.tokens parent).mp hmade
  exact Nat.not_lt.mpr hg.next_le hlt

theorem Granted.move (hg : Granted start sys) (hs : sys.Sound) (ha : a ∈ sys.activities) :
    Granted start (sys.move a) := by
  refine ⟨Nat.le_trans hg.next_le (Move.next_le_after ⟨sys, a⟩), ?_, ?_⟩
  · refine hs.tasks_move
      (Q := fun t => ∀ f, t.fleet? = some f → ¬ start.site.tokens.Made f.scope)
      (fun t ht => ?_) (fun b hb _ => hg.fleets b hb) (fun t ht f hf => ?_) (fun s _ f hf => ?_)
    · cases t <;> exact ht
    · rcases Task.fleet_cases hs.starting ht hf with
        ⟨g, hfleet, hscope, -⟩ | ⟨parent, -, hscope⟩
      · rw [hscope]
        exact hg.fleets a ha g hfleet
      · rw [hscope]
        exact hg.not_made_newToken parent
    · obtain ⟨id, s⟩ := s
      cases s <;> simp [Task.ofStart, Task.fleet?, Pool.fresh, Service.fresh] at hf
  · intro b hb h ht
    rcases hs.heartbeat_move ha hb ht with ⟨c, hc, g, hgt, -, he⟩ | ⟨x, -, -, -, -, he⟩
    · rw [he]
      exact hg.beats c hc g hgt
    · rw [he]
      exact .inl (hg.not_made_newToken _)

theorem Granted.pause (hg : Granted start sys) (hp : Pause lapse sys next) :
    Granted start next := by
  obtain ⟨clock, -, hsite⟩ := hp.site_eq
  refine ⟨by rw [hsite]; exact hg.next_le, fun b hb f hf => ?_, fun b hb h ht => ?_⟩
  · obtain ⟨c, hc, -, htask⟩ := hp.exists_task hb
    exact hg.fleets c hc f (htask ▸ hf)
  · obtain ⟨c, hc, -, htask⟩ := hp.exists_task hb
    exact hg.beats c hc h (htask.trans ht)

theorem Opening.granted (h : start.Opening) : Granted start start := by
  refine ⟨Nat.le_refl _, fun a ha f hf => ?_, fun a ha g hg => .inr ⟨a, ha, g, hg, rfl⟩⟩
  rw [(h.fresh a ha).fleet?] at hf
  exact absurd hf (by simp)

end Ensemble

theorem Interleaving.granted (h : Interleaving lapse start history sys) (hs : start.Opening) :
    Ensemble.Granted start sys := by
  induction h with
  | nil => exact hs.granted
  | move h ha _ ih => exact ih.move (h.sound hs.toSound) ha
  | pause _ hp ih => exact ih.pause hp

/-- A token that was made before the start is not cancelled by a task of the engine, unless a
handler asks for shutdown. -/
theorem Ensemble.Granted.asked_of_cancelled (hg : Granted start sys) (ha : a ∈ sys.activities)
    (he : a.task.IsEngine) (hk : ∀ n ∈ k.path, n < start.site.tokens.next)
    (hbeats : ∀ b ∈ start.activities, ∀ g, b.task = .heartbeat g → g.execution.covers k = false)
    (hbefore : sys.site.isCancelled k = false) (hafter : (sys.move a).site.isCancelled k = true) :
    ∃ x, a.task.acting? sys.site = some x ∧ x.AsksShutdown := by
  have hspares : ∀ t, ¬ start.site.tokens.Made t → t.covers k = true → False := by
    intro t ht hcovers
    rw [Token.not_covers_of_not_made ht hk] at hcovers
    exact absurd hcovers (by simp)
  rcases (Move.isCancelled_after ⟨sys, a⟩ k).mp hafter with hold | ⟨d, hd, hcancels⟩
  · exact absurd (hbefore.symm.trans hold) (by simp)
  · cases Task.cancels_of_mem_deeds he hd hcancels with
    | asked hx h => exact ⟨_, hx, h⟩
    | begun _ hcovers => exact (hspares _ (hg.not_made_newToken _) hcovers).elim
    | @beaten h ht hcovers =>
      rcases hg.beats a ha h ht with hmade | ⟨b, hb, g, hbt, hexecution⟩
      · exact (hspares _ hmade hcovers).elim
      · rw [← hexecution, hbeats b hb g hbt] at hcovers
        exact absurd hcovers (by simp)
    | closed hf _ hcovers => exact (hspares _ (hg.fleets a ha _ hf) hcovers).elim

end Host

end LeasedWork
