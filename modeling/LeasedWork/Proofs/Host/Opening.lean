import LeasedWork.Proofs.Engine.Tokens
import LeasedWork.Proofs.Host.Operations

/-!
# Where an ensemble begins

An ensemble opens with tasks that have not moved yet, on a site whose tokens were made there. What
happened before does not matter otherwise: the store may hold jobs, the clock may stand anywhere.
-/
namespace LeasedWork

namespace Host

open Engine

/-- Whether a task has not moved yet. -/
def Task.IsFresh (s : Site) : Task → Prop
  | .heartbeat h => (∃ first, h.phase = .fresh first) ∧ s.tokens.Made h.execution
  | .loop l => l.phase = .gate
  | .pool p => p.phase = .fresh
  | .service v => v.phase = .fresh
  | .runs r => r.phase = .between
  | .conductor c => c.phase = .fresh
  | .watch w => s.tokens.Made w.execution
  | .timeline _ | .listener _ | .eventLog _ => True

/-- An ensemble none of whose tasks has moved yet. -/
structure Ensemble.Opening (sys : Ensemble) : Prop extends sys.Sound where
  fresh : ∀ a ∈ sys.activities, a.task.IsFresh sys.site
  waits : ∀ a ∈ sys.activities, a.wait = none
  made : ∀ t ∈ sys.site.tokens.abandoned, sys.site.tokens.Made t

theorem Ensemble.opening_ofSite {s : Site} (hstarting : s.starting = []) (hstopping : s.stopping = [])
    (hmade : ∀ t ∈ s.tokens.abandoned, s.tokens.Made t) : (Ensemble.ofSite s).Opening :=
  ⟨⟨List.nodup_nil, fun _ ha => absurd ha List.not_mem_nil, hstarting, hstopping⟩,
    fun _ ha => absurd ha List.not_mem_nil, fun _ ha => absurd ha List.not_mem_nil, hmade⟩

/-- What a hosted task is at first. -/
theorem Ensemble.activities_host (sys : Ensemble) (task : Task) :
    (sys.host task).activities = sys.activities ++ [⟨sys.site.nextTask, task, none, 0, 0⟩] := rfl

theorem Ensemble.mem_host {sys : Ensemble} {task : Task} {a : Activity}
    (h : a ∈ (sys.host task).activities) :
    a ∈ sys.activities ∨ a = ⟨sys.site.nextTask, task, none, 0, 0⟩ :=
  (List.mem_append.mp h).imp_right List.mem_singleton.mp

theorem Ensemble.Sound.host {sys : Ensemble} (h : sys.Sound) (task : Task) :
    (sys.host task).Sound := by
  refine ⟨?_, ?_, h.starting, h.stopping⟩
  · rw [Ensemble.ids, Ensemble.activities_host, List.map_append, List.nodup_append']
    refine ⟨h.nodup, List.nodup_singleton _, fun id hid hid' => ?_⟩
    obtain ⟨a, ha, rfl⟩ := List.mem_map.mp hid
    exact Nat.ne_of_lt (h.bounded a ha) (List.mem_singleton.mp hid')
  · intro a ha
    rcases Ensemble.mem_host ha with ha | rfl
    · exact Nat.lt_succ_of_lt (h.bounded a ha)
    · exact Nat.lt_succ_self _

/-- Tasks may be added while none has moved. -/
theorem Ensemble.Opening.host {sys : Ensemble} (h : sys.Opening) {task : Task}
    (ht : task.IsFresh sys.site) : (sys.host task).Opening := by
  refine ⟨h.toSound.host task, ?_, ?_, h.made⟩
  · intro a ha
    rcases Ensemble.mem_host ha with ha | rfl
    · exact h.fresh a ha
    · exact ht
  · intro a ha
    rcases Ensemble.mem_host ha with ha | rfl
    · exact h.waits a ha
    · rfl

theorem Task.IsFresh.execution? {s : Site} {t : Task} (h : t.IsFresh s) : t.execution? = none := by
  cases t with
  | loop l =>
    have hphase : l.phase = .gate := h
    simp only [Task.execution?, hphase]
  | runs r =>
    have hphase : r.phase = .between := h
    simp only [Task.execution?, hphase]
  | _ => rfl

/-! ## The store along an interleaving -/

variable {lapse : Ensemble → Nat → Prop} {start sys next : Ensemble} {history : List Move}

theorem Pause.store_eq (h : Pause lapse sys next) : next.site.store = sys.site.store := by
  obtain ⟨clock, -, hsite⟩ := h.site_eq
  rw [hsite]

/-- What every operation keeps of a store is kept by every interleaving. -/
theorem Interleaving.store_induction {P : Store → Prop}
    (hoperate : ∀ s now op, P s → P (s.perform now op).2) (hskip : ∀ s, P s → P s.skipNumber)
    (htally : ∀ s t, s.Tallied t → P s → P t) (h : Interleaving lapse start history sys)
    (hs : P start.site.store) : P sys.site.store := by
  induction h with
  | nil => exact hs
  | @move history sys a _ _ _ ih =>
    refine htally _ _ (Move.tallied_after ⟨sys, a⟩) ?_
    refine Deed.onAll_induction (P := fun s => P s.store) (fun d _ s hp => ?_) ih
    cases d with
    | operate op => exact hoperate _ _ _ hp
    | skip => exact hskip _ hp
    | _ => exact hp
  | pause _ hp ih => exact hp.store_eq ▸ ih

theorem sound_skipNumber {s : Store} (hs : s.Sound) : s.skipNumber.Sound := by
  refine ⟨hs.ordered, fun id hid => ?_⟩
  have hle := hs.bounded id hid
  simp only [Store.skipNumber]
  omega

/-- What every operation of a move keeps of the entries is kept by the move. -/
theorem Move.store_induction {m : Move} {P : Store → Prop}
    (hcongr : ∀ s t, t.entries = s.entries → P s → P t)
    (hop : ∀ op, .operate op ∈ m.deeds → ∀ s, s.Sound → P s → P (s.perform m.site.now op).2)
    (hs : m.site.store.Sound) (hp : P m.site.store) : P m.after.site.store := by
  apply hcongr _ _ m.tallied_after.entries
  refine (Deed.onAll_induction (P := fun t => t.store.Sound ∧ t.now = m.site.now ∧ P t.store)
    (fun d hd t ht => ?_) ⟨hs, rfl, hp⟩).2.2
  obtain ⟨hsound, hnow, hpt⟩ := ht
  cases d with
  | operate op =>
    have hperformed := hop op hd t.store hsound hpt
    rw [← hnow] at hperformed
    exact ⟨Store.sound_perform hsound t.now op, hnow, hperformed⟩
  | skip => exact ⟨sound_skipNumber hsound, hnow, hcongr t.store t.store.skipNumber rfl hpt⟩
  | _ => exact ⟨hsound, hnow, hpt⟩

theorem Interleaving.store_sound (h : Interleaving lapse start history sys)
    (hs : start.site.store.Sound) : sys.site.store.Sound :=
  h.store_induction (fun _ now op hs => Store.sound_perform hs now op)
    (fun _ hs => sound_skipNumber hs) (fun _ _ ht hs => ht.sound hs) hs

end Host

end LeasedWork
