import LeasedWork.Proofs.Host.Opening

/-!
# Schedules

A schedule says who moves next, and when time passes. Following one skips whatever is not allowed at
its turn, so that every schedule leads along an interleaving, and every interleaving that a
statement is tried on can be written down.
-/
namespace LeasedWork.Host

open Engine

/-- What a schedule has happen next. -/
inductive Turn where
  /-- The task of a number moves. -/
  | go (id : TaskId)
  /-- The clock goes on to a time. -/
  | pass (clock : Nat)
  deriving DecidableEq, Repr

variable {lapse : Ensemble → Nat → Prop}

theorem Interleaving.append {start mid sys : Ensemble} {before after : List Move}
    (h : Interleaving lapse start before mid) (h' : Interleaving lapse mid after sys) :
    Interleaving lapse start (before ++ after) sys := by
  induction h' with
  | nil => exact (List.append_nil before).symm ▸ h
  | move _ ha hf ih => exact List.append_assoc before _ _ ▸ ih.move ha hf
  | pause _ hp ih => exact ih.pause hp

instance (sys : Ensemble) (clock : Nat) : Decidable (anytime sys clock) :=
  inferInstanceAs (Decidable True)

instance (sys : Ensemble) (clock : Nat) : Decidable (whenIdle sys clock) :=
  inferInstanceAs (Decidable (∀ a ∈ sys.activities, a.isFree sys.site = false ∧
    ∀ deadline ∈ a.wait.bind Wait.deadline?, clock ≤ Ensemble.wholeMillis deadline))

namespace Ensemble

section

variable (lapse) [∀ sys clock, Decidable (lapse sys clock)]

/-- The moves of a schedule that are allowed, and the ensemble that they lead to. -/
def follow : List Turn → Ensemble → List Move × Ensemble
  | [], sys => ([], sys)
  | .go id :: rest, sys =>
    match sys.activity? id with
    | some a =>
      if a.isFree sys.site then
        ((⟨sys, a⟩ : Move) :: (follow rest (sys.move a)).1, (follow rest (sys.move a)).2)
      else follow rest sys
    | none => follow rest sys
  | .pass clock :: rest, sys =>
    if sys.site.clock ≤ clock ∧ lapse sys clock then
      follow rest { sys with site := { sys.site with clock := clock } }
    else follow rest sys

/-- A schedule leads along an interleaving. -/
theorem interleaving_follow (turns : List Turn) (sys : Ensemble) :
    Interleaving lapse sys (sys.follow lapse turns).1 (sys.follow lapse turns).2 := by
  induction turns generalizing sys with
  | nil => exact .nil
  | cons turn rest ih =>
    cases turn with
    | go id =>
      rw [follow]
      split
      · rename_i a hfind
        split
        · rename_i hfree
          have hmove : Interleaving lapse sys [⟨sys, a⟩] (sys.move a) :=
            Interleaving.nil.move (List.mem_of_find?_eq_some hfind) hfree
          exact hmove.append (ih (sys.move a))
        · exact ih sys
      · exact ih sys
    | pass clock =>
      rw [follow]
      split
      · rename_i hlapse
        exact (Interleaving.nil.pause (.lapse hlapse.1 hlapse.2)).append (ih _)
      · exact ih sys

end

theorem Within.host {p : Action → Prop} {sys : Ensemble} (h : sys.Within p) {task : Task}
    (ht : task.Within p) : (sys.host task).Within p := by
  refine ⟨h.handlers, fun a ha => ?_⟩
  rcases mem_host ha with ha | rfl
  · exact h.tasks a ha
  · exact ht

/-! ## A loop to follow -/

/-- A loop with a handler, and what is done around it. -/
def lone (timing : Timing) (actions : List (Nat × Action)) (handler : Handler) : Ensemble :=
  let site :=
    { Site.initial with
      ready := true, timing := timing, registry := Registry.empty.register .exports none handler }
  ((ofSite site).host (.timeline (.ofList actions))).host
    (.loop (.fresh .exports "a" 0 site.shutdown))

theorem opening_lone (timing : Timing) (actions : List (Nat × Action)) (handler : Handler) :
    (lone timing actions handler).Opening := by
  refine ((opening_ofSite rfl rfl ?_).host ?_).host ?_
  · exact fun t ht => absurd ht List.not_mem_nil
  · exact trivial
  · rfl

theorem within_lone {p : Action → Prop} {timing : Timing} {actions : List (Nat × Action)}
    {handler : Handler} (hp : ∀ entry ∈ actions, p entry.2) (hh : handler.Within p) :
    (lone timing actions handler).Within p := by
  have hactivities : (lone timing actions handler).activities = [_, _] := rfl
  constructor
  · intro entry hentry
    obtain rfl := List.mem_singleton.mp hentry
    exact hh
  · intro a ha
    rw [hactivities] at ha
    obtain rfl | rfl := List.mem_pair.mp ha
    · exact hp
    · intro x hx
      cases hx

/-! ## Two loops to follow -/

/-- Two loops with one handler, and a job for them from the beginning. -/
def pair (timing : Timing) (handler : Handler) : Ensemble :=
  let site :=
    { Site.initial with
      ready := true, timing := timing, registry := Registry.empty.register .exports none handler }
  (((ofSite site).host (.timeline (.ofList [(0, .enqueue .exports "" none 1)]))).host
    (.loop (.fresh .exports "a" 0 site.shutdown))).host
      (.loop (.fresh .exports "b" 1 site.shutdown))

variable (timing : Timing) {handler : Handler}

theorem opening_pair (handler : Handler) : (pair timing handler).Opening :=
  (opening_lone timing [(0, .enqueue .exports "" none 1)] handler).host rfl

theorem task_of_mem_pair {a : Activity} (ha : a ∈ (pair timing handler).activities) :
    a.task = .timeline (.ofList [(0, .enqueue .exports "" none 1)]) ∨
      ∃ l, a.task = .loop l ∧ l.phase = .gate := by
  have hactivities : (pair timing handler).activities = [_, _, _] := rfl
  rw [hactivities] at ha
  simp only [List.mem_cons, List.not_mem_nil, or_false] at ha
  obtain rfl | rfl | rfl := ha
  · exact .inl rfl
  · exact .inr ⟨_, rfl, rfl⟩
  · exact .inr ⟨_, rfl, rfl⟩

theorem within_pair {p : Action → Prop} (hp : p (.enqueue .exports "" none 1))
    (hh : handler.Within p) : (pair timing handler).Within p := by
  refine (within_lone (fun entry hentry => ?_) hh).host fun x hx => by cases hx
  exact List.mem_singleton.mp hentry ▸ hp

end Ensemble

end LeasedWork.Host
