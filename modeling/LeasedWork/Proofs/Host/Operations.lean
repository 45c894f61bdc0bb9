import LeasedWork.Proofs.Host.Origin

/-!
# The operations and the events of a move

A move asks one operation of the store at most, unless it queues jobs. So what a move does to the
store is what that operation does to the store that the move found, and what it publishes are the
events among its deeds.
-/
namespace LeasedWork

namespace Engine

open Site (actDeeds deedsOfCall deedsOfStage)

/-- Whether a deed has nothing to do with the store. -/
def Deed.SparesStore : Deed → Prop
  | .operate _ | .skip => False
  | .publish _ | .cancel _ | .abandon _ | .child _ | .hold _ | .release _ | .spawn _ | .stop _ => True

theorem Deed.store_onAll {deeds : List Deed} (h : ∀ d ∈ deeds, d.SparesStore) (s : Site) :
    (onAll s deeds).store = s.store :=
  onAll_induction (P := fun t => t.store = s.store)
    (fun d hd _ ht => by cases d <;> first | exact absurd (h _ hd) id | exact ht) rfl

/-- The event that a deed sends. -/
def Deed.event? : Deed → Option Event
  | .publish e => some e
  | .operate _ | .skip | .cancel _ | .abandon _ | .child _ | .hold _ | .release _ | .spawn _
  | .stop _ => none

theorem Deed.sent_onAll (s : Site) (deeds : List Deed) :
    (onAll s deeds).bus.sent.toList = s.bus.sent.toList ++ deeds.filterMap event? := by
  induction deeds generalizing s with
  | nil => simp [onAll]
  | cons d rest ih =>
    apply (ih (d.on s)).trans
    cases d with
    | publish e => simp [on, Site.publish, Bus.send, event?]
    | _ => rfl

/-- Whether each operation among some deeds is the only one, or queues a job. -/
def Deed.Lone (deeds : List Deed) : Prop :=
  ∀ before op after, deeds = before ++ .operate op :: after →
    (∃ queue definition group, op = .enqueue queue definition group) ∨
      ∀ d ∈ before ++ after, d.SparesStore

section

variable {deeds more : List Deed}

theorem Deed.lone_of_sparesStore (h : ∀ d ∈ deeds, d.SparesStore) : Lone deeds := by
  intro before op after heq
  have hop : Deed.operate op ∈ deeds := by
    rw [heq]
    exact List.mem_append_right _ List.mem_cons_self
  exact absurd (h _ hop) id

theorem Deed.Lone.append (h : Lone deeds) (hm : ∀ d ∈ more, d.SparesStore) :
    Lone (deeds ++ more) := by
  intro before op after heq
  rcases List.append_eq_append_iff.mp heq with ⟨mid, rfl, hmore⟩ | ⟨mid, rfl, hcons⟩
  · have hop : Deed.operate op ∈ more := by
      rw [hmore]
      exact List.mem_append_right _ List.mem_cons_self
    exact absurd (hm _ hop) id
  · rcases List.cons_eq_append_iff.mp hcons with ⟨rfl, hmore⟩ | ⟨mid', rfl, rfl⟩
    · have hop : Deed.operate op ∈ more := hmore ▸ List.mem_cons_self
      exact absurd (hm _ hop) id
    · rcases h before op mid' rfl with hq | hs
      · exact .inl hq
      · right
        intro d hd
        rw [← List.append_assoc, List.mem_append] at hd
        exact hd.elim (hs d) (hm d)

theorem Deed.Lone.prepend (h : Lone deeds) (hm : ∀ d ∈ more, d.SparesStore) :
    Lone (more ++ deeds) := by
  intro before op after heq
  rcases List.append_eq_append_iff.mp heq with ⟨mid, rfl, hdeeds⟩ | ⟨mid, rfl, hcons⟩
  · rcases h mid op after hdeeds with hq | hs
    · exact .inl hq
    · right
      intro d hd
      rw [List.append_assoc, List.mem_append] at hd
      exact hd.elim (hm d) (hs d)
  · rcases List.cons_eq_append_iff.mp hcons with ⟨rfl, hdeeds⟩ | ⟨mid', rfl, rfl⟩
    · rcases h [] op after hdeeds with hq | hs
      · exact .inl hq
      · right
        intro d hd
        rw [List.mem_append] at hd
        refine hd.elim (fun hd => hm d ?_) (fun hd => hs d hd)
        rw [List.append_nil]
        exact hd
    · have hop := hm (.operate op) (by simp)
      exact absurd hop id

theorem Deed.lone_singleton (d : Deed) : Lone [d] := by
  intro before op after heq
  cases before with
  | nil =>
    obtain ⟨-, rfl⟩ := List.cons.inj heq
    exact .inr fun d hd => absurd hd List.not_mem_nil
  | cons a rest => simp at heq

theorem Deed.lone_nil : Lone [] := lone_of_sparesStore fun _ hd => absurd hd List.not_mem_nil

theorem Site.lone_deedsOfCall {α : Type} (answer : Option α) (op : Operation) :
    Deed.Lone (deedsOfCall answer op) := by
  unfold deedsOfCall
  split
  · exact Deed.lone_singleton _
  · exact Deed.lone_nil

theorem Site.lone_deedsOfStage {α : Type} (stage : CallStage) (answer : Option α) (op : Operation) :
    Deed.Lone (deedsOfStage stage answer op) := by
  unfold deedsOfStage
  split
  · exact lone_deedsOfCall _ _
  · exact Deed.lone_nil

theorem Site.lone_actDeeds (s : Site) (action : Action) : Deed.Lone (s.actDeeds action) := by
  cases action with
  | enqueue queue definition group count =>
    simp only [actDeeds]
    split
    · intro before op after heq
      have hop : Deed.operate op ∈
          List.replicate count (Deed.operate (.enqueue queue definition group)) := by
        rw [heq]
        exact List.mem_append_right _ List.mem_cons_self
      obtain ⟨-, hop⟩ := List.mem_replicate.mp hop
      exact .inl ⟨queue, definition, group, by simpa using hop⟩
    · split
      · exact Deed.lone_nil
      · exact Deed.lone_singleton _
  | dequeue request cancelled saveAs => exact lone_deedsOfCall _ _
  | dequeueNow queue worker saveAs => exact lone_deedsOfCall _ _
  | heartbeat lease overrides =>
    simp only [actDeeds]
    cases s.leases.lookup lease with
    | none => exact Deed.lone_nil
    | some record => exact lone_deedsOfCall _ _
  | complete lease overrides force =>
    simp only [actDeeds]
    cases s.leases.lookup lease with
    | none => exact Deed.lone_nil
    | some record => exact lone_deedsOfCall _ _
  | requestCancel | age | setInitialized | setFailing | shutdown => exact Deed.lone_singleton _
  | _ => exact Deed.lone_nil

theorem Invocation.lone_deeds (s : Site) (i : Invocation) : Deed.Lone (i.deeds s) := by
  unfold deeds
  split
  · exact s.lone_actDeeds _
  · exact Deed.lone_nil

theorem Execution.lone_deeds (s : Site) (x : Execution) : Deed.Lone (x.deeds s) := by
  unfold deeds
  dsimp only
  split
  · apply Deed.lone_of_sparesStore
    intro d hd
    unfold beginDeeds at hd
    split at hd
    · simp only [List.cons_append, List.nil_append, List.mem_cons, List.mem_append,
        List.not_mem_nil, or_false] at hd
      obtain rfl | rfl | hd | rfl | rfl := hd
      · exact trivial
      · exact trivial
      · split at hd
        · obtain rfl := List.mem_singleton.mp hd
          exact trivial
        · exact absurd hd List.not_mem_nil
      · exact trivial
      · exact trivial
    · obtain rfl := List.mem_singleton.mp hd
      exact trivial
  · apply (Invocation.lone_deeds _ _).append
    intro d hd
    split at hd
    · rcases List.mem_cons.mp hd with rfl | hd
      · exact trivial
      · unfold decideDeeds at hd
        split at hd
        · simp only [List.mem_cons, List.not_mem_nil, or_false] at hd
          obtain rfl | rfl := hd <;> exact trivial
        · exact absurd hd List.not_mem_nil
    · exact absurd hd List.not_mem_nil
  · apply (Site.lone_deedsOfStage _ _ _).append
    intro d hd
    split at hd
    · simp only [List.mem_cons, List.not_mem_nil, or_false] at hd
      obtain rfl | rfl := hd <;> exact trivial
    · obtain rfl := List.mem_singleton.mp hd
      exact trivial
    · obtain rfl := List.mem_singleton.mp hd
      exact trivial
    · exact absurd hd List.not_mem_nil

theorem Execution.dropDeeds_sparesStore (x : Execution) : ∀ d ∈ x.dropDeeds, d.SparesStore := by
  intro d hd
  unfold dropDeeds at hd
  split at hd
  · exact absurd hd List.not_mem_nil
  · simp only [List.mem_cons, List.not_mem_nil, or_false] at hd
    obtain rfl | rfl := hd <;> exact trivial
  · obtain rfl := List.mem_singleton.mp hd
    exact trivial

theorem Fleet.deeds_sparesStore (s : Site) (f : Fleet) : ∀ d ∈ f.deeds s, d.SparesStore := by
  intro d hd
  unfold deeds at hd
  split at hd
  · exact absurd hd List.not_mem_nil
  · obtain rfl := List.mem_singleton.mp hd
    exact trivial

theorem Heartbeat.lone_deeds (s : Site) (h : Heartbeat) : Deed.Lone (h.deeds s) := by
  unfold deeds
  split
  · exact Deed.lone_nil
  · exact Deed.lone_nil
  · apply (Site.lone_deedsOfStage _ _ _).append
    intro d hd
    split at hd
    · obtain rfl := List.mem_singleton.mp hd
      exact trivial
    · obtain rfl := List.mem_singleton.mp hd
      exact trivial
    · exact absurd hd List.not_mem_nil
  · exact Deed.lone_singleton _

theorem PollLoop.lone_deeds (s : Site) (l : PollLoop) : Deed.Lone (l.deeds s) := by
  unfold deeds
  split
  · exact Site.lone_deedsOfStage _ _ _
  · exact Site.lone_deedsOfStage _ _ _
  · exact Execution.lone_deeds _ _
  all_goals exact Deed.lone_nil

theorem Pool.deeds_sparesStore (s : Site) (p : Pool) : ∀ d ∈ p.deeds s, d.SparesStore := by
  intro d hd
  unfold deeds at hd
  split at hd
  · simp only [List.cons_append, List.nil_append, List.mem_cons, List.mem_map] at hd
    obtain rfl | rfl | ⟨slot, -, rfl⟩ := hd <;> exact trivial
  · rcases List.mem_append.mp hd with hd | hd
    · exact Fleet.deeds_sparesStore _ _ d hd
    · split at hd
      · obtain rfl := List.mem_singleton.mp hd
        exact trivial
      · exact absurd hd List.not_mem_nil

theorem Service.deeds_sparesStore (s : Site) (v : Service) : ∀ d ∈ v.deeds s, d.SparesStore := by
  intro d hd
  unfold deeds at hd
  split at hd
  · exact absurd hd List.not_mem_nil
  · split at hd
    · exact absurd hd List.not_mem_nil
    · simp only [List.mem_cons, List.mem_map] at hd
      obtain rfl | ⟨hosted, -, rfl⟩ := hd <;> exact trivial
  · exact Fleet.deeds_sparesStore _ _ d hd

end

end Engine

namespace Host

open Engine

theorem Runs.lone_deeds (s : Site) (r : Runs) : Deed.Lone (r.deeds s) := by
  unfold deeds
  split
  · exact Deed.lone_nil
  · split
    · exact Deed.lone_nil
    · apply (Site.lone_deedsOfCall _ _).prepend
      intro d hd
      split at hd
      · obtain rfl := List.mem_singleton.mp hd
        exact trivial
      · exact absurd hd List.not_mem_nil
    · split
      · exact Execution.lone_deeds _ _
      · exact Deed.lone_of_sparesStore (Execution.dropDeeds_sparesStore _)

theorem Conductor.lone_deeds (s : Site) (c : Conductor) : Deed.Lone (c.deeds s) := by
  unfold deeds
  split
  · exact Deed.lone_singleton _
  · split
    · exact Deed.lone_nil
    · split
      · exact Deed.lone_singleton _
      · exact Deed.lone_nil
  · split
    · exact Deed.lone_singleton _
    · exact Deed.lone_nil
  · exact Deed.lone_nil
  · exact Deed.lone_nil

theorem Watch.lone_deeds (s : Site) (w : Watch) : Deed.Lone (w.deeds s) := by
  unfold deeds
  split
  · exact Deed.lone_nil
  · split
    · unfold actionDeeds
      split
      · exact Site.lone_actDeeds _ _
      · exact Deed.lone_nil
      · exact Deed.lone_singleton _
      · exact Deed.lone_singleton _
    · exact Deed.lone_nil

/-- Of the deeds of a move, each operation is the only one or queues a job. -/
theorem Task.lone_deeds (s : Site) (t : Task) : Deed.Lone (t.deeds s) := by
  cases t with
  | heartbeat h => exact h.lone_deeds s
  | loop l => exact l.lone_deeds s
  | pool p => exact Deed.lone_of_sparesStore (p.deeds_sparesStore s)
  | service v => exact Deed.lone_of_sparesStore (v.deeds_sparesStore s)
  | timeline l =>
    simp only [deeds, Timeline.deeds]
    split
    · exact Deed.lone_nil
    · split
      · exact Site.lone_actDeeds _ _
      · exact Deed.lone_nil
  | listener l => exact Deed.lone_nil
  | eventLog l => exact Deed.lone_nil
  | runs r => exact r.lone_deeds s
  | conductor c => exact c.lone_deeds s
  | watch w => exact w.lone_deeds s

namespace Move

variable {m : Move}

/-- The store that a move leaves, but for what it counts. -/
theorem tallied_after (m : Move) : (Deed.onAll m.site m.deeds).store.Tallied m.after.site.store := by
  obtain ⟨ended, h⟩ := m.sys.site_move m.mover
  rw [after, h]
  exact (m.mover.task.aside_step m.site).store

/-- A move that asks an operation of the store, and does not queue jobs, leaves the store as the
operation does. -/
theorem tallied_of_operation {op : Operation} (h : .operate op ∈ m.deeds)
    (hop : ∀ queue definition group, op ≠ .enqueue queue definition group) :
    (m.site.store.perform m.site.now op).2.Tallied m.after.site.store := by
  obtain ⟨before, after, hsplit⟩ := List.append_of_mem h
  obtain ⟨queue, definition, group, rfl⟩ | hspare :=
    Task.lone_deeds m.site m.mover.task before op after hsplit
  · exact absurd rfl (hop queue definition group)
  · have htallied := m.tallied_after
    have hbefore : (Deed.onAll m.site before).store = m.site.store :=
      Deed.store_onAll (fun d hd => hspare d (List.mem_append_left _ hd)) _
    have hnow : (Deed.onAll m.site before).now = m.site.now := by
      rw [Site.now, Site.clock_onAll, Site.now]
    rw [hsplit, Deed.onAll_append, Deed.onAll, List.foldl_cons, ← Deed.onAll,
      Deed.store_onAll (fun d hd => hspare d (List.mem_append_right _ hd))] at htallied
    simpa only [Deed.on, hbefore, hnow] using htallied

/-- The events that a move sends. -/
def published (m : Move) : List Event := m.after.site.bus.sent.toList.drop m.site.bus.sent.size

theorem published_eq (m : Move) : m.published = m.deeds.filterMap Deed.event? := by
  obtain ⟨ended, h⟩ := m.sys.site_move m.mover
  have hbus : m.after.site.bus = (Deed.onAll m.site m.deeds).bus := by
    rw [after, h]
    exact (m.mover.task.aside_step m.site).bus
  rw [published, hbus, Deed.sent_onAll, ← Array.length_toList, List.drop_left]

theorem mem_published {e : Event} : e ∈ m.published ↔ .publish e ∈ m.deeds := by
  rw [published_eq, List.mem_filterMap]
  constructor
  · rintro ⟨d, hd, he⟩
    cases d <;> simp [Deed.event?] at he
    exact he ▸ hd
  · exact fun h => ⟨_, h, rfl⟩

end Move

end Host

end LeasedWork
