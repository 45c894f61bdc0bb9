import LeasedWork.Store.Operation

/-!
# Entries of the store

The view of the store that statements about it are made in: which entry stands under a number. An
operation changes the entry of one number at most, so each has an equation here. What makes the
view faithful is that entries stand in the order of their numbers, each number once, and that the
store remembers a bound on them.
-/
namespace LeasedWork.Store

open Time (Instant)

variable {s : Store} {id k : Int} {e : Entry}

/-- A change of an entry that leaves it under its number. -/
def KeepsNumber (change : Entry → Entry) : Prop := ∀ e, (change e).job.id = e.job.id

theorem id_of_entry? (h : s.entry? id = some e) : e.job.id = id := by
  simpa using List.find?_some h

theorem find?_modifyFirst (change : Entry → Entry) (hc : KeepsNumber change) (id k : Int)
    (entries : List Entry) :
    (modifyFirst (fun e => e.job.id = id) change entries).find? (fun e => e.job.id = k) =
      if k = id then (entries.find? fun e => e.job.id = id).map change
      else entries.find? fun e => e.job.id = k := by
  induction entries with
  | nil => simp [modifyFirst]
  | cons e rest ih =>
    by_cases he : e.job.id = id
    · by_cases hk : k = id
      · simp [modifyFirst, he, hk, hc e]
      · have hne : e.job.id ≠ k := fun h => hk (h.symm.trans he)
        simp [modifyFirst, he, hk, hc e, Ne.symm hk]
    · by_cases hk : k = id
      · simpa [modifyFirst, he, hk] using ih
      · by_cases hek : e.job.id = k <;> simp [modifyFirst, he, hk, hek] at ih ⊢
        exact ih

/-- Only the entry of the number is changed. -/
theorem entry?_modify (s : Store) {change : Entry → Entry} (hc : KeepsNumber change) (id k : Int) :
    Store.entry? (s.modify id change) k = if k = id then (s.entry? id).map change else s.entry? k :=
  find?_modifyFirst change hc id k s.entries

theorem entry?_modify_self {change : Entry → Entry} (hc : KeepsNumber change)
    (h : s.entry? id = some e) : entry? (s.modify id change) id = some (change e) := by
  simp [Store.entry?_modify s hc, h]

theorem modifyFirst_congr {p : Entry → Bool} {f g : Entry → Entry} {entries : List Entry}
    (h : entries.find? p = some e) (hfg : f e = g e) :
    modifyFirst p f entries = modifyFirst p g entries := by
  induction entries with
  | nil => rfl
  | cons a rest ih =>
    by_cases ha : p a = true
    · rw [List.find?_cons_of_pos ha, Option.some.injEq] at h
      subst h
      simp [modifyFirst, ha, hfg]
    · rw [List.find?_cons_of_neg ha] at h
      simp [modifyFirst, ha, ih h]

/-- A change matters at the entry of the number only. -/
theorem modify_congr {f g : Entry → Entry} (h : s.entry? id = some e) (hfg : f e = g e) :
    s.modify id f = s.modify id g := by
  rw [modify, modify, modifyFirst_congr h hfg]

theorem map_modifyFirst {β : Type} (p : Entry → Bool) (change : Entry → Entry) (f : Entry → β)
    (hf : ∀ e, f (change e) = f e) (entries : List Entry) :
    (modifyFirst p change entries).map f = entries.map f := by
  induction entries with
  | nil => rfl
  | cons e rest ih => by_cases h : p e <;> simp [modifyFirst, h, hf, ih]

/-- The numbers of the entries, in their order. -/
def ids (s : Store) : List Int := s.entries.map (·.job.id)

theorem ids_modify (s : Store) {change : Entry → Entry} (hc : KeepsNumber change) (id : Int) :
    (s.modify id change).ids = s.ids :=
  map_modifyFirst _ change (·.job.id) hc s.entries

/-- Every number stands once, in order, and none is past the last one given out. -/
structure Sound (s : Store) : Prop where
  ordered : s.ids.Pairwise (· < ·)
  bounded : ∀ id ∈ s.ids, id ≤ s.lastId

theorem sound_empty (maxRetries : Int) : (empty maxRetries).Sound :=
  ⟨List.Pairwise.nil, by simp [ids, empty]⟩

/-- Where each number stands once, an entry is found under its own. -/
theorem Sound.entry?_of_mem (hs : s.Sound) (he : e ∈ s.entries) : s.entry? e.job.id = some e := by
  obtain ⟨before, after, hsplit⟩ := List.append_of_mem he
  have ho := hs.ordered
  rw [ids, hsplit, List.map_append, List.pairwise_append] at ho
  rw [Store.entry?, hsplit, List.find?_append, List.find?_eq_none.mpr, Option.none_or,
    List.find?_cons_of_pos (by simp)]
  intro a ha
  have hlt : a.job.id < e.job.id := ho.2.2 _ (List.mem_map_of_mem ha) _ (by simp)
  simp only [decide_eq_true_eq]
  omega

/-! ## Stores with the same entries -/

/-- Whether the second store differs from the first in what it counts and logs only. -/
structure Tallied (s t : Store) : Prop where
  entries : t.entries = s.entries
  lastId : t.lastId = s.lastId
  initialized : t.initialized = s.initialized
  failDequeue : t.failDequeue = s.failDequeue
  failHeartbeat : t.failHeartbeat = s.failHeartbeat
  failComplete : t.failComplete = s.failComplete
  maxRetries : t.maxRetries = s.maxRetries

variable {t : Store}

theorem Tallied.refl (s : Store) : Tallied s s := ⟨rfl, rfl, rfl, rfl, rfl, rfl, rfl⟩

theorem Tallied.trans {u : Store} (h : Tallied s t) (h' : Tallied t u) : Tallied s u :=
  ⟨h'.entries.trans h.entries, h'.lastId.trans h.lastId, h'.initialized.trans h.initialized,
    h'.failDequeue.trans h.failDequeue, h'.failHeartbeat.trans h.failHeartbeat,
    h'.failComplete.trans h.failComplete, h'.maxRetries.trans h.maxRetries⟩

theorem Tallied.sound (h : Tallied s t) (hs : s.Sound) : t.Sound := by
  have hids : t.ids = s.ids := by rw [ids, h.entries, ids]
  exact ⟨hids ▸ hs.ordered, fun id hid => h.lastId ▸ hs.bounded id (hids ▸ hid)⟩

theorem tallied_counts (s : Store) (completeCalls : List CompleteCall) (beats : List (Int × Nat))
    (dequeues : Nat) :
    Tallied s { s with completeCalls := completeCalls, beats := beats, dequeues := dequeues } :=
  ⟨rfl, rfl, rfl, rfl, rfl, rfl, rfl⟩

theorem Tallied.eq_counts (h : Tallied s t) :
    t = { s with completeCalls := t.completeCalls, beats := t.beats, dequeues := t.dequeues } := by
  obtain ⟨he, hl, hi, hd, hh, hc, hm⟩ := h
  cases t
  simp_all

theorem Tallied.skipNumber (h : Tallied s t) : Tallied s.skipNumber t.skipNumber :=
  { h with lastId := by simp only [Store.skipNumber, h.lastId] }

/-- What a store counts has no influence on what it answers and what it does next. -/
theorem Tallied.perform (h : Tallied s t) (now : Instant) (op : Operation) :
    (t.perform now op).1 = (s.perform now op).1 ∧
      Tallied (s.perform now op).2 (t.perform now op).2 := by
  obtain ⟨entries, lastId, calls, beats, dequeues, initialized, failD, failH, failC, retries⟩ := s
  rw [h.eq_counts]
  cases op with
  | dequeue request cancelled =>
    simp only [Store.perform, dequeue]
    cases cancelled <;> cases failD <;>
      cases entries.find? fun e => isEligible request now e.job <;>
      exact ⟨rfl, tallied_counts _ _ _ _⟩
  | heartbeat record =>
    simp only [Store.perform, heartbeat, Store.entry?]
    cases failH
    · cases entries.find? fun e => e.job.id = record.id with
      | none => exact ⟨rfl, tallied_counts _ _ _ _⟩
      | some e =>
        by_cases hl : e.job.version ≠ record.version ∨ e.job.status ≠ .running
        · simp only [if_pos hl]
          exact ⟨rfl, tallied_counts _ _ _ _⟩
        · simp only [if_neg hl]
          exact ⟨rfl, tallied_counts _ _ _ _⟩
    · exact ⟨rfl, tallied_counts _ _ _ _⟩
  | complete record force =>
    simp only [Store.perform, complete, Store.entry?]
    cases failC
    · cases record.status.isTerminal
      · exact ⟨rfl, tallied_counts _ _ _ _⟩
      · cases entries.find? fun e => e.job.id = record.id with
        | none => exact ⟨rfl, tallied_counts _ _ _ _⟩
        | some e =>
          by_cases hv : e.job.version ≠ record.version
          · simp only [if_pos hv]
            exact ⟨rfl, tallied_counts _ _ _ _⟩
          · simp only [if_neg hv]
            cases e.job.status.canBecome record.status
            · exact ⟨rfl, tallied_counts _ _ _ _⟩
            · cases isRequeued retries record.status force e.retries <;>
                exact ⟨rfl, tallied_counts _ _ _ _⟩
    · exact ⟨rfl, tallied_counts _ _ _ _⟩
  | requestCancel id =>
    simp only [Store.perform, requestCancel, Store.entry?]
    cases entries.find? fun e => e.job.id = id with
    | none => exact ⟨rfl, tallied_counts _ _ _ _⟩
    | some e =>
      dsimp only
      cases e.job.status.isTerminal <;> exact ⟨rfl, tallied_counts _ _ _ _⟩
  | age id seconds =>
    simp only [Store.perform, age, Store.entry?]
    cases entries.find? fun e => e.job.id = id with
    | none => exact ⟨rfl, tallied_counts _ _ _ _⟩
    | some e =>
      dsimp only
      cases e.job.beat.earlier seconds <;> exact ⟨rfl, tallied_counts _ _ _ _⟩
  | setFailing call value => cases call <;> exact ⟨rfl, tallied_counts _ _ _ _⟩
  | _ => exact ⟨rfl, tallied_counts _ _ _ _⟩

end LeasedWork.Store
