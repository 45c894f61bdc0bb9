import Mathlib.Data.Finset.Card
import Mathlib.Data.List.Nodup
import LeasedWork.Proofs.Dispatch.StatedKind
import LeasedWork.Registry

/-!
# Which handler a registry answers with

Registries are filled by registrations and copied as a whole. What a registry holds is what the
registrations make that it has seen: those on itself, and those that its source had seen when it
was copied. The handler of a job, the queues and the size of a registry are then told by that list
alone.
-/
namespace LeasedWork.Registry

variable {α : Type}

/-! ## Calls -/

/-- A change of one of several registries, which are known by numbers. -/
inductive Call (α : Type) where
  | register (target : Nat) (queue : Queue) (kind : Option Int) (handler : α)
  /-- A copy of the source takes the place of the target. -/
  | clone (source target : Nat)
  deriving DecidableEq, Repr

/-- The registry that a call changes. -/
def Call.target : Call α → Nat
  | register target _ _ _ => target
  | clone _ target => target

def Call.apply (registries : Nat → Registry α) : Call α → Nat → Registry α
  | register target queue kind handler =>
    Function.update registries target ((registries target).register queue kind handler)
  | clone source target => Function.update registries target (registries source)

/-- The registries after calls, of which all are empty at first. -/
def run (calls : List (Call α)) : Nat → Registry α := calls.foldl Call.apply fun _ => empty

variable {calls : List (Call α)} {i : Nat} {key : Queue × Option Int} {handler : α}

theorem run_concat (calls : List (Call α)) (call : Call α) :
    run (calls ++ [call]) = call.apply (run calls) :=
  List.foldl_concat ..

theorem Call.apply_of_ne {call : Call α} (h : call.target ≠ i) (registries : Nat → Registry α) :
    call.apply registries i = registries i := by
  cases call with
  | register => exact Function.update_of_ne (Ne.symm h) ..
  | clone => exact Function.update_of_ne (Ne.symm h) ..

/-- A registry does not change by calls on other ones, copies of it included. -/
theorem run_append_of_ne {later : List (Call α)} (h : ∀ call ∈ later, call.target ≠ i) :
    run (calls ++ later) i = run calls i := by
  induction later using List.reverseRecOn with
  | nil => rw [List.append_nil]
  | append_singleton later call ih =>
    rw [← List.append_assoc, run_concat, Call.apply_of_ne (h call (by simp))]
    apply ih
    intro other hother
    exact h other (List.mem_append_left _ hother)

/-! ## Registrations -/

/-- The registry that held before some calls what one holds after them, as far as the calls have
only copied it. -/
def origin : List (Call α) → Nat → Nat
  | [], i => i
  | .register .. :: later, i => origin later i
  | .clone source target :: later, i =>
    if origin later i = target then source else origin later i

/-- The registrations that a registry has seen by itself or before it was copied, in order. -/
def registrations : List (Call α) → Nat → List ((Queue × Option Int) × α)
  | [], _ => []
  | .register target queue kind handler :: later, i =>
    if origin later i = target then ((queue, kind), handler) :: registrations later i
    else registrations later i
  | .clone .. :: later, i => registrations later i

theorem origin_concat_register (calls : List (Call α)) (target : Nat) (queue : Queue)
    (kind : Option Int) (handler : α) (i : Nat) :
    origin (calls ++ [.register target queue kind handler]) i = origin calls i := by
  induction calls with
  | nil => rfl
  | cons call later ih =>
    cases call with
    | register => exact ih
    | clone => simp only [List.cons_append, origin, ih]

theorem origin_concat_clone (calls : List (Call α)) (source target i : Nat) :
    origin (calls ++ [.clone source target]) i =
      origin calls (if i = target then source else i) := by
  induction calls with
  | nil => rfl
  | cons call later ih =>
    cases call with
    | register => exact ih
    | clone => simp only [List.cons_append, origin, ih]

theorem registrations_concat_register (calls : List (Call α)) (target : Nat) (queue : Queue)
    (kind : Option Int) (handler : α) (i : Nat) :
    registrations (calls ++ [.register target queue kind handler]) i =
      registrations calls i ++ if i = target then [((queue, kind), handler)] else [] := by
  induction calls with
  | nil => by_cases h : i = target <;> simp [registrations, origin, h]
  | cons call later ih =>
    cases call with
    | register =>
      simp only [List.cons_append, registrations, origin_concat_register, ih]
      split <;> simp
    | clone => exact ih

theorem registrations_concat_clone (calls : List (Call α)) (source target i : Nat) :
    registrations (calls ++ [.clone source target]) i =
      registrations calls (if i = target then source else i) := by
  induction calls with
  | nil => rfl
  | cons call later ih =>
    cases call with
    | register => simp only [List.cons_append, registrations, origin_concat_clone, ih]
    | clone => exact ih

/-- The registry that registrations make of an empty one. -/
def made (entries : List ((Queue × Option Int) × α)) : Registry α :=
  entries.foldl (fun r entry => r.register entry.1.1 entry.1.2 entry.2) empty

theorem made_concat (entries : List ((Queue × Option Int) × α)) (entry : (Queue × Option Int) × α) :
    made (entries ++ [entry]) = (made entries).register entry.1.1 entry.1.2 entry.2 :=
  List.foldl_concat ..

/-- Every registry is what the registrations make that it has seen. -/
theorem run_eq_made (calls : List (Call α)) (i : Nat) :
    run calls i = made (registrations calls i) := by
  -- by the last call, for all registries at once: a copy is what its source has been
  induction calls using List.reverseRecOn generalizing i with
  | nil => rfl
  | append_singleton calls call ih =>
    rw [run_concat]
    cases call with
    | register target queue kind handler =>
      rw [registrations_concat_register, Call.apply]
      by_cases h : i = target
      · subst h
        rw [if_pos rfl, made_concat, Function.update_self, ih]
      · rw [if_neg h, List.append_nil, Function.update_of_ne h, ih]
    | clone source target =>
      rw [registrations_concat_clone, Call.apply]
      by_cases h : i = target
      · subst h
        rw [if_pos rfl, Function.update_self, ih]
      · rw [if_neg h, Function.update_of_ne h, ih]

/-! ## What registrations make -/

variable {entries : List ((Queue × Option Int) × α)}

/-- The handler that was registered last under a key. -/
def latest? (entries : List ((Queue × Option Int) × α)) (key : Queue × Option Int) : Option α :=
  ((entries.filter fun entry => entry.1 = key).getLast?).map Prod.snd

theorem latest?_concat (entries : List ((Queue × Option Int) × α))
    (entry : (Queue × Option Int) × α) (key : Queue × Option Int) :
    latest? (entries ++ [entry]) key =
      if key = entry.1 then some entry.2 else latest? entries key := by
  rw [latest?, List.filter_append]
  by_cases h : key = entry.1
  · subst h
    simp
  · simp [h, Ne.symm h, latest?]

theorem latest?_eq_none_iff :
    latest? entries key = none ↔ ∀ entry ∈ entries, entry.1 ≠ key := by
  simp [latest?]

theorem mem_of_latest? (h : latest? entries key = some handler) : (key, handler) ∈ entries := by
  obtain ⟨entry, hlast, rfl⟩ := Option.map_eq_some_iff.mp h
  have hentry := List.mem_filter.mp (List.mem_of_getLast? hlast)
  obtain rfl : entry.1 = key := by simpa using hentry.2
  exact hentry.1

theorem get?_made (entries : List ((Queue × Option Int) × α)) (queue : Queue) (kind : Option Int) :
    (made entries).get? queue kind = latest? entries (queue, kind) := by
  induction entries using List.reverseRecOn with
  | nil => rfl
  | append_singleton entries entry ih => rw [made_concat, get?_register, latest?_concat, ih]

/-- The keys with a handler. -/
def keys (r : Registry α) : List (Queue × Option Int) := r.entries.map Prod.fst

theorem mem_keys_register (r : Registry α) (queue : Queue) (kind : Option Int) (handler : α) :
    key ∈ (r.register queue kind handler).keys ↔ key = (queue, kind) ∨ key ∈ r.keys := by
  rw [keys, register, keys]
  induction r.entries with
  | nil => simp [put]
  | cons entry rest ih =>
    rw [put]
    by_cases h : entry.1 = (queue, kind)
    · simp [h]
    · rw [if_neg h, List.map_cons, List.mem_cons, ih, List.map_cons, List.mem_cons]
      exact or_left_comm

theorem nodup_keys_register {r : Registry α} (h : r.keys.Nodup) (queue : Queue) (kind : Option Int)
    (handler : α) : (r.register queue kind handler).keys.Nodup := by
  obtain ⟨entries⟩ := r
  induction entries with
  | nil => exact List.nodup_singleton _
  | cons entry rest ih =>
    obtain ⟨hnew, hrest⟩ := List.nodup_cons.mp h
    rw [register, put]
    by_cases hkey : entry.1 = (queue, kind)
    · rw [if_pos hkey]
      rw [hkey] at hnew
      exact List.nodup_cons.mpr ⟨hnew, hrest⟩
    · rw [if_neg hkey]
      refine List.nodup_cons.mpr ⟨fun hmem => ?_, ih hrest⟩
      have hold := (mem_keys_register ⟨rest⟩ queue kind handler).mp hmem
      exact hold.elim hkey hnew

theorem mem_keys_made : key ∈ (made entries).keys ↔ key ∈ entries.map Prod.fst := by
  induction entries using List.reverseRecOn with
  | nil => rfl
  | append_singleton entries entry ih =>
    rw [made_concat, mem_keys_register, ih, List.map_append, List.mem_append, or_comm]
    exact or_congr_right List.mem_singleton.symm

theorem nodup_keys_made (entries : List ((Queue × Option Int) × α)) :
    (made entries).keys.Nodup := by
  induction entries using List.reverseRecOn with
  | nil => exact List.nodup_nil
  | append_singleton entries entry ih =>
    rw [made_concat]
    exact nodup_keys_register ih ..

theorem size_made (entries : List ((Queue × Option Int) × α)) :
    (made entries).size = (entries.map Prod.fst).toFinset.card := by
  have hkeys : (made entries).keys.toFinset = (entries.map Prod.fst).toFinset := by
    ext key
    rw [List.mem_toFinset, List.mem_toFinset, mem_keys_made]
  rw [← hkeys, List.toFinset_card_of_nodup (nodup_keys_made entries), keys, List.length_map, size]

theorem hasQueue_iff {r : Registry α} {queue : Queue} :
    r.hasQueue queue = true ↔ ∃ key ∈ r.keys, key.1 = queue := by
  simp [hasQueue, keys]

theorem hasQueue_made {queue : Queue} :
    (made entries).hasQueue queue = true ↔ ∃ entry ∈ entries, entry.1.1 = queue := by
  rw [hasQueue_iff]
  constructor
  · rintro ⟨key, hkey, hqueue⟩
    obtain ⟨entry, hentry, rfl⟩ := List.mem_map.mp (mem_keys_made.mp hkey)
    exact ⟨entry, hentry, hqueue⟩
  · rintro ⟨entry, hentry, hqueue⟩
    exact ⟨entry.1, mem_keys_made.mpr (List.mem_map_of_mem hentry), hqueue⟩

theorem mem_queues_iff {r : Registry α} {queue : Queue} :
    queue ∈ r.queues ↔ r.hasQueue queue = true := by
  rw [queues, List.mem_filter]
  exact and_iff_right queue.mem_all

theorem handler?_eq_some_iff {r : Registry α} {job : Job} : r.handler? job = some handler ↔
    (∃ kind, job.HasKind kind ∧ r.get? job.queue (some kind) = some handler) ∨
      (∀ kind, job.HasKind kind → r.get? job.queue (some kind) = none) ∧
        r.get? job.queue none = some handler := by
  simp only [handler?, ← Job.kind?_eq_some_iff]
  cases job.kind? with
  | none => simp
  | some kind => simp [Option.or_eq_some_iff]

theorem handler?_of_unregistered {r : Registry α} {job : Job}
    (h : ∀ kind, job.HasKind kind → r.get? job.queue (some kind) = none) :
    r.handler? job = r.get? job.queue none := by
  ext handler
  rw [handler?_eq_some_iff]
  constructor
  · rintro (⟨kind, hkind, hget⟩ | ⟨-, hget⟩)
    · rw [h kind hkind] at hget
      cases hget
    · exact hget
  · exact fun hget => .inr ⟨h, hget⟩

/-! ## Resolution -/

/-- Whether registrations under a key count for a job: it is that of the kind the job has, or that
of all its queue. -/
def Serves (key : Queue × Option Int) (job : Job) : Prop :=
  key = (job.queue, none) ∨ ∃ kind, job.HasKind kind ∧ key = (job.queue, some kind)

/-- What a registry answers after calls, by the registrations that it has seen. -/
structure Resolves (calls : List (Call α)) (i : Nat) : Prop where
  /-- The last handler registered for a kind is the one of the jobs of this kind. -/
  ofKind : ∀ job kind handler, job.HasKind kind →
    latest? (registrations calls i) (job.queue, some kind) = some handler →
    (run calls i).handler? job = some handler
  /-- Jobs without a kind, or with one that nothing is registered for, are given to the last handler
  registered for all of their queue. -/
  ofQueue : ∀ job, (∀ kind, job.HasKind kind →
      ∀ entry ∈ registrations calls i, entry.1 ≠ (job.queue, some kind)) →
    (run calls i).handler? job = latest? (registrations calls i) (job.queue, none)
  /-- No handler is answered but one that a registration seen by this registry gives the job. -/
  seen : ∀ job handler, (run calls i).handler? job = some handler →
    ∃ key, (key, handler) ∈ registrations calls i ∧ Serves key job
  /-- What is done with other registries does not matter, copies of this one included. -/
  apart : ∀ later : List (Call α), (∀ call ∈ later, call.target ≠ i) →
    run (calls ++ later) i = run calls i
  hosted : ∀ queue, (run calls i).hasQueue queue = true ↔
    ∃ entry ∈ registrations calls i, entry.1.1 = queue
  listed : ∀ queue, queue ∈ (run calls i).queues ↔ (run calls i).hasQueue queue = true
  served : ∀ job handler, (run calls i).handler? job = some handler →
    (run calls i).hasQueue job.queue = true
  size : (run calls i).size = ((registrations calls i).map Prod.fst).toFinset.card

theorem get?_run (calls : List (Call α)) (i : Nat) (queue : Queue) (kind : Option Int) :
    (run calls i).get? queue kind = latest? (registrations calls i) (queue, kind) := by
  rw [run_eq_made, get?_made]

theorem hasQueue_run {queue : Queue} : (run calls i).hasQueue queue = true ↔
    ∃ entry ∈ registrations calls i, entry.1.1 = queue := by
  rw [run_eq_made, hasQueue_made]

theorem exists_registration {job : Job} (h : (run calls i).handler? job = some handler) :
    ∃ key, (key, handler) ∈ registrations calls i ∧ Serves key job := by
  rcases handler?_eq_some_iff.mp h with ⟨kind, hkind, hget⟩ | ⟨-, hget⟩
  · rw [get?_run] at hget
    exact ⟨_, mem_of_latest? hget, .inr ⟨kind, hkind, rfl⟩⟩
  · rw [get?_run] at hget
    exact ⟨_, mem_of_latest? hget, .inl rfl⟩

theorem Serves.queue_eq {job : Job} (h : Serves key job) : key.1 = job.queue := by
  rcases h with rfl | ⟨kind, -, rfl⟩
  · rfl
  · rfl

/-- Registries answer by what was registered last for the kind of a job, or else for its queue. -/
theorem handlers_resolve (calls : List (Call α)) (i : Nat) : Resolves calls i := by
  constructor
  case ofKind =>
    intro job kind handler hkind hlatest
    refine handler?_eq_some_iff.mpr (.inl ⟨kind, hkind, ?_⟩)
    rw [get?_run, hlatest]
  case ofQueue =>
    intro job hnone
    rw [← get?_run]
    apply handler?_of_unregistered
    intro kind hkind
    rw [get?_run, latest?_eq_none_iff]
    exact hnone kind hkind
  case seen =>
    intro job handler h
    exact exists_registration h
  case apart =>
    intro later h
    exact run_append_of_ne h
  case hosted =>
    intro queue
    exact hasQueue_run
  case listed =>
    intro queue
    exact mem_queues_iff
  case served =>
    intro job handler h
    obtain ⟨key, hmem, hserves⟩ := exists_registration h
    exact hasQueue_run.mpr ⟨_, hmem, hserves.queue_eq⟩
  case size => rw [run_eq_made, size_made]

/-- A copy goes its own way from the moment it is made. -/
example : let calls : List (Call Nat) :=
      [.register 0 .exports none 1, .clone 0 1, .register 1 .exports none 2]
    registrations calls 0 = [((.exports, none), 1)] ∧
      registrations calls 1 = [((.exports, none), 1), ((.exports, none), 2)] := by
  decide

end LeasedWork.Registry
