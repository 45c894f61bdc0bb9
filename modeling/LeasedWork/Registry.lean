import LeasedWork.Job

/-!
# The registry of handlers

Handlers are registered for a whole queue or for one kind of job in it, and the last registration
of a key wins. A job is given to the handler of its kind if there is one, and otherwise to the
handler of its queue.
-/
namespace LeasedWork

/-- Handlers by queue and kind; no key occurs twice. -/
structure Registry (α : Type) where
  entries : List ((Queue × Option Int) × α)
  deriving Inhabited, Repr

namespace Registry

variable {α : Type}

def empty : Registry α := ⟨[]⟩

/-- Puts an entry in place of the one of the same key, or after all others. -/
def put (key : Queue × Option Int) (handler : α) :
    List ((Queue × Option Int) × α) → List ((Queue × Option Int) × α)
  | [] => [(key, handler)]
  | entry :: rest =>
    if entry.1 = key then (key, handler) :: rest else entry :: put key handler rest

/-- Registers a handler for a queue, or for one kind of job in it. -/
def register (r : Registry α) (queue : Queue) (kind : Option Int) (handler : α) : Registry α :=
  ⟨put (queue, kind) handler r.entries⟩

/-- The handler of exactly this key. -/
def get? (r : Registry α) (queue : Queue) (kind : Option Int) : Option α :=
  r.entries.lookup (queue, kind)

def handler? (r : Registry α) (job : Job) : Option α :=
  ((job.kind?.bind fun kind => r.get? job.queue (some kind))).or (r.get? job.queue none)

def size (r : Registry α) : Nat := r.entries.length

/-- Whether any handler is registered for a queue. -/
def hasQueue (r : Registry α) (queue : Queue) : Bool := r.entries.any fun entry => entry.1.1 = queue

/-- The queues with a handler, in the order of their numbers. -/
def queues (r : Registry α) : List Queue := Queue.all.filter r.hasQueue

theorem lookup_put (key other : Queue × Option Int) (handler : α)
    (entries : List ((Queue × Option Int) × α)) :
    (put key handler entries).lookup other =
      if other = key then some handler else entries.lookup other := by
  induction entries with
  | nil => by_cases h : other = key <;> simp [put, List.lookup_cons, h, beq_eq_false_iff_ne.2]
  | cons entry rest ih =>
    obtain ⟨k, a⟩ := entry
    by_cases hk : k = key
    · subst hk
      by_cases h : other = k <;> simp [put, List.lookup_cons, h, beq_eq_false_iff_ne.2]
    · by_cases h : other = key
      · subst h
        have : (other == k) = false := beq_eq_false_iff_ne.2 (Ne.symm hk)
        simp [put, hk, List.lookup_cons, this, ih]
      · simp [put, hk, List.lookup_cons, ih, h]

/-- A registration is found under its key and changes no other one. -/
theorem get?_register (r : Registry α) (q q' : Queue) (k k' : Option Int) (handler : α) :
    (r.register q k handler).get? q' k' =
      if (q', k') = (q, k) then some handler else r.get? q' k' := by
  simp only [get?, register, lookup_put]

end Registry

end LeasedWork
