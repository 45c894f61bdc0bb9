/-!
# Cancellation tokens

Tokens form a tree: cancelling one cancels everything below it and nothing else. A token is its
path from a root, so what lies below it is decided by comparing paths, and cancelling a token only
adds it to a list. A token may also be abandoned, which marks it, for good and for itself alone,
before it is cancelled.

Whoever waits for tokens learns of a cancellation in a fixed order, so the tokens in use also hang
below one another in an order of their own: a new token comes last, and the last one takes the
place of one that nobody holds any more. A cancellation goes from the last to the first.
-/
namespace LeasedWork

/-- A token, given by its path from a root. -/
structure Token where
  path : List Nat
  deriving DecidableEq, Inhabited, Repr

/-- Whether the second token is the first one or lies below it. -/
def Token.covers (t u : Token) : Bool := t.path.isPrefixOf u.path

/-- What has happened to tokens. -/
structure Tokens where
  /-- The tokens on which a cancellation was asked for. -/
  cancelled : List Token
  abandoned : List Token
  /-- The number of the next token to be made. -/
  next : Nat
  /-- The tokens that hang below another one, in order, with the number of their holders. -/
  hanging : List (Token × Nat)
  /-- The tokens that cancellations reached, in that order. -/
  reached : List Token
  deriving DecidableEq, Inhabited, Repr

namespace Tokens

def empty : Tokens := ⟨[], [], 0, [], []⟩

def root (ts : Tokens) : Token × Tokens := (⟨[ts.next]⟩, { ts with next := ts.next + 1 })

/-- Whether a token or one above it was cancelled. -/
def isCancelled (ts : Tokens) (t : Token) : Bool := ts.cancelled.any (·.covers t)

/-- A new token below another one, with one holder. -/
def child (ts : Tokens) (parent : Token) : Token × Tokens :=
  let token : Token := ⟨parent.path ++ [ts.next]⟩
  let hanging := if ts.isCancelled parent then ts.hanging else ts.hanging ++ [(token, 1)]
  (token, { ts with next := ts.next + 1, hanging := hanging })

/-- The tokens that hang directly below one, in order. -/
def below (ts : Tokens) (t : Token) : List Token :=
  (ts.hanging.map (·.1)).filter fun u => u.path.dropLast = t.path

/-- The order in which a cancellation reaches tokens, the next one first, and what hangs below
them. Of the tokens below one, those with nothing below come before it and the others after it. -/
def sweep (below : Token → List Token) : Nat → List Token → List Token
  | 0, _ => []
  | _, [] => []
  | n + 1, t :: rest =>
    let (inner, leaves) := (below t).reverse.partition fun u => !(below u).isEmpty
    leaves ++ t :: sweep below n (inner.reverse ++ rest)

def cancel (ts : Tokens) (t : Token) : Tokens :=
  if t ∈ ts.cancelled then ts
  else
    { ts with
      cancelled := t :: ts.cancelled
      hanging := ts.hanging.filter fun h => !t.covers h.1
      reached := ts.reached ++ sweep ts.below ts.hanging.length (ts.below t).reverse ++ [t] }

/-- Takes a token out of the order; the last one that hangs beside it takes its place. -/
def detach (ts : Tokens) (t : Token) : Tokens :=
  match (ts.hanging.filter fun h => h.1.path.dropLast = t.path.dropLast).getLast? with
  | none => ts
  | some last =>
    let others := ts.hanging.filter fun h => h.1 ≠ last.1
    { ts with hanging := others.map fun h => if h.1 = t then last else h }

def hold (ts : Tokens) (t : Token) : Tokens :=
  { ts with hanging := ts.hanging.map fun h => if h.1 = t then (h.1, h.2 + 1) else h }

/-- Counts one holder less; a token without holders hangs nowhere. -/
def release (ts : Tokens) (t : Token) : Tokens :=
  match ts.hanging.lookup t with
  | none => ts
  | some 0 | some 1 => ts.detach t
  | some _ => { ts with hanging := ts.hanging.map fun h => if h.1 = t then (h.1, h.2 - 1) else h }

def isAbandoned (ts : Tokens) (t : Token) : Bool := t ∈ ts.abandoned

/-- Abandons and cancels a token. The answer says whether it is the first time. -/
def abandon (ts : Tokens) (t : Token) : Bool × Tokens :=
  if t ∈ ts.abandoned then (false, ts.cancel t)
  else (true, ({ ts with abandoned := t :: ts.abandoned }).cancel t)

theorem covers_refl (t : Token) : t.covers t = true := by simp [Token.covers]

theorem isCancelled_cancel (ts : Tokens) (t u : Token) :
    (ts.cancel t).isCancelled u = (t.covers u || ts.isCancelled u) := by
  by_cases h : t ∈ ts.cancelled
  · simp only [cancel, h, if_true]
    cases hu : t.covers u
    · simp
    · simpa [isCancelled] using ⟨t, h, hu⟩
  · simp [cancel, h, isCancelled]

theorem isAbandoned_cancel (ts : Tokens) (t u : Token) :
    (ts.cancel t).isAbandoned u = ts.isAbandoned u := by
  simp only [cancel, isAbandoned]; split <;> rfl

theorem cancelled_detach (ts : Tokens) (t : Token) : (ts.detach t).cancelled = ts.cancelled := by
  unfold detach; split <;> rfl

theorem abandoned_detach (ts : Tokens) (t : Token) : (ts.detach t).abandoned = ts.abandoned := by
  unfold detach; split <;> rfl

theorem isCancelled_release (ts : Tokens) (t u : Token) :
    (ts.release t).isCancelled u = ts.isCancelled u := by
  unfold release isCancelled
  split <;> simp only [cancelled_detach]

theorem isAbandoned_release (ts : Tokens) (t u : Token) :
    (ts.release t).isAbandoned u = ts.isAbandoned u := by
  unfold release isAbandoned
  split <;> simp only [abandoned_detach]

/-- Abandoning a token cancels it and what lies below it. -/
theorem isCancelled_abandon (ts : Tokens) (t u : Token) :
    (ts.abandon t).2.isCancelled u = (t.covers u || ts.isCancelled u) := by
  unfold abandon
  split
  · exact isCancelled_cancel ts t u
  · exact isCancelled_cancel { ts with abandoned := t :: ts.abandoned } t u

/-- A token below another one is cancelled with it. -/
theorem covers_child (ts : Tokens) (parent : Token) : parent.covers (ts.child parent).1 = true := by
  simp [Token.covers, child]

end Tokens

end LeasedWork
