import LeasedWork.Proofs.Engine.Course

/-!
# Tokens of executions

An execution that starts its handler makes a token, and keeps it. No token is made twice, and what
has happened to a token can be read off the deeds of a move: an execution that was abandoned stays
so whatever is done.
-/
namespace LeasedWork

/-- Whether a token was made among some tokens: later ones end in numbers of their own. -/
def Tokens.Made (ts : Tokens) (t : Token) : Prop := ∀ n ∈ t.path.getLast?, n < ts.next

namespace Tokens

variable {ts us : Tokens} {t : Token}

theorem next_cancel (ts : Tokens) (t : Token) : (ts.cancel t).next = ts.next := by
  unfold cancel
  split <;> rfl

theorem next_abandon (ts : Tokens) (t : Token) : (ts.abandon t).2.next = ts.next := by
  unfold abandon
  split
  · exact next_cancel ts t
  · exact next_cancel { ts with abandoned := t :: ts.abandoned } t

theorem next_release (ts : Tokens) (t : Token) : (ts.release t).next = ts.next := by
  have hdetach : (ts.detach t).next = ts.next := by
    unfold detach
    split <;> rfl
  unfold release
  split
  · rfl
  · exact hdetach
  · exact hdetach
  · rfl

theorem isAbandoned_abandon (ts : Tokens) (t u : Token) :
    (ts.abandon t).2.isAbandoned u = true ↔ ts.isAbandoned u = true ∨ u = t := by
  unfold abandon
  split
  · rename_i hmem
    rw [isAbandoned_cancel]
    constructor
    · exact Or.inl
    · rintro (h | rfl)
      · exact h
      · simpa [isAbandoned] using hmem
  · rw [isAbandoned_cancel]
    simp only [isAbandoned, List.mem_cons, decide_eq_true_eq]
    exact or_comm

theorem Made.of_le (h : ts.Made t) (hle : ts.next ≤ us.next) : us.Made t :=
  fun n hn => Nat.lt_of_lt_of_le (h n hn) hle

theorem made_child_iff (ts us : Tokens) (parent : Token) :
    us.Made (ts.child parent).1 ↔ ts.next < us.next := by
  simp [Made, child]

end Tokens

namespace Engine

variable {s : Site} {deeds : List Deed} {k : Token}

/-! ## Deeds -/

theorem Deed.next_le_on (s : Site) (d : Deed) : s.tokens.next ≤ (d.on s).tokens.next := by
  cases d with
  | cancel t => exact Nat.le_of_eq (Tokens.next_cancel _ t).symm
  | abandon t => exact Nat.le_of_eq (Tokens.next_abandon _ t).symm
  | release t => exact Nat.le_of_eq (Tokens.next_release _ t).symm
  | child parent => exact Nat.le_succ _
  | _ => exact Nat.le_refl _

theorem Deed.next_le_onAll (s : Site) (deeds : List Deed) :
    s.tokens.next ≤ (onAll s deeds).tokens.next :=
  onAll_induction (P := fun t => s.tokens.next ≤ t.tokens.next)
    (fun d _ t ht => Nat.le_trans ht (d.next_le_on t)) (Nat.le_refl _)

theorem Deed.next_lt_onAll {parent : Token} (h : .child parent ∈ deeds) :
    s.tokens.next < (onAll s deeds).tokens.next := by
  obtain ⟨before, after, rfl⟩ := List.append_of_mem h
  rw [onAll_append]
  have hbefore := next_le_onAll s before
  have hafter := next_le_onAll ((Deed.child parent).on (onAll s before)) after
  have hchild : ((Deed.child parent).on (onAll s before)).tokens.next =
      (onAll s before).tokens.next + 1 := rfl
  rw [onAll, List.foldl_cons, ← onAll]
  omega

theorem Deed.isAbandoned_on (s : Site) (d : Deed) (k : Token) :
    (d.on s).tokens.isAbandoned k = true ↔ s.tokens.isAbandoned k = true ∨ d = .abandon k := by
  cases d with
  | abandon t =>
    rw [Deed.abandon.injEq, eq_comm (a := t)]
    exact Tokens.isAbandoned_abandon _ t k
  | cancel t => simp [on, Site.cancel, Tokens.isAbandoned_cancel]
  | release t => simp [on, Site.release, Tokens.isAbandoned_release]
  | _ => exact ⟨Or.inl, fun h => h.resolve_right (by simp)⟩

theorem Deed.isAbandoned_onAll (s : Site) (deeds : List Deed) (k : Token) :
    (onAll s deeds).tokens.isAbandoned k = true ↔
      s.tokens.isAbandoned k = true ∨ .abandon k ∈ deeds := by
  induction deeds generalizing s with
  | nil => simp [onAll]
  | cons d rest ih =>
    apply (ih (d.on s)).trans
    rw [isAbandoned_on, List.mem_cons, or_assoc, eq_comm (a := d)]

/-! ## Executions -/

/-- The token that an execution runs its handler under. -/
def Execution.token? (x : Execution) : Option Token :=
  match x.phase with
  | .fresh => none
  | .handling _ k _ | .finalizing k _ _ _ _ => some k

theorem Execution.Goes.job_eq {x x' : Execution} (h : x.Goes s x') :
    x'.job = x.job ∧ x'.shutdown = x.shutdown := by
  cases h <;> exact ⟨rfl, rfl⟩

/-- The token of an execution is new when it starts its handler, and stays. -/
theorem Execution.Goes.token?_eq {x x' : Execution} (h : x.Goes s x') :
    (x.phase = .fresh ∧ (s.registry.handler? x.job).isSome = true ∧
      x'.token? = some (s.newToken x.shutdown)) ∨ x'.token? = x.token? := by
  cases h with
  | begun hphase hh => exact .inl ⟨hphase, by rw [hh]; rfl, rfl⟩
  | handles hphase => exact .inr (by simp only [token?, hphase])
  | decided hphase => exact .inr (by simp only [token?, hphase])
  | calls hphase => exact .inr (by simp only [token?, hphase])

theorem Execution.deeds_of_begun {x : Execution} (s : Site) (hphase : x.phase = .fresh)
    (hh : (s.registry.handler? x.job).isSome = true) :
    x.deeds s = [Deed.publish (.jobStarted x.job.id x.job.queue), .child x.shutdown] ++
      (if x.job.cancelRequested then [Deed.abandon (s.newToken x.shutdown)] else []) ++
      [Deed.hold (s.newToken x.shutdown), .spawn (x.beats s)] := by
  have hhandler : ((x.inSpan s).registry.handler? x.job).isSome = true := hh
  simp only [deeds, hphase, beginDeeds, if_pos hhandler]
  rfl

end Engine

end LeasedWork
