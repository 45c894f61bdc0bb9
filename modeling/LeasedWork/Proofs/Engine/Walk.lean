import LeasedWork.Proofs.Engine.Deed
import Mathlib.Data.List.Chain

/-!
# Walks

What a task does on its own is a walk: move after move, each on a site that is later than the one
before, and each made when nothing is waited for any more. Nothing else is known of the sites. So
what holds of all walks of a machine holds whatever the store answers, however long calls and
handlers take, and whatever other tasks do in between.
-/
namespace LeasedWork.Engine

/-- Whether a site may be found some time after another: time does not go back, settings stay, and
what has come stays. -/
structure Site.Later (s t : Site) : Prop where
  clock : s.clock ≤ t.clock
  timing : t.timing = s.timing
  timer : t.timer = s.timer
  stays : ∀ w : Wait, w.isOver s = true → w.isOver t = true

namespace Site.Later

variable {s t u : Site}

theorem refl (s : Site) : s.Later s := ⟨Nat.le_refl _, rfl, rfl, fun _ h => h⟩

theorem trans (h : s.Later t) (h' : t.Later u) : s.Later u :=
  ⟨Nat.le_trans h.clock h'.clock, h'.timing.trans h.timing, h'.timer.trans h.timer,
    fun w hw => h'.stays w (h.stays w hw)⟩

theorem nanos (h : s.Later t) : s.nanos ≤ t.nanos := Nat.mul_le_mul_right _ h.clock

end Site.Later

/-- Whether a machine that a move left like this goes on in a state, once a site is found. -/
inductive Progress.Resumes {σ ρ : Type} (s : Site) : Progress σ ρ → σ → Prop
  | more {x : σ} : Resumes s (.more x) x
  | wait {w : Wait} {x : σ} (h : w.isOver s = true) : Resumes s (.wait w x) x

theorem Progress.Resumes.state? {σ ρ : Type} {s : Site} {p : Progress σ ρ} {x : σ}
    (h : p.Resumes s x) : p.state? = some x := by
  cases h with
  | more => rfl
  | wait => rfl

/-- A move of a machine on its own: the site that it found, and the state that it was in. -/
structure Pace (σ : Type) where
  site : Site
  state : σ

/-- The time of a move, in nanoseconds. -/
def Pace.nanos {σ : Type} (m : Pace σ) : Nat := m.site.nanos

section

variable {σ ρ : Type} {step : Site → σ → Progress σ ρ × Site}

/-- The moves that a machine makes from a site where a move has left something of it, up to a site
where a move leaves something of it again. -/
inductive Walk (step : Site → σ → Progress σ ρ × Site) :
    Site → Progress σ ρ → List (Pace σ) → Site → Progress σ ρ → Prop
  | nil {s : Site} {p : Progress σ ρ} : Walk step s p [] s p
  | cons {s t : Site} {p q : Progress σ ρ} {m : Pace σ} {rest : List (Pace σ)}
      (hlater : s.Later m.site) (hresumes : p.Resumes m.site m.state)
      (h : Walk step m.site (step m.site m.state).1 rest t q) : Walk step s p (m :: rest) t q

namespace Walk

variable {s t u : Site} {p q : Progress σ ρ} {m m' : Pace σ} {paces before after : List (Pace σ)}

/-- A walk may go on with one more move. -/
theorem snoc (h : Walk step s p paces t q) (hlater : t.Later m.site)
    (hresumes : q.Resumes m.site m.state) :
    Walk step s p (paces ++ [m]) m.site (step m.site m.state).1 := by
  induction h with
  | nil => exact .cons hlater hresumes .nil
  | cons hl hr _ ih => exact .cons hl hr (ih hlater hresumes)

/-- A walk may be cut at each of its moves. -/
theorem split (h : Walk step s p (before ++ m :: after) t q) :
    ∃ u r, Walk step s p before u r ∧ u.Later m.site ∧ r.Resumes m.site m.state ∧
      Walk step m.site (step m.site m.state).1 after t q := by
  induction before generalizing s p with
  | nil =>
    cases h with
    | cons hl hr h => exact ⟨s, p, .nil, hl, hr, h⟩
  | cons b rest ih =>
    cases h with
    | cons hl hr h =>
      obtain ⟨u, r, hwalk, htail⟩ := ih h
      exact ⟨u, r, .cons hl hr hwalk, htail⟩

theorem rest (h : Walk step s p (before ++ m :: after) t q) :
    Walk step m.site (step m.site m.state).1 after t q := by
  obtain ⟨-, -, -, -, -, hrest⟩ := h.split
  exact hrest

/-- A walk ends with what its last move leaves. -/
theorem last (h : Walk step s p (before ++ [m]) t q) : q = (step m.site m.state).1 := by
  cases h.rest with
  | nil => rfl

/-- A machine that is done or has broken down makes no more moves. -/
theorem eq_nil (h : Walk step s p paces t q) (hp : p.state? = none) : paces = [] := by
  cases h with
  | nil => rfl
  | cons _ hr _ => exact absurd (hp.symm.trans hr.state?) (by simp)

/-- A walk goes on from a move that leaves a state, and from no other. -/
theorem exists_state? (h : Walk step s p (before ++ m :: after) t q) : ∃ x, p.state? = some x := by
  cases hp : p.state? with
  | none => exact absurd (h.eq_nil hp) (by simp)
  | some x => exact ⟨x, rfl⟩

/-- All moves of a walk find sites later than the one where it begins. -/
theorem later_of_mem (h : Walk step s p paces t q) (hm : m ∈ paces) : s.Later m.site := by
  induction h with
  | nil => exact absurd hm List.not_mem_nil
  | cons hl _ _ ih =>
    rcases List.mem_cons.mp hm with rfl | hm
    · exact hl
    · exact hl.trans (ih hm)

/-- Each move of a walk finds a site later than the moves before it. -/
theorem later_of_mem_before {z : Pace σ} (h : Walk step s p (before ++ m :: after) t q)
    (hz : z ∈ before) : z.site.Later m.site := by
  obtain ⟨first, rest, rfl⟩ := List.append_of_mem hz
  rw [List.append_assoc, List.cons_append] at h
  exact h.rest.later_of_mem (List.mem_append_right _ List.mem_cons_self)

/-- Each move of a walk goes on from the one before. -/
theorem isChain (h : Walk step s p paces t q) : paces.IsChain fun m m' =>
    m.site.Later m'.site ∧ (step m.site m.state).1.Resumes m'.site m'.state := by
  induction h with
  | nil => exact .nil
  | cons _ _ hrest ih =>
    refine List.isChain_cons.mpr ⟨fun next hnext => ?_, ih⟩
    cases hrest with
    | nil => exact absurd hnext (by simp)
    | cons hl hr =>
      obtain rfl := Option.some.inj hnext
      exact ⟨hl, hr⟩

/-- Each move of a walk goes on from what the one before it leaves. -/
theorem resumes (h : Walk step s p (before ++ m :: m' :: after) t q) :
    (step m.site m.state).1.Resumes m'.site m'.state := by
  cases h.rest with
  | cons _ hresumes _ => exact hresumes

/-- What each move has to do with all moves of what is left of a walk after it. -/
theorem pairwise {R : Pace σ → Pace σ → Prop} (h : Walk step s p paces t q)
    (hmove : ∀ m ∈ paces, ∀ after, Walk step m.site (step m.site m.state).1 after t q →
      ∀ c ∈ after, R m c) : paces.Pairwise R := by
  induction h with
  | nil => exact .nil
  | @cons _ _ _ _ m rest _ _ hrest ih =>
    exact .cons (hmove m List.mem_cons_self rest hrest)
      (ih fun m hm => hmove m (List.mem_cons_of_mem _ hm))

/-- If a marked move is not made before a certain time, and that time is a gap later for the next
one, marked moves are a gap apart. -/
theorem apart {marked : Pace σ → Bool} {gap : Nat} {Awaits : Nat → Site → Progress σ ρ → Prop}
    (hmove : ∀ least s p (m : Pace σ), Awaits least s p → s.Later m.site →
      p.Resumes m.site m.state →
        if marked m then least ≤ m.nanos ∧ Awaits (m.nanos + gap) m.site (step m.site m.state).1
        else Awaits least m.site (step m.site m.state).1)
    (h : Walk step s p paces t q) {least : Nat} (hawaits : Awaits least s p) :
    (∀ m ∈ paces.filter marked, least ≤ m.nanos) ∧
      (paces.filter marked).Pairwise fun a b => a.nanos + gap ≤ b.nanos := by
  induction h generalizing least with
  | nil => exact ⟨fun m hm => absurd hm List.not_mem_nil, .nil⟩
  | @cons s t p q m rest hl hr _ ih =>
    have hnext := hmove least s p m hawaits hl hr
    by_cases hmarked : marked m = true
    · rw [if_pos hmarked] at hnext
      obtain ⟨hleast, hapart⟩ := ih hnext.2
      rw [List.filter_cons_of_pos hmarked]
      refine ⟨List.forall_mem_cons.mpr ⟨hnext.1, fun m' hm' => ?_⟩, .cons hleast hapart⟩
      have hlater := hleast m' hm'
      omega
    · rw [if_neg hmarked] at hnext
      rw [List.filter_cons_of_neg hmarked]
      exact ih hnext

end Walk

/-- Whether no time passes while a machine waits for nothing. -/
def Seamless (step : Site → σ → Progress σ ρ × Site) (paces : List (Pace σ)) : Prop :=
  paces.IsChain fun m m' =>
    ∀ x, (step m.site m.state).1 = .more x → m'.site.clock = m.site.clock

end

/-! ## Spans that are apart -/

/-- Of spans of time, of which each begins so long after the end of the one before, those that
begin before a time are no more than fit in. -/
theorem length_mul_le_of_apart {gap latest : Nat} {first : Nat × Nat} {spans : List (Nat × Nat)}
    (hapart : (first :: spans).Pairwise fun a b => a.2 + gap ≤ b.1)
    (horder : ∀ a ∈ spans, a.1 ≤ a.2) (hlatest : ∀ a ∈ spans, a.1 ≤ latest)
    (hne : spans ≠ []) : first.2 + spans.length * gap ≤ latest := by
  induction spans generalizing first with
  | nil => exact absurd rfl hne
  | cons next rest ih =>
    obtain ⟨hnext, hrest⟩ := List.pairwise_cons.mp hapart
    have hgap := hnext next List.mem_cons_self
    have hbegin := hlatest next List.mem_cons_self
    have hlength := horder next List.mem_cons_self
    cases rest with
    | nil =>
      simp only [List.length_singleton, Nat.one_mul]
      omega
    | cons other rest =>
      have htail := ih hrest (fun a ha => horder a (List.mem_cons_of_mem _ ha))
        (fun a ha => hlatest a (List.mem_cons_of_mem _ ha)) (List.cons_ne_nil _ _)
      simp only [List.length_cons, Nat.succ_mul] at htail ⊢
      omega

/-- A window of time meets one span more than gaps fit in, at most. -/
theorem countP_window_le {gap : Nat} (hgap : 0 < gap) {spans : List (Nat × Nat)}
    (hapart : spans.Pairwise fun a b => a.2 + gap ≤ b.1) (horder : ∀ a ∈ spans, a.1 ≤ a.2)
    (opening length : Nat) :
    spans.countP (fun a => a.1 ≤ opening + length ∧ opening ≤ a.2) ≤ length / gap + 1 := by
  rw [List.countP_eq_length_filter]
  generalize hmet : spans.filter (fun a => a.1 ≤ opening + length ∧ opening ≤ a.2) = met
  have hmem : ∀ a ∈ met, a ∈ spans ∧ a.1 ≤ opening + length ∧ opening ≤ a.2 := by
    intro a ha
    rw [← hmet, List.mem_filter] at ha
    exact ⟨ha.1, by simpa using ha.2⟩
  have hapart' : met.Pairwise fun a b => a.2 + gap ≤ b.1 := hmet ▸ hapart.filter _
  cases met with
  | nil => exact Nat.zero_le _
  | cons first rest =>
    have hfirst := (hmem first List.mem_cons_self).2.2
    cases rest with
    | nil => exact Nat.le_add_left _ _
    | cons next rest =>
      have hfits := length_mul_le_of_apart hapart'
        (fun a ha => horder a (hmem a (List.mem_cons_of_mem _ ha)).1)
        (fun a ha => (hmem a (List.mem_cons_of_mem _ ha)).2.1) (List.cons_ne_nil _ _)
      have hdiv : (next :: rest).length ≤ length / gap := by
        apply (Nat.le_div_iff_mul_le hgap).mpr
        omega
      exact Nat.succ_le_succ hdiv

end LeasedWork.Engine
