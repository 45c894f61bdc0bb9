import LeasedWork.Proofs.Host.Kinship
import LeasedWork.Proofs.Host.Schedule

/-!
# Abandonment decides

The decision on a job is taken when its handler has returned, from two facts that other tasks bring
about at any time: the execution was abandoned, and shutdown was asked for. Abandonment is marked
by the token of the execution, which only its own heartbeats reach, so the mark tells just
whether one of them was told to give the job up. No order between the two facts matters.
-/
namespace LeasedWork

namespace Engine

variable {s : Site}

theorem Disposition.classify_eq_cancelled_iff (o : Outcome) (abandoned shutdown : Bool) :
    classify o abandoned shutdown = some .cancelled ↔
      abandoned = true ∨ o = .error .cancelled ∧ shutdown = false := by
  cases abandoned <;> cases shutdown <;> rcases o with (_ | _ | _ | _) | _ <;> simp [classify]

/-- A decision looks at the two facts only, and not at how they came about. -/
theorem Execution.decide_congr {t : Site} {x : Execution} {k : Token} (o : Outcome)
    (habandoned : t.tokens.isAbandoned k = s.tokens.isAbandoned k)
    (hshutdown : t.isCancelled x.shutdown = s.isCancelled x.shutdown) :
    (decide t x k o).1 = (decide s x k o).1 := by
  unfold decide
  rw [habandoned, hshutdown]
  split <;> rfl

theorem Execution.decide_exchange (s : Site) (x : Execution) (k : Token) (o : Outcome) :
    (decide ((s.cancel x.shutdown).abandon k).2 x k o).1 =
      (decide ((s.abandon k).2.cancel x.shutdown) x k o).1 := by
  apply decide_congr
  · have hlast := Deed.isAbandoned_onAll s [.cancel x.shutdown, .abandon k] k
    have hfirst := Deed.isAbandoned_onAll s [.abandon k, .cancel x.shutdown] k
    rw [Bool.eq_iff_iff]
    refine hlast.trans (Iff.trans ?_ hfirst.symm)
    simp
  · simp only [Site.isCancelled, Site.cancel, Site.abandon, Tokens.isCancelled_cancel,
      Tokens.isCancelled_abandon]
    exact Bool.or_left_comm _ _ _

theorem Execution.decide_react_error (s : Site) (h : Heartbeat) (refusal : Refusal) (x : Execution)
    (k : Token) (o : Outcome) :
    (decide (h.react s (.error refusal)) x k o).1 = (decide s x k o).1 :=
  decide_congr o rfl rfl

/-- A heartbeat that is told to give the job up abandons the execution. -/
theorem Heartbeat.abandon_mem_deeds {h : Heartbeat} {deadline : Nat}
    (hphase : h.phase = .calling deadline (.underway false))
    (hanswer : (s.askHeartbeat h.record).1 = some (.ok true)) :
    .abandon h.execution ∈ h.deeds s := by
  have hcall : (s.callHeartbeat (.underway false) h.record).1 =
      (s.askHeartbeat h.record).1.elim .crash .done := rfl
  simp only [deeds, hphase, hcall, hanswer, Option.elim_some]
  exact List.mem_append_right _ (List.mem_singleton.mpr rfl)

end Engine

namespace Host

open Engine

variable {lapse : Ensemble → Nat → Prop} {start sys : Ensemble} {history : List Move}
  {a b : Activity} {x y : Execution} {k : Token} {o : Outcome}

/-- The move in which a heartbeat for a record, guarding the execution under a token, is
answered. -/
def Move.Beats (m : Move) (record : Job) (k : Token) (answer : Except Refusal Bool) : Prop :=
  ∃ h deadline, m.mover.task = .heartbeat h ∧ h.phase = .calling deadline (.underway false) ∧
    h.record = record ∧ h.execution = k ∧ (m.site.askHeartbeat record).1 = some answer

/-- The move in which the handler of an execution comes to an outcome under a token. -/
structure Move.Returns (m : Move) (x : Execution) (k : Token) (o : Outcome) : Prop where
  acts : m.mover.task.acting? m.site = some x
  ends : ∃ i beats, x.phase = .handling i k beats ∧ (i.step (x.inSpan m.site)).1 = .done o

/-- Whether a job was to be cancelled when it was leased, or one of the heartbeats of its execution
under a token was told to give it up. -/
def AskedToAbandon (history : List Move) (job : Job) (k : Token) : Prop :=
  job.cancelRequested = true ∨ ∃ m ∈ history, m.Beats job.snapshot k (.ok true)

theorem askedToAbandon_append (history : List Move) (m : Move) (job : Job) (k : Token) :
    AskedToAbandon (history ++ [m]) job k ↔
      AskedToAbandon history job k ∨ m.Beats job.snapshot k (.ok true) := by
  simp [AskedToAbandon, or_and_right, exists_or, or_assoc]

/-! ## The tokens of executions -/

/-- What is known of the tokens of an ensemble: those of executions were made after the start, and
heartbeats under one of them are those of its own execution. -/
structure Issued (start : Ensemble) (history : List Move) (sys : Ensemble) : Prop where
  next_le : start.site.tokens.next ≤ sys.site.tokens.next
  abandoned : ∀ k, sys.site.tokens.isAbandoned k = true → sys.site.tokens.Made k
  beats : ∀ b ∈ sys.activities, ∀ h, b.task = .heartbeat h → sys.site.tokens.Made h.execution
  beaten : ∀ m ∈ history, ∀ record k answer, m.Beats record k answer → sys.site.tokens.Made k
  watches : ∀ b ∈ sys.activities, ∀ w, b.task = .watch w → start.site.tokens.Made w.execution
  executions : ∀ b ∈ sys.activities, ∀ x, b.task.execution? = some x →
    ∀ k, x.token? = some k → sys.site.tokens.Made k ∧ ¬ start.site.tokens.Made k ∧
      ∀ c ∈ sys.activities, ∀ h, c.task = .heartbeat h → h.execution = k →
        h.record = x.job.snapshot

theorem Ensemble.Opening.issued (h : start.Opening) : Issued start [] start where
  next_le := Nat.le_refl _
  abandoned k hk := h.made k (by simpa [Tokens.isAbandoned] using hk)
  beats b hb g hg := by
    have hfresh := h.fresh b hb
    rw [hg] at hfresh
    exact hfresh.2
  beaten m hm := absurd hm List.not_mem_nil
  watches b hb w hw := by
    have hfresh := h.fresh b hb
    rw [hw] at hfresh
    exact hfresh
  executions b hb x hx := by
    rw [(h.fresh b hb).execution?] at hx
    exact absurd hx (by simp)

/-- A handler that is started gets a token that was not made before. -/
theorem made_of_begun (ha : a.task.acting? sys.site = some x) (hphase : x.phase = .fresh)
    (hh : (sys.site.registry.handler? x.job).isSome = true) :
    ¬ sys.site.tokens.Made (sys.site.newToken x.shutdown) ∧
      (sys.move a).site.tokens.Made (sys.site.newToken x.shutdown) := by
  refine Move.made_newToken (m := ⟨sys, a⟩) ?_
  have hdeeds : a.task.deeds sys.site = x.deeds sys.site := Task.deeds_of_acting? ha
  rw [Move.deeds, Move.site, hdeeds, Execution.deeds_of_begun _ hphase hh]
  simp

theorem Issued.made_after (m : Move) (h : m.site.tokens.Made k) : m.after.site.tokens.Made k :=
  h.of_le m.next_le_after

/-- Which heartbeats there are under a token, after a move of another task or one that made no
token. -/
theorem Issued.record_move (hi : Issued start history sys) (hs : sys.Sound)
    (ha : a ∈ sys.activities) (hb : b ∈ sys.activities) (hx : b.task.execution? = some x)
    (hk : x.token? = some k) {c : Activity} (hc : c ∈ (sys.move a).activities) {h : Heartbeat}
    (ht : c.task = .heartbeat h) (he : h.execution = k) : h.record = x.job.snapshot := by
  obtain ⟨hmade, -, hown⟩ := hi.executions b hb x hx k hk
  rcases hs.heartbeat_move ha hc ht with ⟨d, hd, g, hg, hr, hge⟩ | ⟨y, hy, hphase, hh, -, hnew⟩
  · rw [hr]
    exact hown d hd g hg (hge.symm.trans he)
  · have hfresh := (made_of_begun hy hphase hh).1
    rw [← hnew, he] at hfresh
    exact absurd hmade hfresh

theorem Issued.watches_move (hi : Issued start history sys) (hs : sys.Sound)
    (ha : a ∈ sys.activities) : ∀ b ∈ (sys.move a).activities, ∀ w, b.task = .watch w →
      start.site.tokens.Made w.execution := by
  intro b hb w hw
  obtain ⟨c, hc, v, hv, hexecution, -⟩ := hs.watch_move ha hb hw
  exact hexecution ▸ hi.watches c hc v hv

/-- The token of an execution goes on to be its own, and so do the heartbeats under it. -/
theorem Issued.executions_move (hi : Issued start history sys) (hs : sys.Sound)
    (ha : a ∈ sys.activities) (hb : b ∈ (sys.move a).activities) {x' : Execution}
    (hx' : b.task.execution? = some x') (hk : x'.token? = some k) :
    (sys.move a).site.tokens.Made k ∧ ¬ start.site.tokens.Made k ∧
      ∀ c ∈ (sys.move a).activities, ∀ h, c.task = .heartbeat h → h.execution = k →
        h.record = x'.job.snapshot := by
  have hold : ∀ c ∈ sys.activities, ∀ x, c.task.execution? = some x → x.token? = some k →
      x'.job = x.job → (sys.move a).site.tokens.Made k ∧ ¬ start.site.tokens.Made k ∧
        ∀ c ∈ (sys.move a).activities, ∀ h, c.task = .heartbeat h → h.execution = k →
          h.record = x'.job.snapshot := by
    intro c hc x hx hkx hjob
    obtain ⟨hmade, hnew, -⟩ := hi.executions c hc x hx k hkx
    refine ⟨Issued.made_after ⟨sys, a⟩ hmade, hnew, fun d hd h ht he => ?_⟩
    rw [hjob]
    exact hi.record_move hs ha hc hx hkx hd ht he
  rcases hs.execution_move hb hx' with
    ⟨c, hc, -, -, hx⟩ | ⟨-, ⟨x, hx, hgo⟩ | ⟨hx, -⟩ | ⟨job, t, rfl, -⟩⟩
  · exact hold c hc x' hx hk rfl
  · rcases hgo.token?_eq with ⟨hphase, hh, hnew⟩ | hsame
    · obtain rfl := Option.some.inj (hnew.symm.trans hk)
      obtain ⟨hunmade, hmade⟩ := made_of_begun hx hphase hh
      refine ⟨hmade, fun h => hunmade (h.of_le hi.next_le), fun c hc h ht he => ?_⟩
      rcases hs.heartbeat_move ha hc ht with ⟨d, hd, g, hg, -, hge⟩ | ⟨y, hy, -, -, hr, -⟩
      · rw [← he, hge] at hunmade
        exact absurd (hi.beats d hd g hg) hunmade
      · obtain rfl := Option.some.inj (hx.symm.trans hy)
        rw [hr, hgo.job_eq.1]
    · exact hold a ha x (Task.execution?_of_acting? hx) (hsame ▸ hk) hgo.job_eq.1
  · exact hold a ha x' hx hk rfl
  · exact absurd hk (by simp [Execution.fresh, Execution.token?])

theorem Issued.move (hi : Issued start history sys) (hs : sys.Sound) (ha : a ∈ sys.activities) :
    Issued start (history ++ [⟨sys, a⟩]) (sys.move a) := by
  have hkeep : ∀ k, sys.site.tokens.Made k → (sys.move a).site.tokens.Made k :=
    fun k hk => Issued.made_after ⟨sys, a⟩ hk
  constructor
  case next_le => exact Nat.le_trans hi.next_le (Move.next_le_after ⟨sys, a⟩)
  case abandoned =>
    intro k hk
    rcases (Move.isAbandoned_after ⟨sys, a⟩ k).mp hk with hk | hk
    · exact hkeep k (hi.abandoned k hk)
    · cases Task.origin_of_mem_deeds a.task.within_trivial hk with
      | beatAbandon ht => exact hkeep _ (hi.beats a ha _ ht)
      | beginAbandon hx hphase hh => exact (made_of_begun hx hphase hh).2
      | watchAbandon ht => exact hkeep _ ((hi.watches a ha _ ht).of_le hi.next_le)
  case beats =>
    intro b hb h ht
    rcases hs.heartbeat_move ha hb ht with ⟨c, hc, g, hg, -, he⟩ | ⟨x, hx, hphase, hh, -, he⟩
    · exact hkeep _ (he ▸ hi.beats c hc g hg)
    · exact he ▸ (made_of_begun hx hphase hh).2
  case beaten =>
    intro m hm record k answer hbeats
    rcases List.mem_append.mp hm with hm | hm
    · exact hkeep k (hi.beaten m hm record k answer hbeats)
    · obtain rfl := List.mem_singleton.mp hm
      obtain ⟨h, -, ht, -, -, rfl, -⟩ := hbeats
      exact hkeep _ (hi.beats a ha h ht)
  case watches => exact hi.watches_move hs ha
  case executions => exact fun b hb x hx k hk => hi.executions_move hs ha hb hx hk

theorem Issued.pause {next : Ensemble} (hi : Issued start history sys) (hp : Pause lapse sys next) :
    Issued start history next := by
  have htokens : next.site.tokens = sys.site.tokens := by
    obtain ⟨clock, -, hsite⟩ := hp.site_eq
    rw [hsite]
  constructor
  case next_le => exact htokens ▸ hi.next_le
  case abandoned => exact htokens ▸ hi.abandoned
  case beaten => exact htokens ▸ hi.beaten
  case beats =>
    intro b hb h ht
    obtain ⟨c, hc, -, htask⟩ := hp.exists_task hb
    exact htokens ▸ hi.beats c hc h (htask.trans ht)
  case watches =>
    intro b hb w hw
    obtain ⟨c, hc, -, htask⟩ := hp.exists_task hb
    exact hi.watches c hc w (htask.trans hw)
  case executions =>
    intro b hb x hx k hk
    obtain ⟨c, hc, -, htask⟩ := hp.exists_task hb
    obtain ⟨hmade, hnew, hown⟩ := hi.executions c hc x (htask ▸ hx) k hk
    refine ⟨htokens ▸ hmade, hnew, fun d hd h ht he => ?_⟩
    obtain ⟨d', hd', -, htask'⟩ := hp.exists_task hd
    exact hown d' hd' h (htask'.trans ht) he

theorem Interleaving.issued (h : Interleaving lapse start history sys) (hs : start.Opening) :
    Issued start history sys := by
  induction h with
  | nil => exact hs.issued
  | move h ha _ ih => exact ih.move (h.sound hs.toSound) ha
  | pause _ hp ih => exact ih.pause hp

/-- The token of an execution is abandoned just by a heartbeat that is told to give its job up. -/
theorem Issued.abandon_iff (hi : Issued start history sys) (ha : a ∈ sys.activities)
    (hb : b ∈ sys.activities) (hx : b.task.execution? = some x) (hk : x.token? = some k) :
    .abandon k ∈ a.task.deeds sys.site ↔
      Move.Beats ⟨sys, a⟩ x.job.snapshot k (.ok true) := by
  obtain ⟨hmade, hnew, hown⟩ := hi.executions b hb x hx k hk
  constructor
  · intro hmem
    cases Task.origin_of_mem_deeds a.task.within_trivial hmem with
    | @beatAbandon h deadline ht hphase hanswer =>
      have hr := hown a ha h ht rfl
      exact ⟨h, deadline, ht, hphase, hr, rfl, hr ▸ hanswer⟩
    | beginAbandon hy hphase hh => exact absurd hmade (made_of_begun hy hphase hh).1
    | watchAbandon ht => exact absurd (hi.watches a ha _ ht) hnew
  · rintro ⟨h, deadline, ht, hphase, hr, rfl, hanswer⟩
    have htask : a.task = .heartbeat h := ht
    rw [htask]
    exact Heartbeat.abandon_mem_deeds hphase (hr ▸ hanswer)

/-! ## The decision -/

/-- What the decision on the job of an execution comes from: that it was asked to give the job up
before its handler returned, or that the handler gave up of its own accord. -/
def GivesUp (before : List Move) (r : Move) (x : Execution) (k : Token) (o : Outcome) : Prop :=
  AskedToAbandon before x.job k ∨ o = .error .cancelled ∧ r.site.isCancelled x.shutdown = false

/-- How far an execution has come, and what has led it there. -/
def Accounted (history : List Move) (s : Site) (id : TaskId) (x : Execution) : Prop :=
  match x.phase with
  | .fresh => True
  | .handling _ k _ => s.tokens.isAbandoned k = true ↔ AskedToAbandon history x.job k
  | .finalizing k d o _ _ =>
    ∃ before r after y, history = before ++ r :: after ∧ r.mover.id = id ∧ r.Returns y k o ∧
      y.job = x.job ∧ y.shutdown = x.shutdown ∧ (d = .cancelled ↔ GivesUp before r x k o)

/-- An execution that does not move stays accounted for. -/
theorem Accounted.keep (hi : Issued start history sys) (ha : a ∈ sys.activities)
    (hb : b ∈ sys.activities) (hx : b.task.execution? = some x)
    (h : Accounted history sys.site b.id x) :
    Accounted (history ++ [⟨sys, a⟩]) (sys.move a).site b.id x := by
  unfold Accounted at h ⊢
  split at h
  · exact trivial
  · rename_i i k beats hphase
    have hk : x.token? = some k := by simp only [Execution.token?, hphase]
    refine (Move.isAbandoned_after ⟨sys, a⟩ k).trans ?_
    rw [askedToAbandon_append]
    exact or_congr h (hi.abandon_iff ha hb hx hk)
  · obtain ⟨before, r, after, y, rfl, hrest⟩ := h
    exact ⟨before, r, after ++ [⟨sys, a⟩], y, by simp, hrest⟩

/-- The decision that is taken when a handler returns. -/
theorem classify_iff_givesUp {i : Invocation} {beats : TaskId} {id : TaskId}
    (h : Accounted history sys.site id x) (hphase : x.phase = .handling i k beats) (m : Move)
    (hm : m.site = sys.site) (o : Outcome) :
    Disposition.classify o (sys.site.tokens.isAbandoned k) (sys.site.isCancelled x.shutdown) =
      some .cancelled ↔ GivesUp history m x k o := by
  have hasked : sys.site.tokens.isAbandoned k = true ↔ AskedToAbandon history x.job k := by
    simpa only [Accounted, hphase] using h
  rw [Disposition.classify_eq_cancelled_iff, hasked, GivesUp, hm]

/-- What a move makes of an execution is accounted for. -/
theorem Accounted.goes (hi : Issued start history sys) (ha : a ∈ sys.activities)
    (hx : a.task.acting? sys.site = some x) {x' : Execution} (hgo : x.Goes sys.site x')
    (h : Accounted history sys.site a.id x) :
    Accounted (history ++ [⟨sys, a⟩]) (sys.move a).site a.id x' := by
  have hexecution := Task.execution?_of_acting? hx
  have hdeeds : a.task.deeds sys.site = x.deeds sys.site := Task.deeds_of_acting? hx
  have hkeep := Accounted.keep hi ha ha hexecution h
  cases hgo with
  | @begun handler i n since hphase hh hsteps =>
    have hhandler : (sys.site.registry.handler? x.job).isSome = true := by
      rw [hh]
      rfl
    have hunmade := (made_of_begun hx hphase hhandler).1
    have hbefore : sys.site.tokens.isAbandoned (sys.site.newToken x.shutdown) ≠ true :=
      fun habandoned => hunmade (hi.abandoned _ habandoned)
    have hbeats : ∀ m ∈ history ++ [⟨sys, a⟩],
        ¬ m.Beats x.job.snapshot (sys.site.newToken x.shutdown) (.ok true) := by
      intro m hm hbeat
      rcases List.mem_append.mp hm with hm | hm
      · exact hunmade (hi.beaten m hm _ _ _ hbeat)
      · obtain rfl := List.mem_singleton.mp hm
        obtain ⟨g, -, ht, -, -, he, -⟩ := hbeat
        exact hunmade (he ▸ hi.beats a ha g ht)
    refine (Move.isAbandoned_after ⟨sys, a⟩ _).trans ?_
    rw [Move.deeds, Move.site, hdeeds, Execution.deeds_of_begun _ hphase hhandler]
    constructor
    · rintro (habandoned | hmem)
      · exact absurd habandoned hbefore
      · left
        cases hcancel : x.job.cancelRequested with
        | true => rfl
        | false => simp [hcancel] at hmem
    · rintro (hcancel | ⟨m, hm, hbeat⟩)
      · right
        have hrequested : x.job.cancelRequested = true := hcancel
        simp [hrequested]
      · exact absurd hbeat (hbeats m hm)
  | handles hphase =>
    simp only [Accounted, hphase] at hkeep ⊢
    exact hkeep
  | @decided i k beats o d hphase hreturn hd =>
    refine ⟨history, ⟨sys, a⟩, [], x, rfl, rfl, ⟨hx, i, beats, hphase, hreturn⟩, rfl, rfl, ?_⟩
    refine Iff.trans ?_ (classify_iff_givesUp h hphase ⟨sys, a⟩ rfl o)
    rw [hd, Option.some.injEq]
  | calls hphase =>
    simp only [Accounted, hphase] at hkeep ⊢
    exact hkeep

theorem Interleaving.accounted (h : Interleaving lapse start history sys) (hs : start.Opening) :
    ∀ b ∈ sys.activities, ∀ x, b.task.execution? = some x → Accounted history sys.site b.id x := by
  induction h with
  | nil =>
    intro b hb x hx
    rw [(hs.fresh b hb).execution?] at hx
    exact absurd hx (by simp)
  | @move history sys a h ha hf ih =>
    intro b hb x' hx'
    have hi := h.issued hs
    rcases (h.sound hs.toSound).execution_move hb hx' with
      ⟨c, hc, hid, -, hx⟩ | ⟨hid, ⟨x, hx, hgo⟩ | ⟨hx, -⟩ | ⟨job, t, rfl, -⟩⟩
    · rw [← hid]
      exact (ih c hc x' hx).keep hi ha hc hx
    · rw [hid]
      exact (ih a ha x (Task.execution?_of_acting? hx)).goes hi ha hx hgo
    · rw [hid]
      exact (ih a ha x' hx).keep hi ha ha hx
    · exact trivial
  | pause h hp ih =>
    intro b hb x hx
    obtain ⟨c, hc, hid, htask⟩ := hp.exists_task hb
    have hkept := ih c hc x (htask ▸ hx)
    obtain ⟨clock, -, hsite⟩ := hp.site_eq
    rw [hid] at hkept
    rw [hsite]
    exact hkept

/-- Whatever the order in which tasks move: the job of an execution that had a handler is cancelled
just if it was to be cancelled when it was leased, or a heartbeat of the execution was told so
before the handler returned, or the handler gave up and not for shutdown. The order in which an
execution is abandoned and shutdown is asked for does not matter, and refused heartbeats do not. -/
theorem abandonment_decides (hstart : start.Opening) (h : Interleaving anytime start history sys)
    (ha : a ∈ sys.activities) (hx : a.task.acting? sys.site = some x) {result : ExecutionResult}
    (hdone : (x.step sys.site).1 = .done result)
    (hh : (sys.site.registry.handler? x.job).isSome = true) :
    (∃ before r after y k o, history ++ [⟨sys, a⟩] = before ++ r :: after ∧ r.mover.id = a.id ∧
      r.Returns y k o ∧ x.token? = some k ∧ y.job = x.job ∧ y.shutdown = x.shutdown ∧
      ((∃ persisted, result = .finalized .cancelled persisted) ↔ GivesUp before r x k o)) ∧
    (∀ (s : Site) k o, (Execution.decide ((s.cancel x.shutdown).abandon k).2 x k o).1 =
      (Execution.decide ((s.abandon k).2.cancel x.shutdown) x k o).1) ∧
    ∀ (s : Site) (g : Heartbeat) refusal k o,
      (Execution.decide (g.react s (.error refusal)) x k o).1 =
      (Execution.decide s x k o).1 := by
  refine ⟨?_, fun s k o => Execution.decide_exchange s x k o,
    fun s g refusal k o => Execution.decide_react_error s g refusal x k o⟩
  have haccounted := h.accounted hstart a ha x (Task.execution?_of_acting? hx)
  cases Execution.ends_of_done hdone with
  | unsupported _ hnone =>
    rw [hnone] at hh
    exact absurd hh (by simp)
  | @interrupted i k beats o hphase hreturn hd =>
    refine ⟨history, ⟨sys, a⟩, [], x, k, o, rfl, rfl, ⟨hx, i, beats, hphase, hreturn⟩,
      by simp only [Execution.token?, hphase], rfl, rfl, ?_⟩
    rw [← classify_iff_givesUp haccounted hphase ⟨sys, a⟩ rfl o, hd]
    simp
  | @finalized k d o record answer hphase hanswer =>
    simp only [Accounted, hphase] at haccounted
    obtain ⟨before, r, after, y, rfl, hid, hreturn, hjob, hshutdown, hd⟩ := haccounted
    refine ⟨before, r, after ++ [⟨sys, a⟩], y, k, o, by simp, hid, hreturn,
      by simp only [Execution.token?, hphase], hjob, hshutdown, ?_⟩
    rw [← hd]
    simp

/-- A job that is asked to be cancelled while its handler runs, and shutdown after that. -/
def abandoned : Ensemble :=
  let stubborn : Handler := .scripted 0 "stubborn" [⟨[.sleep 120000], .returns (.ok "done")⟩]
  let site :=
    { Site.initial with ready := true, registry := Registry.empty.register .exports none stubborn }
  ((Ensemble.ofSite site).host (.timeline (.ofList
    [(0, .enqueue .exports "" none 1), (3000, .requestCancel 1), (40000, .shutdown)]))).host
    (.loop (.fresh .exports "a" 0 site.shutdown))

/-- The handler takes no notice of either and returns; its result is not handed over yet. -/
def abandonedTurns : List Turn :=
  [Turn.go 0, .go 1, .pass 2000] ++ List.replicate 6 (Turn.go 1) ++
    [Turn.go 2, .pass 3000, .go 0, .go 0] ++ [Turn.pass 32000] ++ List.replicate 4 (Turn.go 2) ++
    [Turn.pass 40000, .go 0, .pass 122000] ++ List.replicate 2 (Turn.go 1)

theorem opening_abandoned : abandoned.Opening := by
  refine ((Ensemble.opening_ofSite rfl rfl ?_).host ?_).host ?_
  · exact fun t ht => absurd ht List.not_mem_nil
  · exact trivial
  · rfl

theorem abandonment_decides_by_heartbeat :
    let sys := (abandoned.follow anytime abandonedTurns).2
    let history := (abandoned.follow anytime abandonedTurns).1
    ∃ a ∈ sys.activities, ∃ x, a.task.acting? sys.site = some x ∧
      (x.step sys.site).1 = .done (.finalized .cancelled true) ∧
      ∃ before r after y k o, history ++ [⟨sys, a⟩] = before ++ r :: after ∧ r.Returns y k o ∧
        GivesUp before r x k o := by
  intro sys history
  have hrun : sys.activities.any (fun a => (a.task.acting? sys.site).any fun x =>
      (x.step sys.site).1.result? == some (.finalized .cancelled true) &&
        (sys.site.registry.handler? x.job).isSome) = true := by decide +kernel
  obtain ⟨a, ha, hx⟩ := List.any_eq_true.mp hrun
  obtain ⟨x, hx, hends⟩ := (Option.any_eq_true _ _).mp hx
  rw [Bool.and_eq_true] at hends
  obtain ⟨hends, hh⟩ := hends
  have hdone : (x.step sys.site).1 = .done (.finalized .cancelled true) :=
    Progress.eq_done (eq_of_beq hends)
  have hfollow : Interleaving anytime abandoned history sys :=
    Ensemble.interleaving_follow anytime abandonedTurns abandoned
  obtain ⟨⟨before, r, after, y, k, o, hsplit, -, hreturn, -, -, -, hiff⟩, -⟩ :=
    abandonment_decides opening_abandoned hfollow ha hx hdone hh
  have hgives := hiff.mp ⟨true, rfl⟩
  exact ⟨a, ha, x, hx, hdone, before, r, after, y, k, o, hsplit, hreturn, hgives⟩

end Host

end LeasedWork
