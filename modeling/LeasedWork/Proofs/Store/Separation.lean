import LeasedWork.Proofs.Store.Touch

/-!
# Queues that do not interfere

The queues share one table, one row of numbers and the switches that make calls fail, and yet no
queue notices another. A call for a job finds the jobs of its own queue only, and an operation that
names a job reads and writes the entry of that number only. So what does not concern a queue can be
taken out of a history: the rest is answered as before and leaves the jobs of the queue as before.
-/
namespace LeasedWork

open Time (Instant)

namespace Operation

/-- The number of the job that an operation names. -/
def number? : Operation → Option Int
  | .heartbeat record | .complete record _ => some record.id
  | .requestCancel id | .age id _ => some id
  | .enqueue _ _ _ | .dequeue _ _ | .setFailing _ _ | .setInitialized _ => none

end Operation

namespace Store

variable {s t : Store} {queue : Queue} {id : Int} {e : Entry} {now : Instant} {op : Operation}

/-- Whether a job of a queue stands under a number. -/
def isOf (s : Store) (queue : Queue) (id : Int) : Bool :=
  (s.entry? id).any fun e => e.job.queue = queue

/-- The entries of the jobs of a queue. -/
def share (s : Store) (queue : Queue) : List Entry :=
  s.entries.filter fun e => e.job.queue = queue

/-- Whether an operation concerns a queue: a call for a job looks into it, or the job that is named
is one of its jobs. What names neither a queue to look into nor a job concerns every queue. -/
def concerns (s : Store) (queue : Queue) (op : Operation) : Bool :=
  match op with
  | .dequeue request _ => request.queue = queue
  | op => op.number?.all (s.isOf queue)

/-- The operations of a history with their answers. -/
def transcript (history : List (Instant × Operation)) (s : Store) :
    List ((Instant × Operation) × Answer) :=
  history.zip (performAll history s).1

/-! ## One entry at a time -/

/-- A change of an entry that leaves its job in its queue. -/
def KeepsQueue (change : Entry → Entry) : Prop := ∀ e, (change e).job.queue = e.job.queue

theorem modifyFirst_unchanged (p : Entry → Bool) (entries : List Entry) :
    modifyFirst p (fun e => e) entries = entries := by
  induction entries with
  | nil => rfl
  | cons e rest ih => by_cases h : p e = true <;> simp [modifyFirst, h, ih]

theorem Tallied.modify (h : Tallied s t) (id : Int) (change : Entry → Entry) :
    Tallied (s.modify id change) (t.modify id change) :=
  { h with entries := by simp only [Store.modify, h.entries] }

theorem keepsQueue_finalized (maxRetries : Int) (record : Job) (force : Bool) (now : Instant) :
    KeepsQueue (finalized maxRetries record force now) := by
  intro e
  unfold finalized
  split <;> rfl

theorem Touch.queue_eq {maxRetries : Int} {e' : Entry} (h : Touch maxRetries now e op e') :
    e'.job.queue = e.job.queue := by
  cases h with
  | finalized => exact keepsQueue_finalized _ _ _ _ e
  | _ => rfl

/-- Two stores that rule alike and agree on the entry of a number. -/
structure AgreeOn (id : Int) (s t : Store) : Prop where
  entry : t.entry? id = s.entry? id
  failHeartbeat : t.failHeartbeat = s.failHeartbeat
  failComplete : t.failComplete = s.failComplete
  maxRetries : t.maxRetries = s.maxRetries

/-- One change of the entry of a number is all that comes of an operation in either store. -/
def ChangeAlike (id : Int) (s s' t t' : Store) : Prop :=
  ∃ change, KeepsNumber change ∧ KeepsQueue change ∧
    Tallied (s.modify id change) s' ∧ Tallied (t.modify id change) t'

variable {s' t' : Store}

theorem changeAlike_modify (hs : Tallied s s') (ht : Tallied t t') {change : Entry → Entry}
    (hnumber : KeepsNumber change) (hqueue : KeepsQueue change) :
    ChangeAlike id s (s'.modify id change) t (t'.modify id change) :=
  ⟨change, hnumber, hqueue, hs.modify id change, ht.modify id change⟩

theorem changeAlike_of_tallied (hs : Tallied s s') (ht : Tallied t t') :
    ChangeAlike id s s' t t' := by
  have hself : ∀ u : Store, u.modify id (fun e => e) = u := fun u => by
    rw [Store.modify, modifyFirst_unchanged]
  exact ⟨fun e => e, fun _ => rfl, fun _ => rfl, (hself s).symm ▸ hs, (hself t).symm ▸ ht⟩

/-- An operation that names a job asks nothing of the store but the entry of its number. -/
theorem AgreeOn.perform (h : AgreeOn id s t) (hop : op.number? = some id) (now : Instant) :
    (t.perform now op).1 = (s.perform now op).1 ∧
      ChangeAlike id s (s.perform now op).2 t (t.perform now op).2 := by
  obtain ⟨hentry, hbeat, hcomplete, hretries⟩ := h
  cases op with
  | heartbeat record =>
    obtain rfl : record.id = id := Option.some.inj hop
    have hs : Tallied s (s.noteBeat record.id) := tallied_counts s _ _ _
    have ht : Tallied t (t.noteBeat record.id) := tallied_counts t _ _ _
    simp only [Store.perform, heartbeat, hentry, hbeat]
    split
    · exact ⟨rfl, changeAlike_of_tallied hs ht⟩
    split
    · exact ⟨rfl, changeAlike_of_tallied hs ht⟩
    split
    · exact ⟨rfl, changeAlike_of_tallied hs ht⟩
    · exact ⟨rfl, changeAlike_modify hs ht (fun _ => rfl) fun _ => rfl⟩
  | complete record force =>
    obtain rfl : record.id = id := Option.some.inj hop
    have hs : Tallied s (s.noteComplete record force) := tallied_counts s _ _ _
    have ht : Tallied t (t.noteComplete record force) := tallied_counts t _ _ _
    simp only [Store.perform, complete, hentry, hcomplete, hretries]
    split
    · exact ⟨rfl, changeAlike_of_tallied hs ht⟩
    split
    · exact ⟨rfl, changeAlike_of_tallied hs ht⟩
    split
    · exact ⟨rfl, changeAlike_of_tallied hs ht⟩
    split
    · exact ⟨rfl, changeAlike_of_tallied hs ht⟩
    split
    · exact ⟨rfl, changeAlike_of_tallied hs ht⟩
    split <;> exact ⟨rfl, changeAlike_modify hs ht (fun _ => rfl) fun _ => rfl⟩
  | requestCancel n =>
    obtain rfl : n = id := Option.some.inj hop
    simp only [Store.perform, requestCancel, hentry]
    split
    · split
      · exact ⟨rfl, changeAlike_of_tallied (.refl s) (.refl t)⟩
      · exact ⟨rfl, changeAlike_modify (.refl s) (.refl t) (fun _ => rfl) fun _ => rfl⟩
    · exact ⟨rfl, changeAlike_of_tallied (.refl s) (.refl t)⟩
  | age n seconds =>
    obtain rfl : n = id := Option.some.inj hop
    simp only [Store.perform, age, hentry]
    cases s.entry? n with
    | none => exact ⟨rfl, changeAlike_of_tallied (.refl s) (.refl t)⟩
    | some e =>
      dsimp only
      cases e.job.beat.earlier seconds with
      | error fault => exact ⟨rfl, changeAlike_of_tallied (.refl s) (.refl t)⟩
      | ok beat => exact ⟨rfl, changeAlike_modify (.refl s) (.refl t) (fun _ => rfl) fun _ => rfl⟩
  | _ => simp [Operation.number?] at hop

/-! ## The share of a queue -/

theorem find?_share {p : Entry → Bool} (hp : ∀ e, p e = true → e.job.queue = queue) (s : Store) :
    (s.share queue).find? p = s.entries.find? p := by
  rw [share, List.find?_filter]
  congr 1
  funext e
  cases hpe : p e with
  | false => simp
  | true => simp [hp e hpe]

theorem filter_modifyFirst {change : Entry → Entry} (hc : KeepsQueue change) (queue : Queue)
    (id : Int) (entries : List Entry) :
    (modifyFirst (fun e => e.job.id = id) change entries).filter (fun e => e.job.queue = queue) =
      if (entries.find? fun e => e.job.id = id).any fun e => e.job.queue = queue then
        modifyFirst (fun e => e.job.id = id) change
          (entries.filter fun e => e.job.queue = queue)
      else entries.filter fun e => e.job.queue = queue := by
  induction entries with
  | nil => simp [modifyFirst]
  | cons e rest ih =>
    by_cases hid : e.job.id = id
    · by_cases hq : e.job.queue = queue <;> simp [modifyFirst, hid, hq, hc e]
    · by_cases hq : e.job.queue = queue
      · simp only [modifyFirst, hid, hq, List.filter_cons, List.find?_cons, decide_false,
          decide_true, if_true, Bool.false_eq_true, if_false, ih]
        split <;> rfl
      · simp only [modifyFirst, hid, hq, List.filter_cons, List.find?_cons, decide_false,
          Bool.false_eq_true, if_false, ih]

/-- A change reaches the share of a queue only if the job is one of the queue. -/
theorem share_modify {change : Entry → Entry} (hc : KeepsQueue change) (s : Store) (id : Int) :
    share (s.modify id change) queue =
      if s.isOf queue id then modifyFirst (fun e => e.job.id = id) change (s.share queue)
      else s.share queue :=
  filter_modifyFirst hc queue id s.entries

/-! ## Stores that look the same to a queue -/

/-- Whether two stores cannot be told apart by what concerns a queue. -/
structure SameShare (queue : Queue) (s t : Store) : Prop where
  share : t.share queue = s.share queue
  ids : t.ids = s.ids
  lastId : t.lastId = s.lastId
  initialized : t.initialized = s.initialized
  failDequeue : t.failDequeue = s.failDequeue
  failHeartbeat : t.failHeartbeat = s.failHeartbeat
  failComplete : t.failComplete = s.failComplete
  maxRetries : t.maxRetries = s.maxRetries

theorem SameShare.refl (queue : Queue) (s : Store) : SameShare queue s s :=
  ⟨rfl, rfl, rfl, rfl, rfl, rfl, rfl, rfl⟩

theorem SameShare.trans {u : Store} (h : SameShare queue s t) (h' : SameShare queue t u) :
    SameShare queue s u :=
  ⟨h'.share.trans h.share, h'.ids.trans h.ids, h'.lastId.trans h.lastId,
    h'.initialized.trans h.initialized, h'.failDequeue.trans h.failDequeue,
    h'.failHeartbeat.trans h.failHeartbeat, h'.failComplete.trans h.failComplete,
    h'.maxRetries.trans h.maxRetries⟩

theorem SameShare.symm (h : SameShare queue s t) : SameShare queue t s :=
  ⟨h.share.symm, h.ids.symm, h.lastId.symm, h.initialized.symm, h.failDequeue.symm,
    h.failHeartbeat.symm, h.failComplete.symm, h.maxRetries.symm⟩

theorem Tallied.sameShare (h : Tallied s t) (queue : Queue) : SameShare queue s t where
  share := by rw [Store.share, h.entries, Store.share]
  ids := by rw [Store.ids, h.entries, Store.ids]
  lastId := h.lastId
  initialized := h.initialized
  failDequeue := h.failDequeue
  failHeartbeat := h.failHeartbeat
  failComplete := h.failComplete
  maxRetries := h.maxRetries

/-- What is changed outside a queue does not show in it. -/
theorem sameShare_modify {change : Entry → Entry} (hnumber : KeepsNumber change)
    (hqueue : KeepsQueue change) (h : s.isOf queue id = false) :
    SameShare queue s (s.modify id change) where
  share := by rw [share_modify hqueue, h, if_neg Bool.false_ne_true]
  ids := ids_modify s hnumber id
  lastId := rfl
  initialized := rfl
  failDequeue := rfl
  failHeartbeat := rfl
  failComplete := rfl
  maxRetries := rfl

/-- One change of the same entry keeps two stores alike. -/
theorem SameShare.modify (h : SameShare queue s t) {change : Entry → Entry}
    (hnumber : KeepsNumber change) (hqueue : KeepsQueue change)
    (hentry : t.entry? id = s.entry? id) :
    SameShare queue (s.modify id change) (t.modify id change) where
  share := by
    have hisOf : t.isOf queue id = s.isOf queue id := by rw [isOf, hentry, isOf]
    rw [share_modify hqueue, share_modify hqueue, hisOf, h.share]
  ids := by rw [ids_modify _ hnumber, ids_modify _ hnumber, h.ids]
  lastId := h.lastId
  initialized := h.initialized
  failDequeue := h.failDequeue
  failHeartbeat := h.failHeartbeat
  failComplete := h.failComplete
  maxRetries := h.maxRetries

/-- Nothing stands under a number that no entry has. -/
theorem entry?_eq_none_iff (s : Store) (id : Int) : s.entry? id = none ↔ id ∉ s.ids := by
  simp [Store.entry?, ids, List.find?_eq_none]

theorem isOf_iff (s : Store) (queue : Queue) (id : Int) :
    s.isOf queue id = true ↔ ∃ e, s.entry? id = some e ∧ e.job.queue = queue := by
  simp [isOf, Option.any_eq_true]

/-- Stores that look the same to a queue hold the same entries for its jobs. -/
theorem SameShare.entry?_eq (h : SameShare queue s t) (ht : t.Sound)
    (hid : s.isOf queue id = true) : t.entry? id = s.entry? id := by
  obtain ⟨e, he, hq⟩ := (s.isOf_iff queue id).mp hid
  have hshare : e ∈ t.share queue :=
    h.share ▸ List.mem_filter.mpr ⟨List.mem_of_find?_eq_some he, by simpa using hq⟩
  have hfound := ht.entry?_of_mem (List.mem_filter.mp hshare).1
  rw [he, ← id_of_entry? he, hfound]

/-- A number that is nobody's yet is nobody's in a store that looks the same. -/
theorem SameShare.entry?_eq_none (h : SameShare queue s t) (hid : s.entry? id = none) :
    t.entry? id = none := by
  rw [Store.entry?_eq_none_iff, h.ids, ← entry?_eq_none_iff, hid]

/-! ## Operations -/

/-- What is eligible for a call is of the queue that the call looks into. -/
theorem queue_of_isEligible {request : LeaseRequest} {job : Job}
    (h : isEligible request now job = true) : job.queue = request.queue := by
  simp only [isEligible, Bool.and_eq_true, decide_eq_true_eq] at h
  exact h.1.1

/-- An operation that does not concern a queue does not show in it. -/
theorem Sound.sameShare_of_foreign (hs : s.Sound) (h : s.concerns queue op = false)
    (now : Instant) : SameShare queue s (s.perform now op).2 := by
  cases hop : op.number? with
  | some id =>
    have hforeign : s.isOf queue id = false := by
      cases op <;> simp_all [concerns, Operation.number?]
    obtain ⟨-, change, hnumber, hqueue, htallied, -⟩ :=
      AgreeOn.perform (⟨rfl, rfl, rfl, rfl⟩ : AgreeOn id s s) hop now
    exact (sameShare_modify hnumber hqueue hforeign).trans (htallied.sameShare queue)
  | none =>
    cases op with
    | dequeue request cancelled =>
      have hne : request.queue ≠ queue := by simpa [concerns] using h
      rcases hs.dequeue_cases request cancelled now with ⟨ht, -⟩ | ⟨e, he, -, hel, -, ht⟩
      · simp only [perform, ht]
        exact (tallied_counts s _ _ _).sameShare queue
      · have hforeign : s.isOf queue e.job.id = false := by
          simp [isOf, he, queue_of_isEligible hel, hne]
        have hcounted : SameShare queue s s.countDequeue := (tallied_counts s _ _ _).sameShare queue
        simp only [perform, ht]
        exact hcounted.trans (sameShare_modify (fun _ => rfl) (fun _ => rfl) hforeign)
    | _ => simp_all [concerns, Operation.number?]

/-- A call for a job of a queue finds the same one in stores that look the same to the queue. -/
theorem SameShare.dequeue (h : SameShare queue s t) (hs : s.Sound) (ht : t.Sound)
    {request : LeaseRequest} (hqueue : request.queue = queue) (cancelled : Bool) (now : Instant) :
    (t.dequeue request cancelled now).1 = (s.dequeue request cancelled now).1 ∧
      SameShare queue (s.dequeue request cancelled now).2 (t.dequeue request cancelled now).2 := by
  have hcounted : SameShare queue s.countDequeue t.countDequeue := { h with }
  have hown : ∀ e : Entry, isEligible request now e.job = true → e.job.queue = queue :=
    fun e he => hqueue ▸ queue_of_isEligible he
  have hfind : t.entries.find? (fun e => isEligible request now e.job) =
      s.entries.find? fun e => isEligible request now e.job := by
    rw [← find?_share hown t, h.share, find?_share hown s]
  simp only [Store.dequeue, h.failDequeue, hfind]
  split
  · exact ⟨rfl, hcounted⟩
  split
  · exact ⟨rfl, hcounted⟩
  split
  · exact ⟨rfl, hcounted⟩
  · rename_i e he
    have hentry : s.entry? e.job.id = some e := hs.entry?_of_mem (List.mem_of_find?_eq_some he)
    have hisOf : s.isOf queue e.job.id = true :=
      (s.isOf_iff queue e.job.id).mpr ⟨e, hentry, hown e (by simpa using List.find?_some he)⟩
    have hsame : t.entry? e.job.id = s.entry? e.job.id := h.entry?_eq ht hisOf
    have hsleased := modify_congr (s := s.countDequeue) (g := leasedEntry request now) hentry
      (f := fun a => { a with job := leased request.worker now e.job }) rfl
    have htleased := modify_congr (s := t.countDequeue) (g := leasedEntry request now)
      (hsame.trans hentry) (f := fun a => { a with job := leased request.worker now e.job }) rfl
    refine ⟨rfl, ?_⟩
    change SameShare queue (s.countDequeue.modify e.job.id _) (t.countDequeue.modify e.job.id _)
    rw [hsleased, htleased]
    exact hcounted.modify (fun _ => rfl) (fun _ => rfl) hsame

/-- Stores that look the same to a queue do what they have in common alike. -/
theorem SameShare.perform (h : SameShare queue s t) (hs : s.Sound) (ht : t.Sound)
    (hlooks : ∀ request cancelled, op = .dequeue request cancelled → request.queue = queue)
    (hnames : ∀ id, op.number? = some id → t.entry? id = s.entry? id) (now : Instant) :
    (t.perform now op).1 = (s.perform now op).1 ∧
      SameShare queue (s.perform now op).2 (t.perform now op).2 := by
  cases hop : op.number? with
  | some id =>
    have hagree : AgreeOn id s t :=
      ⟨hnames id hop, h.failHeartbeat, h.failComplete, h.maxRetries⟩
    obtain ⟨hanswer, change, hnumber, hqueue, hs', ht'⟩ := hagree.perform hop now
    have hmodified := h.modify hnumber hqueue hagree.entry
    exact ⟨hanswer, ((hs'.sameShare queue).symm.trans hmodified).trans (ht'.sameShare queue)⟩
  | none =>
    cases op with
    | enqueue q definition group =>
      have hid : (t.perform now (.enqueue q definition group)).1 =
          (s.perform now (.enqueue q definition group)).1 := by
        simp only [Store.perform, enqueue, h.lastId]
      refine ⟨hid, { h with share := ?_, ids := ?_, lastId := ?_ }⟩
      · have hshare : t.entries.filter (fun e => e.job.queue = queue) =
            s.entries.filter fun e => e.job.queue = queue := h.share
        simp only [Store.share, Store.perform, enqueue, List.filter_append, hshare, h.lastId]
      · have hids : t.entries.map (·.job.id) = s.entries.map (·.job.id) := h.ids
        simp only [Store.ids, Store.perform, enqueue, List.map_append, hids, h.lastId]
      · simp only [Store.perform, enqueue, h.lastId]
    | dequeue request cancelled =>
      obtain ⟨hanswer, hshare⟩ := h.dequeue hs ht (hlooks request cancelled rfl) cancelled now
      exact ⟨by simp only [Store.perform, hanswer], hshare⟩
    | setFailing call value =>
      cases call with
      | dequeue => exact ⟨rfl, { h with failDequeue := rfl }⟩
      | heartbeat => exact ⟨rfl, { h with failHeartbeat := rfl }⟩
      | complete => exact ⟨rfl, { h with failComplete := rfl }⟩
    | setInitialized value => exact ⟨rfl, { h with initialized := rfl }⟩
    | _ => simp [Operation.number?] at hop

/-! ## Histories -/

/-- A job stays in its queue. -/
theorem Sound.isOf_perform (hs : s.Sound) (he : s.entry? id = some e) (queue : Queue)
    (now : Instant) (op : Operation) : isOf (s.perform now op).2 queue id = s.isOf queue id := by
  obtain ⟨e', he', rfl | htouch⟩ := hs.entry?_perform he now op
  · simp only [isOf, he', he]
  · simp only [isOf, he', he, Option.any_some, htouch.queue_eq]

theorem Sound.isOf_performAll (hs : s.Sound) (he : s.entry? id = some e) (queue : Queue)
    (history : List (Instant × Operation)) :
    isOf (performAll history s).2 queue id = s.isOf queue id := by
  induction history generalizing s e with
  | nil => rfl
  | cons call rest ih =>
    obtain ⟨e', he', -⟩ := hs.entry?_perform he call.1 call.2
    exact (ih (sound_perform hs call.1 call.2) he').trans (hs.isOf_perform he queue call.1 call.2)

/-- What concerns a queue goes on concerning it. -/
theorem Sound.concerns_performAll (hs : s.Sound) (h : s.concerns queue op = true)
    (history : List (Instant × Operation)) :
    concerns (performAll history s).2 queue op = true := by
  have hlasts : ∀ id, s.isOf queue id = true → isOf (performAll history s).2 queue id = true := by
    intro id hid
    obtain ⟨e, he, -⟩ := (s.isOf_iff queue id).mp hid
    rw [hs.isOf_performAll he, hid]
  cases op <;> simp_all [concerns, Operation.number?]

/-- What is to concern a queue in the end looks into no other queue and names no job of another. -/
theorem SameShare.entry?_of_concerns (h : SameShare queue s t) (hs : s.Sound) (ht : t.Sound)
    {history : List (Instant × Operation)}
    (hop : concerns (Store.performAll history s).2 queue op = true) (hid : op.number? = some id) :
    t.entry? id = s.entry? id := by
  cases he : s.entry? id with
  | none => exact h.entry?_eq_none he
  | some e =>
    have hlast : isOf (Store.performAll history s).2 queue id = true := by
      cases op <;> simp_all [concerns, Operation.number?]
    rw [h.entry?_eq ht (hs.isOf_performAll he queue history ▸ hlast), he]

/-- Stores that look the same to a queue stay so if one of them goes through a history and the
other only through what concerns the queue. -/
theorem SameShare.performAll (h : SameShare queue s t) (hs : s.Sound) (ht : t.Sound)
    (history : List (Instant × Operation)) :
    let u := (Store.performAll history s).2
    let own := history.filter fun call => u.concerns queue call.2
    transcript own t = (transcript history s).filter (fun line => u.concerns queue line.1.2) ∧
      SameShare queue u (Store.performAll own t).2 := by
  induction history generalizing s t with
  | nil => exact ⟨rfl, h⟩
  | cons call rest ih =>
    obtain ⟨now, op⟩ := call
    intro u own
    have hs' := sound_perform hs now op
    cases hop : u.concerns queue op with
    | true =>
      have hlooks : ∀ request cancelled, op = .dequeue request cancelled →
          request.queue = queue := by
        rintro request cancelled rfl
        simpa [concerns] using hop
      obtain ⟨hanswer, hnext⟩ := h.perform hs ht hlooks
        (fun id hid => h.entry?_of_concerns hs ht hop hid) now
      obtain ⟨hlines, hlast⟩ := ih hnext hs' (sound_perform ht now op)
      have hown : own = (now, op) :: rest.filter fun call => u.concerns queue call.2 :=
        List.filter_cons_of_pos hop
      have hline : (transcript ((now, op) :: rest) s).filter
            (fun line => u.concerns queue line.1.2) =
          ((now, op), (s.perform now op).1) :: (transcript rest (s.perform now op).2).filter
            (fun line => u.concerns queue line.1.2) :=
        List.filter_cons_of_pos hop
      rw [hown, hline, ← hanswer]
      exact ⟨congrArg _ hlines, hlast⟩
    | false =>
      have hforeign : s.concerns queue op = false := by
        refine Bool.eq_false_iff.mpr fun htrue => ?_
        rw [hs.concerns_performAll htrue ((now, op) :: rest)] at hop
        exact absurd hop (by simp)
      have hown : own = rest.filter fun call => u.concerns queue call.2 :=
        List.filter_cons_of_neg (by simp [hop])
      have hnext := (hs.sameShare_of_foreign hforeign now).symm.trans h
      obtain ⟨hlines, hlast⟩ := ih hnext hs' ht
      have hline : (transcript ((now, op) :: rest) s).filter
            (fun line => u.concerns queue line.1.2) =
          (transcript rest (s.perform now op).2).filter
            (fun line => u.concerns queue line.1.2) :=
        List.filter_cons_of_neg (by simp [hop])
      rw [hown, hline]
      exact ⟨hlines, hlast⟩

/-- Queues do not interfere. Take any history and any queue, and take out of the history whatever
does not concern the queue: the calls for jobs of other queues, and everything that names a number
under which no job of the queue stands when the history ends. What remains, at the times it had, is
answered as it was, and the jobs of the queue end as they did, with their counts of retries. -/
theorem queues_do_not_interfere (maxRetries : Int) (queue : Queue)
    (history : List (Instant × Operation)) :
    let s := afterHistory maxRetries history
    let own := history.filter fun call => s.concerns queue call.2
    transcript own (empty maxRetries) = (transcript history (empty maxRetries)).filter
        (fun line => s.concerns queue line.1.2) ∧
      (afterHistory maxRetries own).share queue = s.share queue ∧
      ∀ id, s.isOf queue id = true → entry? (afterHistory maxRetries own) id = s.entry? id := by
  intro s own
  have hempty := sound_empty maxRetries
  obtain ⟨hlines, hlast⟩ := (SameShare.refl queue (empty maxRetries)).performAll hempty hempty history
  exact ⟨hlines, hlast.share, fun id hid => hlast.entry?_eq (sound_afterHistory maxRetries own) hid⟩

/-- Nothing that is done to an import concerns exports, even if it comes to nothing. -/
example :
    let now : Instant := ⟨1704067200, 0⟩
    let history := [(now, .enqueue .exports "" none), (now, .enqueue .imports "" none),
      (now, .dequeue ⟨.imports, "a", 600, none, false⟩ false), (now, .age 2 9223372036854775807),
      (now, .dequeue ⟨.exports, "b", 600, none, false⟩ false), (now, .requestCancel 2)]
    history.filter (fun call => (afterHistory 3 history).concerns .exports call.2) =
      [(now, .enqueue .exports "" none), (now, .enqueue .imports "" none),
        (now, .dequeue ⟨.exports, "b", 600, none, false⟩ false)] := by
  decide

end Store

end LeasedWork
