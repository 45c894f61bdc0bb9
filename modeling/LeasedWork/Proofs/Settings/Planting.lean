import Mathlib.Algebra.GroupWithZero.Nat
import LeasedWork.Proofs.Settings.QueueList
import LeasedWork.Proofs.Store.Entries
import LeasedWork.Settings.Seed

/-!
# What a list of seeds plants

The same notation names the queues to host and the jobs to plant, and it is read twice. The two
readings differ in that only hosted queues can be switched off and only seeds can ask for nothing;
besides, a list that says how many loops a queue gets plants as many jobs. Jobs are planted while
the list is read, so those of the entries before the first bad one stay.
-/
namespace LeasedWork.Seed

open Time (Instant)
open HostedQueue (entries parseList)

variable {list entry : List Char} {now : Instant} {s : Store} {seed : Seed} {seeds : List Seed}
variable {fault : SeedFault} {queues : List Queue}

/-! ## Entries -/

/-- Whether an entry spells a seed: a name and behind the first colon a count, or a name alone for
one job. -/
def IsSpelledBy (seed : Seed) (entry : List Char) : Prop :=
  (∃ name count core, entry = name ++ ':' :: count ∧ ':' ∉ name ∧ seed.queue.IsNamedBy name ∧
    Text.Trims count core ∧ Number.IsCount core seed.count) ∨
  (':' ∉ entry ∧ seed.queue.IsNamedBy entry ∧ seed.count = 1)

theorem isSpelledBy_of_cut {name count : List Char} (h : Text.cut? ':' entry = some (name, count)) :
    seed.IsSpelledBy entry ↔
      seed.queue.IsNamedBy name ∧ Number.IsCount (Text.trim count) seed.count := by
  obtain ⟨rfl, hname⟩ := Text.cut?_eq_some_iff.mp h
  constructor
  · rintro (⟨name', count', core, hsplit, hname', hqueue, htrims, hcount⟩ | ⟨hnone, -⟩)
    · have hcut := h.symm.trans (Text.cut?_eq_some_iff.mpr ⟨hsplit, hname'⟩)
      obtain ⟨rfl, rfl⟩ := Prod.mk.inj (Option.some.inj hcut)
      rw [htrims.trim_eq]
      exact ⟨hqueue, hcount⟩
    · exact absurd (by simp) hnone
  · rintro ⟨hqueue, hcount⟩
    exact .inl ⟨name, count, Text.trim count, rfl, hname, hqueue, Text.trims_trim count, hcount⟩

theorem isSpelledBy_of_not_mem (h : ':' ∉ entry) :
    seed.IsSpelledBy entry ↔ seed.queue.IsNamedBy entry ∧ seed.count = 1 := by
  constructor
  · rintro (⟨name, count, core, rfl, -⟩ | ⟨-, hspelled⟩)
    · exact absurd (by simp) h
    · exact hspelled
  · intro hspelled
    exact .inr ⟨h, hspelled⟩

theorem isCount_one : Number.IsCount (Text.trim ['1']) seed.count ↔ seed.count = 1 := by
  rw [← Number.readCount_eq_ok_iff, show Number.readCount (Text.trim ['1']) = .ok 1 from by decide]
  simp [eq_comm]

theorem ofEntry_eq_ok_iff : ofEntry entry = .ok seed ↔ seed.IsSpelledBy entry := by
  have hread : ofEntry entry = .ok seed ↔
      seed.queue.IsNamedBy ((Text.cut? ':' entry).getD (entry, ['1'])).1 ∧
        Number.IsCount (Text.trim ((Text.cut? ':' entry).getD (entry, ['1'])).2) seed.count := by
    rw [← Queue.parse?_eq_some_iff, ← Number.readCount_eq_ok_iff, ofEntry]
    generalize (Text.cut? ':' entry).getD (entry, ['1']) = cut
    obtain ⟨name, count⟩ := cut
    obtain ⟨queue, n⟩ := seed
    cases hqueue : Queue.parse? name with
    | none => simp [hqueue]
    | some queue => cases hcount : Number.readCount (Text.trim count) <;> simp [hqueue, hcount]
  rw [hread]
  cases hcut : Text.cut? ':' entry with
  | none =>
    rw [isSpelledBy_of_not_mem (Text.cut?_eq_none_iff.mp hcut)]
    exact and_congr_right fun _ => isCount_one
  | some cut => exact (isSpelledBy_of_cut hcut).symm

/-- Whether an entry is not marked as switched off. -/
def Unmarked (entry : List Char) : Prop := entry.head? ≠ some '!'

theorem not_isNamedBy_of_mark (queue : Queue) (rest : List Char) :
    ¬ queue.IsNamedBy ('!' :: rest) := by
  rintro ⟨core, htrims, hname⟩
  obtain ⟨before, after, hsplit, hbefore, hafter⟩ := htrims.surrounded
  cases before with
  | cons c before =>
    obtain ⟨rfl, -⟩ := List.cons.inj hsplit
    exact absurd (hbefore '!' List.mem_cons_self) (by decide)
  | nil =>
    cases core with
    | nil => cases queue <;> simp [Queue.name] at hname
    | cons c core =>
      obtain ⟨rfl, -⟩ := List.cons.inj hsplit
      cases queue <;> simp [Queue.name] at hname

/-- A switch makes an entry useless for planting. -/
theorem unmarked_of_isSpelledBy (h : seed.IsSpelledBy entry) : Unmarked entry := by
  intro hmark
  obtain ⟨rest, rfl⟩ := List.head?_eq_some_iff.mp hmark
  rcases h with ⟨name, count, core, hsplit, -, hqueue, -⟩ | ⟨-, hqueue, -⟩
  · cases name with
    | nil => simp at hsplit
    | cons c name =>
      obtain ⟨rfl, -⟩ := List.cons.inj hsplit
      exact not_isNamedBy_of_mark seed.queue name hqueue
  · exact not_isNamedBy_of_mark seed.queue rest hqueue

/-- The two readings of an entry without a switch differ in zero only. -/
theorem hosted_iff (hmark : Unmarked entry) (h : HostedQueue) : h.IsSpelledBy entry ↔
    IsSpelledBy ⟨h.queue, h.workers⟩ entry ∧ h.enabled = true ∧ 1 ≤ h.workers := by
  constructor
  · rintro ⟨⟨p, hp, henabled, hqueue, hasks⟩, hpositive⟩
    have hon : p.enabled = true := by
      cases hoff : p.enabled with
      | true => rfl
      | false =>
        apply absurd _ hmark
        rw [← hp.made, HostedQueue.Parts.text, hoff]
        rfl
    refine ⟨?_, henabled ▸ hon, hpositive⟩
    have hentry : p.rest = entry := by
      rw [← hp.made, HostedQueue.Parts.text, hon]
      rfl
    obtain ⟨enabled, name, count⟩ := p
    cases count with
    | none =>
      obtain rfl : name = entry := by simpa [HostedQueue.Parts.rest] using hentry
      exact .inr ⟨hp.named, hqueue, hasks⟩
    | some count =>
      obtain ⟨core, htrims, hcount⟩ := hasks
      exact .inl ⟨name, count, core, hentry.symm, hp.named, hqueue, htrims, hcount⟩
  · rintro ⟨⟨name, count, core, rfl, hname, hqueue, htrims, hcount⟩ | ⟨hname, hqueue, hcount⟩,
      henabled, hpositive⟩
    · exact ⟨⟨⟨true, name, some count⟩, ⟨rfl, fun _ => hmark, hname⟩, henabled.symm, hqueue,
        core, htrims, hcount⟩, hpositive⟩
    · refine ⟨⟨⟨true, entry, none⟩, ⟨?_, fun _ => hmark, hname⟩, henabled.symm, hqueue, hcount⟩,
        hpositive⟩
      exact List.append_nil entry

/-! ## Planted jobs -/

/-- A job that was planted. -/
def planted (now : Instant) (id : Int) (queue : Queue) : Entry where
  job :=
    { id := id
      queue := queue
      group := none
      version := 0
      status := .created
      priority := 0
      definition := some "\x7b\x7d"
      result := none
      worker := none
      created := now
      started := none
      ended := none
      beat := now
      cancelRequested := false }
  retries := 0

/-- The store with jobs planted, one for each queue, under the numbers that follow the last one. -/
def sown (now : Instant) (s : Store) (queues : List Queue) : Store :=
  { s with
    entries := s.entries ++ queues.mapIdx fun i queue => planted now (s.lastId + 1 + i) queue
    lastId := s.lastId + queues.length }

/-- The queues of the jobs that seeds ask for. -/
def orders (seeds : List Seed) : List Queue := seeds.flatMap fun s => List.replicate s.count s.queue

theorem sown_nil (now : Instant) (s : Store) : sown now s [] = s := by simp [sown]

theorem sown_append (now : Instant) (s : Store) (first second : List Queue) :
    sown now s (first ++ second) = sown now (sown now s first) second := by
  have hlast : s.lastId + (first ++ second).length = s.lastId + first.length + second.length := by
    rw [List.length_append]
    omega
  have hnumber : ∀ i : Nat, s.lastId + 1 + ((i + first.length : Nat) : Int) =
      s.lastId + first.length + 1 + i := by
    intro i
    omega
  simp only [sown, List.mapIdx_append, List.append_assoc, hlast, hnumber]

theorem enqueue_eq_sown (now : Instant) (s : Store) (queue : Queue) :
    (s.enqueue queue definition none now).2 = sown now s [queue] := by
  simp [Store.enqueue, sown, planted, Job.new, definition]

theorem plantMany_eq_sown (queue : Queue) (now : Instant) (n : Nat) (s : Store) :
    plantMany queue now n s = sown now s (List.replicate n queue) := by
  induction n generalizing s with
  | zero => exact (sown_nil now s).symm
  | succ n ih =>
    rw [plantMany, ih, enqueue_eq_sown, ← sown_append]
    rfl

/-- How many jobs seeds ask for. -/
def total (seeds : List Seed) : Nat := (seeds.map (·.count)).sum

theorem orders_cons (seed : Seed) (seeds : List Seed) :
    orders (seed :: seeds) = List.replicate seed.count seed.queue ++ orders seeds :=
  List.flatMap_cons

theorem plantEach_cons (h : ofEntry entry = .ok seed) (now : Instant) (rest : List (List Char))
    (s : Store) : plantEach now (entry :: rest) s =
      ((plantEach now rest (sown now s (List.replicate seed.count seed.queue))).1.map
          (seed.count + ·),
        (plantEach now rest (sown now s (List.replicate seed.count seed.queue))).2) := by
  rw [plantEach, h, ← plantMany_eq_sown]

/-- Entries that spell seeds are planted one after another, and then what follows them is. -/
theorem plantEach_append {before : List (List Char)} (h : List.Forall₂ IsSpelledBy seeds before)
    (now : Instant) (after : List (List Char)) (s : Store) : plantEach now (before ++ after) s =
      ((plantEach now after (sown now s (orders seeds))).1.map (total seeds + ·),
        (plantEach now after (sown now s (orders seeds))).2) := by
  induction h generalizing s with
  | nil =>
    have hmap : ∀ r : Except SeedFault Nat, r.map (total [] + ·) = r := by
      intro r
      cases r <;> simp [total, Except.map]
    rw [hmap, orders, List.flatMap_nil, sown_nil]
    rfl
  | @cons seed entry seeds before hseed _ ih =>
    have hmap : ∀ r : Except SeedFault Nat, (r.map (total seeds + ·)).map (seed.count + ·) =
        r.map (total (seed :: seeds) + ·) := by
      intro r
      cases r <;> simp [total, Except.map, Nat.add_assoc]
    rw [List.cons_append, plantEach_cons (ofEntry_eq_ok_iff.mpr hseed), ih, hmap, ← sown_append,
      ← orders_cons]

theorem plantEach_of_spelled {found : List (List Char)} (h : List.Forall₂ IsSpelledBy seeds found)
    (now : Instant) (s : Store) :
    plantEach now found s = (.ok (total seeds), sown now s (orders seeds)) := by
  have happend := plantEach_append h now [] s
  rw [List.append_nil] at happend
  rw [happend]
  rfl

theorem plantEach_of_fault {before : List (List Char)} (after : List (List Char))
    (h : List.Forall₂ IsSpelledBy seeds before) (hfault : ofEntry entry = .error fault)
    (now : Instant) (s : Store) : plantEach now (before ++ entry :: after) s =
      (.error fault, sown now s (orders seeds)) := by
  rw [plantEach_append h, plantEach, hfault]
  rfl

/-- Every list either spells seeds or has a first entry that does not. -/
theorem spelled_or_fault (found : List (List Char)) :
    (∃ seeds, List.Forall₂ IsSpelledBy seeds found) ∨
      ∃ before entry after seeds fault, found = before ++ entry :: after ∧
        List.Forall₂ IsSpelledBy seeds before ∧ ofEntry entry = .error fault := by
  cases hread : found.mapM ofEntry with
  | ok seeds =>
    simp only [Readings.mapM_eq_ok_iff, ofEntry_eq_ok_iff] at hread
    exact .inl ⟨seeds, hread⟩
  | error fault =>
    obtain ⟨before, entry, after, rfl, hbefore, hfault⟩ := Readings.mapM_eq_error_iff.mp hread
    simp only [ofEntry_eq_ok_iff, ← Readings.exists_forall₂_iff] at hbefore
    obtain ⟨seeds, hseeds⟩ := hbefore
    exact .inr ⟨before, entry, after, seeds, fault, rfl, hseeds, hfault⟩

/-! ## Lists -/

/-- What planting a list comes to, and what it has to do with hosting the same list. -/
structure AgreesWithHosting (list : List Char) (now : Instant) (s : Store) : Prop where
  /-- One job for each loop of each entry, in the order of the list. -/
  agrees : (∀ entry ∈ entries list, Unmarked entry) → ∀ hosted, parseList list = .ok hosted →
    plant list now s = (.ok (hosted.map (·.workers)).sum,
      sown now s (hosted.flatMap fun h => List.replicate h.workers h.queue))
  /-- What is planted in spite of an error asks for nothing where the error is. -/
  tolerates : (∀ entry ∈ entries list, Unmarked entry) →
    ∀ fault, parseList list = .error fault →
      ((∃ n, (plant list now s).1 = .ok n) ↔
        ∀ entry ∈ entries list, (∀ h : HostedQueue, ¬ h.IsSpelledBy entry) →
          ∃ queue, IsSpelledBy ⟨queue, 0⟩ entry)
  succeeds : (∃ n, (plant list now s).1 = .ok n) ↔
    ∀ entry ∈ entries list, ∃ seed : Seed, seed.IsSpelledBy entry
  /-- The entries before the first bad one stay planted. -/
  stops : ∀ fault, (plant list now s).1 = .error fault →
    ∃ before entry after seeds, entries list = before ++ entry :: after ∧
      List.Forall₂ IsSpelledBy seeds before ∧ (∀ seed : Seed, ¬ seed.IsSpelledBy entry) ∧
      ofEntry entry = .error fault ∧ (plant list now s).2 = sown now s (orders seeds)
  marked : ∀ entry, ¬ Unmarked entry → ∀ seed : Seed, ¬ seed.IsSpelledBy entry
  kept : ∀ queues id e, s.entry? id = some e → Store.entry? (sown now s queues) id = some e
  fresh : s.Sound → ∀ id, s.lastId < id → s.entry? id = none

theorem not_isSpelledBy_of_fault (h : ofEntry entry = .error fault) :
    ∀ seed : Seed, ¬ seed.IsSpelledBy entry := by
  intro seed hspelled
  cases h.symm.trans (ofEntry_eq_ok_iff.mpr hspelled)

theorem plant_succeeds_iff : (∃ n, (plant list now s).1 = .ok n) ↔
    ∀ entry ∈ entries list, ∃ seed : Seed, seed.IsSpelledBy entry := by
  rcases spelled_or_fault (entries list) with
    ⟨seeds, hseeds⟩ | ⟨before, entry, after, seeds, fault, hsplit, hseeds, hfault⟩
  · have hall := Readings.exists_forall₂_iff.mp ⟨seeds, hseeds⟩
    simp only [plant, plantEach_of_spelled hseeds, Except.ok.injEq, exists_eq', true_iff]
    exact hall
  · rw [plant, hsplit, plantEach_of_fault after hseeds hfault]
    constructor
    · rintro ⟨n, h⟩
      cases h
    · intro hall
      obtain ⟨seed, hspelled⟩ := hall entry (by simp)
      exact absurd hspelled (not_isSpelledBy_of_fault hfault seed)

/-- Where nothing is switched off, the entries that name queues to host spell seeds. -/
theorem isSpelledBy_of_hosted {hosted : List HostedQueue} {found : List (List Char)}
    (h : List.Forall₂ HostedQueue.IsSpelledBy hosted found)
    (hmark : ∀ entry ∈ found, Unmarked entry) :
    List.Forall₂ IsSpelledBy (hosted.map fun h => ⟨h.queue, h.workers⟩) found := by
  rw [List.forall₂_map_left_iff]
  induction h with
  | nil => exact .nil
  | cons hfirst _ ih =>
    obtain ⟨hmarked, hrest⟩ := List.forall_mem_cons.mp hmark
    exact .cons ((hosted_iff hmarked _).mp hfirst).1 (ih hrest)

/-- Planting agrees with hosting wherever both read a list. -/
theorem plant_agreesWithHosting (list : List Char) (now : Instant) (s : Store) :
    AgreesWithHosting list now s := by
  constructor
  case agrees =>
    intro hmark hosted hread
    have hseeds := isSpelledBy_of_hosted (HostedQueue.parseList_eq_ok_iff.mp hread) hmark
    rw [plant, plantEach_of_spelled hseeds]
    simp only [total, orders, List.map_map, List.flatMap_map]
    rfl
  case tolerates =>
    intro hmark fault hread
    rw [plant_succeeds_iff]
    apply forall₂_congr
    intro entry hentry
    constructor
    · rintro ⟨⟨queue, count⟩, hspelled⟩ hnone
      cases count with
      | zero => exact ⟨queue, hspelled⟩
      | succ n =>
        apply absurd _ (hnone ⟨queue, true, n + 1⟩)
        exact (hosted_iff (hmark entry hentry) _).mpr ⟨hspelled, rfl, Nat.succ_pos n⟩
    · intro h
      by_cases hsome : ∃ h : HostedQueue, h.IsSpelledBy entry
      · obtain ⟨h, hspelled⟩ := hsome
        exact ⟨_, ((hosted_iff (hmark entry hentry) h).mp hspelled).1⟩
      · obtain ⟨queue, hspelled⟩ := h (not_exists.mp hsome)
        exact ⟨_, hspelled⟩
  case succeeds => exact plant_succeeds_iff
  case stops =>
    intro fault hplant
    rcases spelled_or_fault (entries list) with
      ⟨seeds, hseeds⟩ | ⟨before, entry, after, seeds, fault', hsplit, hseeds, hfault⟩
    · rw [plant, plantEach_of_spelled hseeds] at hplant
      cases hplant
    · have heach := plantEach_of_fault after hseeds hfault now s
      rw [← hsplit, ← plant] at heach
      rw [heach] at hplant
      cases hplant
      exact ⟨before, entry, after, seeds, hsplit, hseeds, not_isSpelledBy_of_fault hfault, hfault,
        congrArg Prod.snd heach⟩
  case marked =>
    intro entry hmark seed hspelled
    exact hmark (unmarked_of_isSpelledBy hspelled)
  case kept =>
    intro queues id e he
    rw [Store.entry?, sown, List.find?_append, ← Store.entry?, he]
    rfl
  case fresh =>
    intro hsound id hid
    rw [Store.entry?, List.find?_eq_none]
    intro e he
    have hle := hsound.bounded e.job.id (List.mem_map_of_mem he)
    simp only [decide_eq_true_eq]
    omega

end LeasedWork.Seed
