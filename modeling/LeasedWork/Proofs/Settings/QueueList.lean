import LeasedWork.Proofs.Settings.Spelling
import Mathlib.Data.List.Forall2

/-!
# The grammar of queue lists

A list consists of entries between commas. An entry is an exclamation mark or none, the name of a
queue, and a colon with a count or nothing. A list is read just if every entry of it is of this
form, and then it says what the entries say, in their order; otherwise the first entry that is not
decides the error. The count of an entry is looked at before its name.
-/
namespace LeasedWork

/-! ## Reading one after another -/

namespace Readings

variable {α β ε : Type} {read : α → Except ε β} {x : α} {xs : List α} {y : β} {e : ε}

theorem mapM_cons_of_error (h : read x = .error e) : (x :: xs).mapM read = .error e := by
  rw [List.mapM_cons, h]
  rfl

theorem mapM_cons_of_ok (h : read x = .ok y) :
    (x :: xs).mapM read = (xs.mapM read).map (y :: ·) := by
  rw [List.mapM_cons, h]
  cases xs.mapM read <;> rfl

/-- All are read just if each of them is. -/
theorem mapM_eq_ok_iff {ys : List β} :
    xs.mapM read = .ok ys ↔ List.Forall₂ (fun y x => read x = .ok y) ys xs := by
  induction xs generalizing ys with
  | nil =>
    rw [List.forall₂_nil_right_iff]
    exact ⟨fun h => (Except.ok.inj h).symm, fun h => congrArg Except.ok h.symm⟩
  | cons x xs ih =>
    rw [List.forall₂_cons_right_iff]
    cases hx : read x with
    | error e => simp [mapM_cons_of_error hx]
    | ok y =>
      rw [mapM_cons_of_ok hx]
      constructor
      · intro h
        cases hrest : xs.mapM read with
        | error e => rw [hrest] at h; cases h
        | ok rest =>
          rw [hrest] at h
          exact ⟨y, rest, rfl, ih.mp hrest, (Except.ok.inj h).symm⟩
      · rintro ⟨z, rest, hz, hrest, rfl⟩
        rw [ih.mpr hrest, Except.ok.inj hz]
        rfl

/-- Reading fails with the first of them that is not read. -/
theorem mapM_eq_error_iff : xs.mapM read = .error e ↔
    ∃ before x after, xs = before ++ x :: after ∧ (∀ b ∈ before, ∃ y, read b = .ok y) ∧
      read x = .error e := by
  induction xs with
  | nil => simp [pure, Except.pure]
  | cons x xs ih =>
    cases hx : read x with
    | error e' =>
      rw [mapM_cons_of_error hx]
      constructor
      · intro h
        cases h
        exact ⟨[], x, xs, rfl, by simp, hx⟩
      · rintro ⟨before, x', after, hsplit, hbefore, hx'⟩
        cases before with
        | nil =>
          obtain ⟨rfl, rfl⟩ := List.cons.inj hsplit
          cases hx.symm.trans hx'
          rfl
        | cons b before =>
          obtain ⟨rfl, rfl⟩ := List.cons.inj hsplit
          obtain ⟨y, hy⟩ := hbefore x List.mem_cons_self
          cases hx.symm.trans hy
    | ok y =>
      rw [mapM_cons_of_ok hx]
      constructor
      · intro h
        cases hrest : xs.mapM read with
        | ok rest => rw [hrest] at h; cases h
        | error e' =>
          rw [hrest] at h
          obtain ⟨before, x', after, rfl, hbefore, hx'⟩ := ih.mp (hrest.trans h)
          exact ⟨x :: before, x', after, rfl, List.forall_mem_cons.mpr ⟨⟨y, hx⟩, hbefore⟩, hx'⟩
      · rintro ⟨before, x', after, hsplit, hbefore, hx'⟩
        cases before with
        | nil =>
          obtain ⟨rfl, rfl⟩ := List.cons.inj hsplit
          cases hx.symm.trans hx'
        | cons b before =>
          obtain ⟨rfl, rfl⟩ := List.cons.inj hsplit
          have hrest := List.forall_mem_cons.mp hbefore
          rw [ih.mpr ⟨before, x', after, rfl, hrest.2, hx'⟩]
          rfl

theorem exists_forall₂_iff {related : β → α → Prop} :
    (∃ ys, List.Forall₂ related ys xs) ↔ ∀ x ∈ xs, ∃ y, related y x := by
  induction xs with
  | nil => exact ⟨fun _ _ hx => absurd hx List.not_mem_nil, fun _ => ⟨[], .nil⟩⟩
  | cons x xs ih =>
    rw [List.forall_mem_cons, ← ih]
    constructor
    · rintro ⟨_, _ | ⟨hfirst, hrest⟩⟩
      exact ⟨⟨_, hfirst⟩, ⟨_, hrest⟩⟩
    · rintro ⟨⟨y, hfirst⟩, ⟨ys, hrest⟩⟩
      exact ⟨y :: ys, .cons hfirst hrest⟩

end Readings

namespace HostedQueue

variable {list entry : List Char} {found : List (List Char)} {n : Nat} {h : HostedQueue}
variable {fault : EntryFault}

/-! ## The entries of a list -/

/-- Whether a list consists of entries: they are what its pieces between commas are without the
blanks around them, as far as anything is left. -/
def Lists (list : List Char) (found : List (List Char)) : Prop :=
  ∃ pieces trimmed, Text.CutsInto ',' list pieces ∧ List.Forall₂ Text.Trims pieces trimmed ∧
    found = trimmed.filter (· ≠ [])

theorem forall₂_trims_iff {pieces trimmed : List (List Char)} :
    List.Forall₂ Text.Trims pieces trimmed ↔ pieces.map Text.trim = trimmed := by
  induction pieces generalizing trimmed with
  | nil => cases trimmed <;> simp
  | cons piece rest ih => cases trimmed <;> simp [← Text.trim_eq_iff, ih]

theorem lists_iff : Lists list found ↔ entries list = found := by
  constructor
  · rintro ⟨pieces, trimmed, hcut, htrims, rfl⟩
    rw [entries, Text.pieces_eq_iff.mpr hcut, forall₂_trims_iff.mp htrims]
  · intro h
    refine ⟨Text.pieces ',' list, (Text.pieces ',' list).map Text.trim, ?_, ?_, h.symm⟩
    · exact Text.pieces_eq_iff.mp rfl
    · exact forall₂_trims_iff.mpr rfl

/-! ## The parts of an entry -/

/-- An entry taken apart. -/
structure Parts where
  enabled : Bool
  name : List Char
  /-- What follows the colon, if there is one. -/
  count : Option (List Char)

namespace Parts

variable {p : Parts}

/-- What an entry with these parts says besides the switch. -/
def rest (p : Parts) : List Char := p.name ++ p.count.elim [] (':' :: ·)

/-- What the parts make together. -/
def text (p : Parts) : List Char := (if p.enabled then [] else ['!']) ++ p.rest

/-- Whether an entry has these parts: an exclamation mark in front belongs to the switch, and the
name ends at the first colon. -/
structure IsOf (p : Parts) (entry : List Char) : Prop where
  made : p.text = entry
  marked : p.enabled = true → entry.head? ≠ some '!'
  named : ':' ∉ p.name

/-- Whether the parts ask for a number of loops; where nothing is said it is one. -/
def Asks (p : Parts) (n : Nat) : Prop :=
  match p.count with
  | none => n = 1
  | some count => ∃ core, Text.Trims count core ∧ Number.IsCount core n

theorem splitSwitch_eq_iff {enabled : Bool} {rest : List Char} :
    splitSwitch entry = (enabled, rest) ↔
      (if enabled then [] else ['!']) ++ rest = entry ∧
        (enabled = true → entry.head? ≠ some '!') := by
  by_cases hmark : entry.head? = some '!'
  · obtain ⟨tail, rfl⟩ := List.head?_eq_some_iff.mp hmark
    cases enabled <;> simp [splitSwitch, eq_comm]
  · have hswitch : splitSwitch entry = (true, entry) := by
      unfold splitSwitch
      split
      · exact absurd rfl hmark
      · rfl
    rw [hswitch]
    cases enabled with
    | true => simp [hmark, eq_comm]
    | false =>
      simp only [Prod.mk.injEq, Bool.true_eq_false, false_and, false_iff]
      rintro ⟨rfl, -⟩
      exact hmark rfl

theorem cut?_rest (h : ':' ∉ p.name) : Text.cut? ':' p.rest = p.count.map (p.name, ·) := by
  rw [rest]
  cases p.count with
  | none => simpa [Text.cut?_eq_none_iff] using h
  | some count => exact Text.cut?_eq_some_iff.mpr ⟨rfl, h⟩

theorem exists_isOf (entry : List Char) : ∃ p : Parts, p.IsOf entry := by
  obtain ⟨hmade, hmarked⟩ := splitSwitch_eq_iff.mp (Prod.eta (splitSwitch entry)).symm
  cases hcut : Text.cut? ':' (splitSwitch entry).2 with
  | none =>
    refine ⟨⟨(splitSwitch entry).1, (splitSwitch entry).2, none⟩, ?_, hmarked, ?_⟩
    · simpa [text, rest] using hmade
    · exact Text.cut?_eq_none_iff.mp hcut
  | some cut =>
    obtain ⟨hrest, hnamed⟩ := Text.cut?_eq_some_iff.mp hcut
    refine ⟨⟨(splitSwitch entry).1, cut.1, some cut.2⟩, ?_, hmarked, hnamed⟩
    rw [hrest] at hmade
    exact hmade

/-- The number of loops that the parts are read to ask for. -/
def workers? (p : Parts) : Option Nat :=
  p.count.elim (some defaultWorkers) fun count => Number.count? (Text.trim count)

theorem asks_iff : p.Asks n ↔ p.workers? = some n := by
  unfold Asks workers?
  cases p.count with
  | none => simp [defaultWorkers, eq_comm]
  | some count =>
    simp only [Option.elim_some, Number.count?_eq_some_iff]
    constructor
    · rintro ⟨core, htrims, hcount⟩
      rwa [htrims.trim_eq]
    · intro hcount
      exact ⟨Text.trim count, Text.trims_trim count, hcount⟩

end Parts

/-! ## Entries -/

/-- Whether an entry spells a queue that is to be hosted. -/
structure IsSpelledBy (h : HostedQueue) (entry : List Char) : Prop where
  spelled : ∃ p : Parts, p.IsOf entry ∧ p.enabled = h.enabled ∧ h.queue.IsNamedBy p.name ∧
    p.Asks h.workers
  positive : 1 ≤ h.workers

/-- What is wrong with an entry. -/
inductive HasFault (entry : List Char) : EntryFault → Prop
  | badCount {p : Parts} (parts : p.IsOf entry) (count : ∀ n, ¬ p.Asks n) :
    HasFault entry (.badCount entry)
  | zeroCount {p : Parts} (parts : p.IsOf entry) (count : p.Asks 0) :
    HasFault entry (.zeroCount entry)
  | unknownQueue {p : Parts} {n : Nat} (parts : p.IsOf entry) (count : p.Asks (n + 1))
    (name : ∀ q : Queue, ¬ q.IsNamedBy p.name) : HasFault entry (.unknownQueue entry)

theorem splitWorkers_rest {p : Parts} (h : ':' ∉ p.name) : splitWorkers entry p.rest =
    match p.workers? with
    | none => .error (.badCount entry)
    | some 0 => .error (.zeroCount entry)
    | some (n + 1) => .ok (p.name, n + 1) := by
  rw [splitWorkers, Parts.cut?_rest h]
  obtain ⟨enabled, name, count⟩ := p
  cases count with
  | none => simp [Parts.rest, Parts.workers?, defaultWorkers]
  | some count =>
    simp only [Option.map_some, Parts.workers?, Option.elim_some]
    rcases Number.count? (Text.trim count) with _ | _ | n <;> rfl

/-- What an entry with given parts is read as. -/
theorem ofEntry_of_isOf {p : Parts} (hp : p.IsOf entry) : ofEntry entry =
    match p.workers? with
    | none => .error (.badCount entry)
    | some 0 => .error (.zeroCount entry)
    | some (n + 1) =>
      match Queue.parse? p.name with
      | none => .error (.unknownQueue entry)
      | some queue => .ok ⟨queue, p.enabled, n + 1⟩ := by
  simp only [ofEntry, Parts.splitSwitch_eq_iff.mpr ⟨hp.made, hp.marked⟩,
    splitWorkers_rest hp.named]
  rcases p.workers? with _ | _ | n <;> rfl

theorem not_isNamedBy_iff {text : List Char} :
    (∀ q : Queue, ¬ q.IsNamedBy text) ↔ Queue.parse? text = none := by
  simp only [Option.eq_none_iff_forall_ne_some, ← Queue.parse?_eq_some_iff, ne_eq]

theorem ofEntry_eq_ok_iff : ofEntry entry = .ok h ↔ h.IsSpelledBy entry := by
  constructor
  · intro hread
    obtain ⟨p, hp⟩ := Parts.exists_isOf entry
    rw [ofEntry_of_isOf hp] at hread
    split at hread
    · cases hread
    · cases hread
    · rename_i n hcount
      split at hread
      · cases hread
      · rename_i queue hname
        cases hread
        exact ⟨⟨p, hp, rfl, Queue.parse?_eq_some_iff.mp hname, Parts.asks_iff.mpr hcount⟩,
          Nat.succ_pos n⟩
  · rintro ⟨⟨p, hp, henabled, hname, hcount⟩, hpositive⟩
    obtain ⟨queue, enabled, workers⟩ := h
    obtain ⟨n, rfl⟩ := Nat.exists_eq_add_of_lt hpositive
    simp only [Nat.zero_add] at hcount ⊢
    rw [ofEntry_of_isOf hp, Parts.asks_iff.mp hcount, Queue.parse?_eq_some_iff.mpr hname]
    exact congrArg (fun b => Except.ok (HostedQueue.mk queue b (n + 1))) henabled

theorem ofEntry_eq_error_iff : ofEntry entry = .error fault ↔ HasFault entry fault := by
  constructor
  · intro hread
    obtain ⟨p, hp⟩ := Parts.exists_isOf entry
    rw [ofEntry_of_isOf hp] at hread
    split at hread
    · rename_i hcount
      cases hread
      apply HasFault.badCount hp
      intro n hn
      cases hcount.symm.trans (Parts.asks_iff.mp hn)
    · rename_i hcount
      cases hread
      exact .zeroCount hp (Parts.asks_iff.mpr hcount)
    · rename_i n hcount
      split at hread
      · rename_i hname
        cases hread
        exact .unknownQueue hp (Parts.asks_iff.mpr hcount) (not_isNamedBy_iff.mpr hname)
      · cases hread
  · intro hfault
    cases hfault with
    | badCount hp hcount =>
      have hnone : Parts.workers? _ = none :=
        Option.eq_none_iff_forall_ne_some.mpr fun n hn => hcount n (Parts.asks_iff.mpr hn)
      rw [ofEntry_of_isOf hp, hnone]
    | zeroCount hp hcount => rw [ofEntry_of_isOf hp, Parts.asks_iff.mp hcount]
    | unknownQueue hp hcount hname =>
      rw [ofEntry_of_isOf hp, Parts.asks_iff.mp hcount, not_isNamedBy_iff.mp hname]

/-! ## Lists -/

/-- What a list of hosted queues is read as. -/
structure FollowsGrammar (list : List Char) : Prop where
  /-- There is one way to cut the list into entries. -/
  cut : ∀ found, Lists list found ↔ entries list = found
  succeeds : (∃ hosted, parseList list = .ok hosted) ↔
    ∀ entry ∈ entries list, ∃ h : HostedQueue, h.IsSpelledBy entry
  accepts : ∀ hosted, parseList list = .ok hosted ↔
    List.Forall₂ IsSpelledBy hosted (entries list)
  /-- The first entry that spells nothing decides the error. -/
  refuses : ∀ fault, parseList list = .error fault ↔
    ∃ before entry after, entries list = before ++ entry :: after ∧
      (∀ e ∈ before, ∃ h : HostedQueue, h.IsSpelledBy e) ∧ HasFault entry fault
  faulty : ∀ entry, (∃ fault, HasFault entry fault) ↔ ∀ h : HostedQueue, ¬ h.IsSpelledBy entry
  /-- Every error is one of the configuration and quotes the entry. -/
  answer : ∀ entry fault, HasFault entry fault →
    ∃ reason, fault.toError = .config (reason ++ "entry '" ++ String.ofList entry ++ "'")

theorem read_or_faulty (entry : List Char) :
    (∃ h : HostedQueue, h.IsSpelledBy entry) ∨ ∃ fault, HasFault entry fault := by
  cases hread : ofEntry entry with
  | ok h => exact .inl ⟨h, ofEntry_eq_ok_iff.mp hread⟩
  | error fault => exact .inr ⟨fault, ofEntry_eq_error_iff.mp hread⟩

theorem IsSpelledBy.not_hasFault (h : h.IsSpelledBy entry) : ¬ HasFault entry fault := by
  intro hfault
  cases (ofEntry_eq_ok_iff.mpr h).symm.trans (ofEntry_eq_error_iff.mpr hfault)

theorem HasFault.quotes (h : HasFault entry fault) :
    ∃ reason, fault.toError = .config (reason ++ "entry '" ++ String.ofList entry ++ "'") := by
  cases h with
  | badCount _ _ => exact ⟨"invalid worker count in queue ", rfl⟩
  | zeroCount _ _ => exact ⟨"worker count must be at least 1 in queue ", rfl⟩
  | unknownQueue _ _ _ => exact ⟨"unknown queue in ", rfl⟩

theorem parseList_eq_ok_iff {hosted : List HostedQueue} : parseList list = .ok hosted ↔
    List.Forall₂ IsSpelledBy hosted (entries list) := by
  simp only [parseList, Readings.mapM_eq_ok_iff, ofEntry_eq_ok_iff]

theorem parseList_eq_error_iff : parseList list = .error fault ↔
    ∃ before entry after, entries list = before ++ entry :: after ∧
      (∀ e ∈ before, ∃ h : HostedQueue, h.IsSpelledBy e) ∧ HasFault entry fault := by
  simp only [parseList, Readings.mapM_eq_error_iff, ofEntry_eq_ok_iff, ofEntry_eq_error_iff]

/-- Every list is read by the grammar, and no list gives another error or a part of what it says. -/
theorem parseList_follows_grammar (list : List Char) : FollowsGrammar list := by
  constructor
  case cut =>
    intro found
    exact lists_iff
  case accepts =>
    intro hosted
    exact parseList_eq_ok_iff
  case refuses =>
    intro fault
    exact parseList_eq_error_iff
  case succeeds => simp only [parseList_eq_ok_iff, Readings.exists_forall₂_iff]
  case faulty =>
    intro entry
    constructor
    · rintro ⟨fault, hfault⟩ h hspelled
      exact hspelled.not_hasFault hfault
    · intro hnone
      rcases read_or_faulty entry with ⟨h, hspelled⟩ | hfault
      · exact absurd hspelled (hnone h)
      · exact hfault
  case answer =>
    intro entry fault hfault
    exact hfault.quotes

example : parseList " Bulk-Delete: +02,,! export".toList =
    .ok [⟨.bulkDelete, true, 2⟩, ⟨.exports, false, 1⟩] := by decide

end HostedQueue

end LeasedWork
