import LeasedWork.Settings.HostedQueue
import Mathlib.Algebra.GroupWithZero.Nat
import Mathlib.Data.List.DropRight

/-!
# How settings are spelled

Lists in settings are cut into pieces, the pieces are trimmed, and what is left is a name or a
count. Each of these is said here once more, without regard to how a text is read: pieces put
together around the separators make the text, a trimmed text stands in it between blanks, and a
count is a run of digits with a value. The readers find just what these relations admit.
-/
namespace LeasedWork

namespace Text

variable {text core before after : List Char} {separator : Char} {pieces : List (List Char)}

/-! ## Trimmed texts -/

/-- Whether a text is left of another one when the blanks around it are taken away. -/
structure Trims (text core : List Char) : Prop where
  surrounded : ∃ before after, text = before ++ core ++ after ∧
    (∀ c ∈ before, isBlank c = true) ∧ ∀ c ∈ after, isBlank c = true
  first : ∀ c ∈ core.head?, isBlank c = false
  last : ∀ c ∈ core.getLast?, isBlank c = false

theorem trimEnd_append (text : List Char) :
    trimEnd text ++ (text.reverse.takeWhile isBlank).reverse = text := by
  rw [trimEnd, ← List.reverse_append, trimStart, List.takeWhile_append_dropWhile,
    List.reverse_reverse]

theorem isBlank_head?_trimStart (text : List Char) :
    ∀ c ∈ (trimStart text).head?, isBlank c = false := by
  intro c hc
  have hhead := List.head?_dropWhile_not isBlank text
  rw [← trimStart, Option.mem_def.mp hc] at hhead
  exact hhead

theorem trims_trim (text : List Char) : Trims text (trim text) := by
  have hstart : text.takeWhile isBlank ++ trimStart text = text := List.takeWhile_append_dropWhile
  have hend := trimEnd_append (trimStart text)
  constructor
  case surrounded =>
    refine ⟨text.takeWhile isBlank, ((trimStart text).reverse.takeWhile isBlank).reverse,
      ?_, ?_, ?_⟩
    · rw [List.append_assoc, trim, hend, hstart]
    · intro c hc
      exact List.mem_takeWhile_imp hc
    · intro c hc
      exact List.mem_takeWhile_imp (List.mem_reverse.mp hc)
  case first =>
    intro c hc
    apply isBlank_head?_trimStart text c
    rw [← hend, List.head?_append, ← trim, Option.mem_def.mp hc]
    rfl
  case last =>
    intro c hc
    apply isBlank_head?_trimStart (trimStart text).reverse c
    rwa [trim, trimEnd, List.getLast?_reverse] at hc

theorem trimStart_append (h : ∀ c ∈ before, isBlank c = true) (rest : List Char) :
    trimStart (before ++ rest) = trimStart rest := List.dropWhile_append_of_pos h

theorem trimStart_of_head? (h : ∀ c ∈ text.head?, isBlank c = false) : trimStart text = text := by
  cases text with
  | nil => rfl
  | cons c rest => simp [trimStart, h c rfl]

theorem Trims.trim_eq (h : Trims text core) : trim text = core := by
  obtain ⟨⟨before, after, rfl, hbefore, hafter⟩, hfirst, hlast⟩ := h
  have hafter' : ∀ c ∈ after.reverse, isBlank c = true := fun c hc =>
    hafter c (List.mem_reverse.mp hc)
  rw [trim, List.append_assoc, trimStart_append hbefore]
  by_cases hcore : core = []
  · have hnone : trimStart after = [] := List.dropWhile_eq_nil_iff.mpr hafter
    rw [hcore, List.nil_append, hnone]
    rfl
  · have hhead : ∀ c ∈ (core ++ after).head?, isBlank c = false := by
      intro c hc
      apply hfirst c
      rwa [List.head?_append_of_ne_nil core hcore] at hc
    rw [trimStart_of_head? hhead, trimEnd, List.reverse_append, trimStart_append hafter',
      trimStart_of_head? (by rwa [List.head?_reverse]), List.reverse_reverse]

/-- Trimming a text gives what stands in it between blanks, and nothing else does. -/
theorem trim_eq_iff : trim text = core ↔ Trims text core :=
  ⟨fun h => h ▸ trims_trim text, Trims.trim_eq⟩

/-! ## Texts in pieces -/

/-- Whether a text is made of pieces with a separator between any two of them and in none. -/
structure CutsInto (separator : Char) (text : List Char) (pieces : List (List Char)) : Prop where
  nonempty : pieces ≠ []
  pure : ∀ piece ∈ pieces, separator ∉ piece
  joined : [separator].intercalate pieces = text

theorem pieces_eq_splitOn (separator : Char) (text : List Char) :
    Text.pieces separator text = text.splitOn separator := by
  induction text with
  | nil => rfl
  | cons c rest ih =>
    rw [List.splitOn, List.splitOnP_cons_eq_if_modifyHead, ← List.splitOn, ← ih, Text.pieces]
    by_cases hc : c = separator
    · simp [hc]
    · cases hpieces : Text.pieces separator rest with
      | nil => exact absurd hpieces (pieces_ne_nil separator rest)
      | cons first others => simp [hc]

theorem separator_not_mem_of_mem_pieces (separator : Char) (text : List Char) :
    ∀ piece ∈ Text.pieces separator text, separator ∉ piece := by
  induction text with
  | nil => simp [Text.pieces]
  | cons c rest ih =>
    intro piece hpiece hmem
    rw [Text.pieces] at hpiece
    by_cases hc : c = separator
    · rw [if_pos hc] at hpiece
      rcases List.mem_cons.mp hpiece with rfl | hrest
      · exact absurd hmem List.not_mem_nil
      · exact ih piece hrest hmem
    · rw [if_neg hc] at hpiece
      cases hpieces : Text.pieces separator rest with
      | nil => exact pieces_ne_nil separator rest hpieces
      | cons first others =>
        rw [hpieces] at hpiece ih
        rcases List.mem_cons.mp hpiece with rfl | hothers
        · rcases List.mem_cons.mp hmem with rfl | hfirst
          · exact hc rfl
          · exact ih first List.mem_cons_self hfirst
        · exact ih piece (List.mem_cons_of_mem _ hothers) hmem

/-- The pieces of a text are the only ones that make it. -/
theorem pieces_eq_iff : Text.pieces separator text = pieces ↔ CutsInto separator text pieces := by
  constructor
  · rintro rfl
    refine ⟨pieces_ne_nil separator text, separator_not_mem_of_mem_pieces separator text, ?_⟩
    rw [pieces_eq_splitOn, List.intercalate_splitOn]
  · intro h
    rw [pieces_eq_splitOn, ← h.joined, List.splitOn_intercalate separator h.pure h.nonempty]

/-- A text is cut at a separator if nothing before it is one. -/
theorem cut?_eq_some_iff : cut? separator text = some (before, after) ↔
    text = before ++ separator :: after ∧ separator ∉ before := by
  induction text generalizing before with
  | nil => simp [cut?]
  | cons c rest ih =>
    by_cases hc : c = separator
    · cases before with
      | nil => simp [cut?, hc, eq_comm]
      | cons d before =>
        simp only [cut?, if_pos hc, Option.some.injEq, Prod.mk.injEq, List.cons_append,
          List.cons.injEq, List.mem_cons]
        constructor
        · intro h
          exact absurd h.1 (by simp)
        · rintro ⟨⟨rfl, -⟩, hnot⟩
          exact absurd (.inl hc.symm) hnot
    · simp only [cut?, if_neg hc, Option.map_eq_some_iff, Prod.mk.injEq, Prod.exists]
      constructor
      · rintro ⟨b, a, hcut, rfl, rfl⟩
        obtain ⟨rfl, hnot⟩ := ih.mp hcut
        refine ⟨rfl, fun hmem => ?_⟩
        rcases List.mem_cons.mp hmem with rfl | hmem
        · exact hc rfl
        · exact hnot hmem
      · rintro ⟨htext, hnot⟩
        cases before with
        | nil => exact absurd (List.cons.inj htext).1 hc
        | cons d before =>
          obtain ⟨rfl, hrest⟩ := List.cons.inj htext
          exact ⟨before, after, ih.mpr ⟨hrest, fun h => hnot (List.mem_cons_of_mem _ h)⟩, rfl, rfl⟩

theorem cut?_eq_none_iff : cut? separator text = none ↔ separator ∉ text := by
  induction text with
  | nil => simp [cut?]
  | cons c rest ih =>
    by_cases hc : c = separator
    · simp [cut?, hc]
    · simp [cut?, hc, ih, Ne.symm hc]

end Text

/-! ## Counts -/

namespace Number

open Text (isDigit digitsValue)

variable {text : List Char} {n m : Nat}

/-- Whether a text denotes a count: an optional plus sign, at least one decimal digit, and a value
of sixty-four bits. -/
def IsCount (text : List Char) (n : Nat) : Prop :=
  ∃ digits, (text = digits ∨ text = '+' :: digits) ∧ digits ≠ [] ∧
    (∀ c ∈ digits, isDigit c = true) ∧ digitsValue digits = n ∧ n < 2 ^ 64

/-- The number that digits denote behind others that denote `n`. -/
def valueFrom (n : Nat) (digits : List Char) : Nat :=
  digits.foldl (fun n c => 10 * n + (c.toNat - '0'.toNat)) n

theorem le_valueFrom (n : Nat) (digits : List Char) : n ≤ valueFrom n digits := by
  induction digits generalizing n with
  | nil => exact Nat.le_refl n
  | cons c rest ih =>
    apply Nat.le_trans _ (ih (10 * n + (c.toNat - '0'.toNat)))
    omega

/-- Since a number does not get smaller with more digits, the limit may be looked at after each. -/
theorem readDigitsFrom_eq_ok_iff (hn : n < countLimit) : readDigitsFrom n text = .ok m ↔
    (∀ c ∈ text, isDigit c = true) ∧ valueFrom n text = m ∧ m < countLimit := by
  induction text generalizing n with
  | nil =>
    simp only [readDigitsFrom, valueFrom, List.foldl_nil, Except.ok.injEq, List.not_mem_nil,
      false_implies, implies_true, true_and]
    constructor
    · rintro rfl
      exact ⟨rfl, hn⟩
    · exact And.left
  | cons c rest ih =>
    have hvalue : valueFrom n (c :: rest) = valueFrom (10 * n + (c.toNat - '0'.toNat)) rest := rfl
    rw [readDigitsFrom, hvalue, List.forall_mem_cons]
    by_cases hdigit : isDigit c = true
    · by_cases hnext : 10 * n + (c.toNat - '0'.toNat) < countLimit
      · simp only [hdigit, if_true, if_pos hnext, true_and]
        exact ih hnext
      · simp only [hdigit, if_true, if_neg hnext, true_and, reduceCtorEq, false_iff]
        rintro ⟨-, rfl, hm⟩
        exact hnext (Nat.lt_of_le_of_lt (le_valueFrom _ rest) hm)
    · simp [hdigit]

theorem readDigitsFrom_zero_eq_ok_iff : readDigitsFrom 0 text = .ok n ↔
    (∀ c ∈ text, isDigit c = true) ∧ digitsValue text = n ∧ n < countLimit :=
  readDigitsFrom_eq_ok_iff (by decide)

theorem isCount_plus_iff : IsCount ('+' :: text) n ↔
    text ≠ [] ∧ (∀ c ∈ text, isDigit c = true) ∧ digitsValue text = n ∧ n < countLimit := by
  constructor
  · rintro ⟨digits, rfl | h, hne, hdigits, hvalue⟩
    · exact absurd (hdigits '+' List.mem_cons_self) (by decide)
    · obtain rfl := List.tail_eq_of_cons_eq h
      exact ⟨hne, hdigits, hvalue⟩
  · rintro ⟨hne, hdigits, hvalue⟩
    exact ⟨text, .inr rfl, hne, hdigits, hvalue⟩

theorem isCount_iff_of_ne_plus (h : text.head? ≠ some '+') : IsCount text n ↔
    text ≠ [] ∧ (∀ c ∈ text, isDigit c = true) ∧ digitsValue text = n ∧ n < countLimit := by
  constructor
  · rintro ⟨digits, rfl | rfl, hne, hdigits, hvalue⟩
    · exact ⟨hne, hdigits, hvalue⟩
    · exact absurd rfl h
  · rintro ⟨hne, hdigits, hvalue⟩
    exact ⟨text, .inl rfl, hne, hdigits, hvalue⟩

/-- A count is read just if it is one. -/
theorem readCount_eq_ok_iff : readCount text = .ok n ↔ IsCount text n := by
  unfold readCount
  split
  · rw [isCount_iff_of_ne_plus (by simp)]
    simp
  · rw [isCount_plus_iff]
    simp
  · rename_i rest hrest
    rw [isCount_plus_iff, readDigitsFrom_zero_eq_ok_iff, and_iff_right hrest]
  · rename_i hnil hplus hrest
    rw [isCount_iff_of_ne_plus ?_, readDigitsFrom_zero_eq_ok_iff, and_iff_right hnil]
    intro hhead
    obtain ⟨rest, rfl⟩ := List.head?_eq_some_iff.mp hhead
    exact hrest rest rfl

theorem count?_eq_some_iff : count? text = some n ↔ IsCount text n := by
  rw [← readCount_eq_ok_iff, count?]
  cases readCount text <;> simp [Except.toOption]

end Number

/-! ## Names of queues -/

namespace Queue

variable {text : List Char} {queue : Queue}

/-- Whether a text names a queue: without the blanks around it, in small letters and with
underscores for hyphens, it is the name of the queue. -/
def IsNamedBy (queue : Queue) (text : List Char) : Prop :=
  ∃ core, Text.Trims text core ∧
    (core.map Char.toLower).map (fun c => if c = '-' then '_' else c) = queue.name.toList

/-- No capital becomes a hyphen when it is made small. -/
theorem toLower_eq_hyphen_iff (c : Char) : c.toLower = '-' ↔ c = '-' := by
  constructor
  · intro h
    unfold Char.toLower at h
    split at h
    · rename_i hc
      have hval : c.val + ('a'.val - 'A'.val) = '-'.val := congrArg Char.val h
      have hsum := congrArg UInt32.toNat hval
      have hfirst := UInt32.le_iff_toNat_le.mp hc.1
      have hlast := UInt32.le_iff_toNat_le.mp hc.2
      have hcapital : 'A'.val.toNat = 65 ∧ 'Z'.val.toNat = 90 := by decide
      have hshift : ('a'.val - 'A'.val).toNat = 32 ∧ '-'.val.toNat = 45 := by decide
      rw [UInt32.toNat_add] at hsum
      omega
    · exact h
  · rintro rfl
    decide

theorem normalName_eq (text : List Char) : normalName text =
    ((Text.trim text).map Char.toLower).map (fun c => if c = '-' then '_' else c) := by
  rw [normalName, List.map_map]
  apply List.map_congr_left
  intro c _
  simp only [Function.comp, toLower_eq_hyphen_iff]

theorem named?_eq_some_iff : named? text = some queue ↔ text = queue.name.toList := by
  constructor
  · intro h
    have hname := List.find?_some h
    exact (of_decide_eq_true hname).symm
  · rintro rfl
    exact named?_name queue

/-- A queue is read off a text just if the text names it. -/
theorem parse?_eq_some_iff : parse? text = some queue ↔ queue.IsNamedBy text := by
  rw [parse?, named?_eq_some_iff, normalName_eq]
  constructor
  · intro h
    exact ⟨Text.trim text, Text.trims_trim text, h⟩
  · rintro ⟨core, htrims, h⟩
    rwa [htrims.trim_eq]

end Queue

end LeasedWork
