import LeasedWork.Job.Text
import LeasedWork.Proofs.Json.Leaves
import Mathlib.Data.List.Forall2

/-!
# Texts of which the shape is known

A compact text is read as one shape wherever it stands: whatever follows it, as long as that could
not go on with a number, and whatever is left of the fuel, as long as that is twice its length.
Said of the parts, this carries over to arrays and objects, so the shape of a long text is put
together from the shapes of its leaves.
-/
namespace LeasedWork.Json

open Text (digitsOf digitsOfInt)

variable {depth fuel : Nat} {text rest : List Char} {tree : Tree} {texts : List (List Char)}
  {trees : List Tree}

/-- Whether a text is read as a tree wherever a value may stand, with arrays and objects nesting
no deeper than they may. -/
structure IsRead (depth : Nat) (text : List Char) (tree : Tree) : Prop where
  /-- It starts neither with a blank nor like the end of an array. -/
  first : ∃ c rest, text = c :: rest ∧ isGap c = false ∧ c ≠ ']'
  next : ∀ fuel rest, 2 * text.length ≤ fuel + 1 → Stops rest →
    readTree (fuel + 1) depth (text ++ rest) = some (tree, rest)

theorem skipGap_cons {c : Char} (h : isGap c = false) (rest : List Char) :
    skipGap (c :: rest) = c :: rest := List.dropWhile_cons_of_neg (by simp [h])

theorem skipGap_of_stops (h : Stops rest) : skipGap rest = rest := by
  cases h <;> rfl

namespace IsRead

theorem length_pos (h : IsRead depth text tree) : 0 < text.length := by
  obtain ⟨c, rest, rfl, -⟩ := h.first
  exact Nat.zero_lt_succ _

theorem read (h : IsRead depth text tree) (hfuel : 2 * text.length ≤ fuel) (hstops : Stops rest) :
    readTree fuel depth (text ++ rest) = some (tree, rest) := by
  have hpos := h.length_pos
  cases fuel with
  | zero => omega
  | succ fuel => exact h.next fuel rest hfuel hstops

/-- A text that is read as a tree everywhere is a whole text of that shape. -/
theorem read? (h : IsRead depth text tree) : Tree.read? depth text = some tree := by
  have hread := h.next (2 * text.length + 1) [] (by omega) .done
  rw [List.append_nil] at hread
  rw [Tree.read?, hread]
  rfl

end IsRead

/-! ## Leaves -/

theorem isRead_null (depth : Nat) : IsRead depth "null".toList .null where
  first := ⟨'n', "ull".toList, rfl, rfl, by decide⟩
  next _ _ _ _ := rfl

theorem isRead_bool (depth : Nat) (b : Bool) : IsRead depth (writeBool b) (.bool b) := by
  cases b with
  | true => exact ⟨⟨'t', "rue".toList, rfl, rfl, by decide⟩, fun _ _ _ _ => rfl⟩
  | false => exact ⟨⟨'f', "alse".toList, rfl, rfl, by decide⟩, fun _ _ _ _ => rfl⟩

theorem isRead_string (depth : Nat) (s : String) :
    IsRead depth (writeString s) (.string (escape s.toList)) where
  first := ⟨'"', _, rfl, rfl, by decide⟩
  next fuel rest _ _ := by
    have hbody := readBody_escape s.toList rest
    have htext : writeString s ++ rest = '"' :: (escape s.toList ++ '"' :: rest) := by
      simp [writeString, escape]
    rw [htext, readTree, skipGap_cons rfl]
    simp only [hbody, Option.map_some]

/-- What a number starts with starts nothing else. -/
theorem not_mem_of_starts_number {c : Char} (h : c = '-' ∨ Text.isDigit c = true) :
    c ∉ [' ', '\t', '\n', '\r', 'n', 't', 'f', '"', '[', ']', '\x7b'] := by
  have hnone : ∀ c ∈ [' ', '\t', '\n', '\r', 'n', 't', 'f', '"', '[', ']', '\x7b'],
      ¬ (c = '-' ∨ Text.isDigit c = true) := by
    simp only [List.forall_mem_cons, List.not_mem_nil, false_imp_iff, implies_true, and_true]
    decide
  exact fun hmem => hnone c hmem h

theorem digitsOfInt_eq_cons (n : Int) : ∃ c rest, digitsOfInt n = c :: rest ∧
    (c = '-' ∨ Text.isDigit c = true) := by
  rw [digitsOfInt]
  by_cases hsign : n < 0
  · exact ⟨'-', digitsOf n.natAbs, if_pos hsign, .inl rfl⟩
  · obtain ⟨c, digits, hcons⟩ := List.exists_cons_of_ne_nil (Text.digitsOf_ne_nil n.natAbs)
    exact ⟨c, digits, (if_neg hsign).trans hcons,
      .inr (Text.isDigit_of_mem_digitsOf (hcons ▸ List.mem_cons_self))⟩

theorem isRead_integer (depth : Nat) (n : Int) :
    IsRead depth (digitsOfInt n) (.number (.ofInt n)) := by
  obtain ⟨c, digits, hcons, hc⟩ := digitsOfInt_eq_cons n
  have hother := not_mem_of_starts_number hc
  simp only [List.mem_cons, List.not_mem_nil, or_false, not_or] at hother
  have hgap : isGap c = false := by simp [isGap, hother]
  constructor
  · exact ⟨c, digits, hcons, hgap, by simp [hother]⟩
  · intro fuel rest _ hstops
    have hread := readLexeme_digitsOfInt n hstops
    rw [hcons, List.cons_append] at hread ⊢
    rw [readTree, skipGap_cons hgap]
    split <;> simp_all

theorem isRead_optional {α : Type} {write : α → List Char} {shape : α → Tree} {a : Option α}
    (h : ∀ x ∈ a, IsRead depth (write x) (shape x)) :
    IsRead depth (writeOptional write a) ((a.map shape).getD .null) := by
  cases a with
  | none => exact isRead_null depth
  | some x => exact h x rfl

/-! ## Arrays -/

/-- Texts with commas between them. -/
def joined (texts : List (List Char)) : List Char := (texts.intersperse [',']).flatten

theorem joined_singleton (text : List Char) : joined [text] = text := List.append_nil text

theorem joined_cons_cons (text next : List Char) (texts : List (List Char)) :
    joined (text :: next :: texts) = text ++ ',' :: joined (next :: texts) := rfl

/-- A joined text starts with its first part. -/
theorem exists_joined_eq (text : List Char) (texts : List (List Char)) :
    ∃ after, joined (text :: texts) = text ++ after := by
  cases texts with
  | nil => exact ⟨[], rfl⟩
  | cons next texts => exact ⟨',' :: joined (next :: texts), rfl⟩

theorem readItems_joined (h : List.Forall₂ (IsRead depth) texts trees) (hne : texts ≠ [])
    (rest : List Char) (hfuel : 2 * (joined texts).length ≤ fuel) :
    readItems (fuel + 1) depth (joined texts ++ ']' :: rest) = some (trees, rest) := by
  induction h generalizing fuel with
  | nil => exact absurd rfl hne
  | @cons text tree texts trees hread htail ih =>
    cases htail with
    | nil =>
      rw [joined_singleton] at hfuel ⊢
      rw [readItems, hread.read hfuel (.bracket rest)]
      rfl
    | @cons next _ texts trees hnext htail =>
      rw [joined_cons_cons] at hfuel ⊢
      simp only [List.length_append, List.length_cons] at hfuel
      obtain ⟨fuel, rfl⟩ := Nat.exists_eq_add_of_le' (show 1 ≤ fuel by omega)
      rw [List.append_assoc, List.cons_append, readItems, hread.read (by omega) (.comma _)]
      simp only [skipGap_cons (show isGap ',' = false from rfl)]
      rw [ih (List.cons_ne_nil _ _) (by omega)]
      rfl

theorem isRead_array (h : List.Forall₂ (IsRead depth) texts trees) :
    IsRead (depth + 1) ('[' :: (joined texts ++ [']'])) (.array trees) where
  first := ⟨'[', _, rfl, rfl, by decide⟩
  next fuel rest hfuel _ := by
    have htext : '[' :: (joined texts ++ [']']) ++ rest = '[' :: (joined texts ++ ']' :: rest) := by
      simp
    rw [htext, readTree, skipGap_cons rfl]
    simp only [List.length_cons, List.length_append, List.length_nil] at hfuel
    obtain ⟨fuel, rfl⟩ := Nat.exists_eq_add_of_le' (show 1 ≤ fuel by omega)
    cases h with
    | nil => rfl
    | @cons text tree texts trees hread htail =>
      have hitems := readItems_joined (.cons hread htail) (List.cons_ne_nil _ _) rest
        (show 2 * (joined (text :: texts)).length ≤ fuel by omega)
      obtain ⟨c, others, rfl, hgap, hbracket⟩ := hread.first
      obtain ⟨after, hafter⟩ := exists_joined_eq (c :: others) texts
      rw [hafter, List.cons_append, List.cons_append] at hitems ⊢
      simp only [skipGap_cons hgap]
      split <;> simp_all

/-! ## Objects -/

/-- Whether the name and the text of a member are read as those of a shape. -/
def IsMember (depth : Nat) (member : String × List Char) (shape : List Char × Tree) : Prop :=
  shape.1 = escape member.1.toList ∧ IsRead depth member.2 shape.2

/-- The text of a member of an object. -/
def memberText (member : String × List Char) : List Char :=
  writeString member.1 ++ ':' :: member.2

variable {members : List (String × List Char)} {shapes : List (List Char × Tree)}

theorem readMembers_succ {member : String × List Char} {shape : List Char × Tree}
    (h : IsMember depth member shape) (hfuel : 2 * (memberText member).length ≤ fuel)
    (hstops : Stops rest) :
    readMembers (fuel + 1) depth (memberText member ++ rest) =
      match rest with
      | ',' :: rest => (readMembers fuel depth rest).map fun r => (shape :: r.1, r.2)
      | '\x7d' :: rest => some ([shape], rest)
      | _ => none := by
  obtain ⟨name, text⟩ := member
  obtain ⟨_, tree⟩ := shape
  obtain ⟨rfl, hread⟩ := h
  have hbody := readBody_escape name.toList (':' :: (text ++ rest))
  have htext : memberText (name, text) ++ rest =
      '"' :: (escape name.toList ++ '"' :: ':' :: (text ++ rest)) := by
    simp [memberText, writeString, escape]
  have hvalue : 2 * text.length ≤ fuel := by
    simp only [memberText, List.length_append, List.length_cons] at hfuel
    omega
  rw [htext, readMembers, skipGap_cons rfl]
  simp only [hbody, skipGap_cons (show isGap ':' = false from rfl), hread.read hvalue hstops,
    skipGap_of_stops hstops]
  cases hstops <;> rfl

theorem readMembers_joined (h : List.Forall₂ (IsMember depth) members shapes) (hne : members ≠ [])
    (rest : List Char) (hfuel : 2 * (joined (members.map memberText)).length ≤ fuel) :
    readMembers (fuel + 1) depth (joined (members.map memberText) ++ '\x7d' :: rest) =
      some (shapes, rest) := by
  induction h generalizing fuel with
  | nil => exact absurd rfl hne
  | @cons member shape members shapes hread htail ih =>
    cases htail with
    | nil =>
      rw [List.map_singleton, joined_singleton] at hfuel ⊢
      exact readMembers_succ hread hfuel (.brace rest)
    | @cons next _ members shapes hnext htail =>
      simp only [List.map_cons, joined_cons_cons, List.length_append, List.length_cons] at hfuel ih ⊢
      obtain ⟨fuel, rfl⟩ := Nat.exists_eq_add_of_le' (show 1 ≤ fuel by omega)
      rw [List.append_assoc, List.cons_append, readMembers_succ hread (by omega) (.comma _)]
      simp only [ih (List.cons_ne_nil _ _) (show 2 * _ ≤ fuel by omega), Option.map_some]

theorem isRead_object (h : List.Forall₂ (IsMember depth) members shapes) :
    IsRead (depth + 1) (writeRecord members) (.object shapes) where
  first := ⟨'\x7b', _, rfl, rfl, by decide⟩
  next fuel rest hfuel _ := by
    have htext : writeRecord members ++ rest =
        '\x7b' :: (joined (members.map memberText) ++ '\x7d' :: rest) := by
      change '\x7b' :: (joined (members.map memberText) ++ ['\x7d']) ++ rest = _
      simp
    have hlength := congrArg List.length htext
    simp only [List.length_cons, List.length_append] at hlength
    rw [htext, readTree, skipGap_cons rfl]
    obtain ⟨fuel, rfl⟩ := Nat.exists_eq_add_of_le' (show 1 ≤ fuel by omega)
    cases h with
    | nil => rfl
    | @cons member shape members shapes hread htail =>
      have hmembers := readMembers_joined (.cons hread htail) (List.cons_ne_nil _ _) rest
        (show 2 * (joined ((member :: members).map memberText)).length ≤ fuel by omega)
      obtain ⟨after, hafter⟩ := exists_joined_eq (memberText member) (members.map memberText)
      obtain ⟨others, hquote⟩ : ∃ others, memberText member = '"' :: others := ⟨_, rfl⟩
      rw [List.map_cons, hafter, hquote, List.cons_append, List.cons_append] at hmembers ⊢
      simp only [skipGap_cons (show isGap '"' = false from rfl)]
      split <;> simp_all

end LeasedWork.Json
