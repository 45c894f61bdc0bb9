import LeasedWork.Job
import LeasedWork.Proofs.Settings.Spelling

/-!
# The kind that a definition states

Jobs of one queue may be of several kinds, which their definitions tell apart by an integer in a
member of the outermost object. Here it is said which texts state a kind: the last member of that
name counts, its number is written without a point and an exponent, and all of the text has to be
readable, not only that member.
-/
namespace LeasedWork

namespace Json

open Number (twoTo valueFrom)
open Text (digitsValue)

variable {l : Lexeme} {k : Int} {n taken : Nat} {digits : List Char}

/-! ## Integers -/

/-- Whether a number is written as an integer. A minus sign before zero makes none. -/
structure Lexeme.IsInteger (l : Lexeme) (k : Int) : Prop where
  fraction : l.fraction = none
  exponent : l.exponent = none
  value : k = if l.negative then -(digitsValue l.whole : Int) else digitsValue l.whole
  unsigned : l.negative = true → digitsValue l.whole ≠ 0

/-- All digits are taken just if their number fits, and then it is what they make. -/
theorem takeDigits_iff (hn : n < twoTo 64) (taken : Nat) (digits : List Char) :
    ((takeDigits n taken digits).2.2 = 0 ↔ valueFrom n digits < twoTo 64) ∧
      (valueFrom n digits < twoTo 64 → (takeDigits n taken digits).1 = valueFrom n digits) := by
  induction digits generalizing n taken with
  | nil => exact ⟨⟨fun _ => hn, fun _ => rfl⟩, fun _ => rfl⟩
  | cons c rest ih =>
    have hvalue : valueFrom n (c :: rest) = valueFrom (10 * n + (c.toNat - '0'.toNat)) rest := rfl
    rw [takeDigits, hvalue]
    by_cases hnext : 10 * n + (c.toNat - '0'.toNat) < twoTo 64
    · simp only [if_pos hnext]
      exact ih hnext (taken + 1)
    · have hlarge := Nat.le_trans (Nat.not_lt.mp hnext) (Number.le_valueFrom _ rest)
      simp only [if_neg hnext, Nat.succ_ne_zero, false_iff]
      exact ⟨Nat.not_lt.mpr hlarge, fun h => absurd h (Nat.not_lt.mpr hlarge)⟩

theorem isSigned64_iff : isSigned64 k = true ↔ -(twoTo 63 : Int) ≤ k ∧ k < twoTo 63 := by
  rw [isSigned64, Bool.and_eq_true, decide_eq_true_iff, decide_eq_true_iff]

theorem takeDigits_whole (l : Lexeme) :
    ((takeDigits 0 0 l.whole).2.2 = 0 ↔ digitsValue l.whole < twoTo 64) ∧
      (digitsValue l.whole < twoTo 64 → (takeDigits 0 0 l.whole).1 = digitsValue l.whole) :=
  takeDigits_iff (by decide) 0 l.whole

/-- Digits alone that fit are an integer, but for zero and numbers too small behind a minus sign. -/
theorem numeral?_of_plain (hfraction : l.fraction = none) (hexponent : l.exponent = none)
    (hsmall : digitsValue l.whole < twoTo 64) : l.numeral? = some
      (if l.negative then
        if digitsValue l.whole = 0 ∨ twoTo 63 < digitsValue l.whole then
          .real (Number.Double.ofNat (digitsValue l.whole)).negate
        else .integer (-(digitsValue l.whole : Int))
      else .integer (digitsValue l.whole)) := by
  obtain ⟨hfits, hvalue⟩ := takeDigits_whole l
  simp only [Lexeme.numeral?]
  rw [if_pos ⟨hfits.mpr hsmall, hfraction, hexponent⟩, hvalue hsmall]
  cases l.negative with
  | false => rfl
  | true => exact (apply_ite some ..).symm

/-- A point, an exponent or a digit too many makes a number a double. -/
theorem plain_of_numeral?_eq_integer (h : l.numeral? = some (.integer k)) :
    l.fraction = none ∧ l.exponent = none ∧ digitsValue l.whole < twoTo 64 := by
  by_cases hplain : (takeDigits 0 0 l.whole).2.2 = 0 ∧ l.fraction = none ∧ l.exponent = none
  · exact ⟨hplain.2.1, hplain.2.2, (takeDigits_whole l).1.mp hplain.1⟩
  · simp only [Lexeme.numeral?, if_neg hplain] at h
    obtain ⟨d, -, hd⟩ := Option.map_eq_some_iff.mp h
    cases hd

/-- A number is read as an integer of 64 bits just if it is written as that integer. -/
theorem numeral?_eq_integer_iff (hk : isSigned64 k = true) :
    l.numeral? = some (.integer k) ↔ l.IsInteger k := by
  have hlimits : twoTo 63 = 9223372036854775808 ∧ twoTo 64 = 18446744073709551616 := by decide
  obtain ⟨hlow, hhigh⟩ := isSigned64_iff.mp hk
  constructor
  · intro h
    obtain ⟨hfraction, hexponent, hsmall⟩ := plain_of_numeral?_eq_integer h
    rw [numeral?_of_plain hfraction hexponent hsmall] at h
    cases hsign : l.negative with
    | false =>
      have hvalue : (digitsValue l.whole : Int) = k := by simpa [hsign] using h
      exact ⟨hfraction, hexponent, by simp [hsign, hvalue], by simp [hsign]⟩
    | true =>
      by_cases hreal : digitsValue l.whole = 0 ∨ twoTo 63 < digitsValue l.whole
      · simp [hsign, hreal] at h
      · have hvalue : -(digitsValue l.whole : Int) = k := by simpa [hsign, hreal] using h
        exact ⟨hfraction, hexponent, by simp [hsign, hvalue], fun _ hzero => hreal (.inl hzero)⟩
  · intro h
    have hvalue := h.value
    have hsmall : digitsValue l.whole < twoTo 64 := by
      split at hvalue <;> omega
    rw [numeral?_of_plain h.fraction h.exponent hsmall]
    cases hsign : l.negative with
    | false => simp [hvalue, hsign]
    | true =>
      have hinteger : ¬ (digitsValue l.whole = 0 ∨ twoTo 63 < digitsValue l.whole) := by
        have hnonzero := h.unsigned hsign
        rw [if_pos hsign] at hvalue
        omega
      simp [hvalue, hsign, hinteger]

/-! ## Members of objects -/

variable {name : String} {value : Value} {members : List (List Char × Tree)}
  {before values : List (String × Value)}

/-- A member that is set is found under its name, and nothing else changes. -/
theorem find?_setMember (name other : String) (value : Value) (members : List (String × Value)) :
    (setMember name value members).find? (·.1 = other) =
      if name = other then some (name, value) else members.find? (·.1 = other) := by
  induction members with
  | nil => by_cases h : name = other <;> simp [setMember, h]
  | cons member rest ih =>
    obtain ⟨key, old⟩ := member
    rw [setMember]
    by_cases hlt : name < key
    · rw [if_pos hlt]
      by_cases h : name = other <;> simp [h]
    · rw [if_neg hlt]
      by_cases heq : name = key
      · subst heq
        rw [if_pos rfl]
        by_cases h : name = other <;> simp [h]
      · rw [if_neg heq]
        by_cases hkey : key = other
        · have hne : name ≠ other := fun h => heq (h.trans hkey.symm)
          simp [hkey, hne]
        · rw [List.find?_cons_of_neg (by simpa using hkey), ih,
            List.find?_cons_of_neg (by simpa using hkey)]

/-- Whether the name and the value of a member can be read. -/
def IsReadable (m : List Char × Tree) : Prop :=
  (∃ name, decodeBody m.1 = some name) ∧ ∃ value, m.2.value? = some value

theorem exists_memberValues?_iff : (∃ values, memberValues? members before = some values) ↔
    ∀ m ∈ members, IsReadable m := by
  induction members generalizing before with
  | nil => simp [memberValues?]
  | cons m rest ih =>
    obtain ⟨body, tree⟩ := m
    rw [List.forall_mem_cons, memberValues?]
    cases hname : decodeBody body with
    | none => simp [IsReadable, hname]
    | some key =>
      cases hvalue : tree.value? with
      | none => simp [IsReadable, hvalue]
      | some value =>
        have hm : IsReadable (body, tree) := ⟨⟨key, hname⟩, value, hvalue⟩
        rw [and_iff_right hm]
        exact ih

/-- The members of a name, as the name is written in each. -/
def named (name : String) (members : List (List Char × Tree)) : List (List Char × Tree) :=
  members.filter fun m => decodeBody m.1 = some name.toList

theorem member?_object_setMember (name other : String) (value : Value)
    (members : List (String × Value)) :
    (Value.object (setMember name value members)).member? other =
      if name = other then some value else (Value.object members).member? other := by
  rw [Value.member?, find?_setMember]
  split
  · rfl
  · rfl

/-- Of the members of one name the last one counts; without any, what was there before stays. -/
theorem member?_memberValues (name : String) (h : memberValues? members before = some values) :
    (Value.object values).member? name =
      match (named name members).getLast? with
      | some m => m.2.value?
      | none => (Value.object before).member? name := by
  induction members generalizing before with
  | nil =>
    obtain rfl : before = values := by simpa [memberValues?] using h
    rfl
  | cons m rest ih =>
    obtain ⟨body, tree⟩ := m
    rw [memberValues?] at h
    obtain ⟨key, hkey, h⟩ := Option.bind_eq_some_iff.mp h
    obtain ⟨value, hvalue, h⟩ := Option.bind_eq_some_iff.mp h
    -- a later member of the name comes before what this one has set
    rw [ih h, member?_object_setMember]
    have hname : String.ofList key = name ↔ decodeBody body = some name.toList := by
      rw [hkey, Option.some.injEq]
      exact ⟨fun h => by rw [← h, String.toList_ofList], fun h => by rw [h, String.ofList_toList]⟩
    by_cases hnamed : decodeBody body = some name.toList
    · have hcons : named name ((body, tree) :: rest) = (body, tree) :: named name rest :=
        List.filter_cons_of_pos (by simpa using hnamed)
      rw [if_pos (hname.mpr hnamed), hcons, List.getLast?_cons]
      cases (named name rest).getLast? with
      | none => exact hvalue.symm
      | some m => rfl
    · have hcons : named name ((body, tree) :: rest) = named name rest :=
        List.filter_cons_of_neg (by simpa using hnamed)
      rw [if_neg (mt hname.mp hnamed), hcons]

variable {v : Value} {tree : Tree} {numeral : Numeral}

theorem integer?_eq_some_iff :
    v.integer? = some k ↔ v = .number (.integer k) ∧ isSigned64 k = true := by
  constructor
  · intro h
    unfold Value.integer? at h
    split at h
    · split at h
      · rename_i n hn
        cases h
        exact ⟨rfl, hn⟩
      · cases h
    · cases h
  · rintro ⟨rfl, hk⟩
    exact if_pos hk

theorem value?_eq_number_iff : tree.value? = some (.number numeral) ↔
    ∃ lexeme, tree = .number lexeme ∧ lexeme.numeral? = some numeral := by
  cases tree <;> simp [Tree.value?]

theorem value?_eq_object_iff : tree.value? = some (.object values) ↔
    ∃ members, tree = .object members ∧ memberValues? members [] = some values := by
  cases tree <;> simp [Tree.value?]

/-- A text has a member of a name if it is an object of which all members can be read, and the
value is that of the last member so named. -/
theorem exists_read?_member?_iff {text : String} :
    (Value.read? text).bind (Value.member? name) = some value ↔
      ∃ members m, Tree.read? depthLimit text.toList = some (.object members) ∧
        (∀ other ∈ members, IsReadable other) ∧ (named name members).getLast? = some m ∧
        m.2.value? = some value := by
  rw [Value.read?]
  constructor
  · intro h
    obtain ⟨object, h, hmember⟩ := Option.bind_eq_some_iff.mp h
    obtain ⟨tree, hshape, hobject⟩ := Option.bind_eq_some_iff.mp h
    cases object with
    | object values =>
      obtain ⟨members, rfl, hvalues⟩ := value?_eq_object_iff.mp hobject
      rw [member?_memberValues name hvalues] at hmember
      cases hlast : (named name members).getLast? with
      | none => simp [hlast, Value.member?] at hmember
      | some m =>
        rw [hlast] at hmember
        exact ⟨members, m, hshape, exists_memberValues?_iff.mp ⟨values, hvalues⟩, hlast, hmember⟩
    | _ => cases hmember
  · rintro ⟨members, m, hshape, hreadable, hlast, hvalue⟩
    obtain ⟨values, hvalues⟩ := exists_memberValues?_iff.mpr hreadable
    have hobject := value?_eq_object_iff.mpr ⟨members, rfl, hvalues⟩
    have hmember := member?_memberValues name hvalues
    rw [hlast] at hmember
    rw [hshape, Option.bind_some, hobject, Option.bind_some]
    exact hmember.trans hvalue

end Json

namespace Job

open Json (Tree Lexeme IsReadable depthLimit named)
open Number (twoTo)

variable {definition : String} {kind : Int} {job : Job}

/-! ## The kind -/

/-- Whether a text states a kind. It is an object of which every member can be read, and the last
of the members that bear the name is an integer of 64 bits. -/
inductive StatesKind (definition : String) (kind : Int) : Prop
  | intro {members : List (List Char × Tree)} {body : List Char} {lexeme : Lexeme}
      (shape : Tree.read? depthLimit definition.toList = some (.object members))
      (readable : ∀ m ∈ members, IsReadable m)
      (last : (named kindMember members).getLast? = some (body, .number lexeme))
      (integer : lexeme.IsInteger kind)
      (range : -(twoTo 63 : Int) ≤ kind ∧ kind < twoTo 63)

theorem kindOf?_eq_some_iff : kindOf? definition = some kind ↔ StatesKind definition kind := by
  rw [kindOf?]
  constructor
  · intro h
    obtain ⟨value, h, hinteger⟩ := Option.bind_eq_some_iff.mp h
    obtain ⟨rfl, hrange⟩ := Json.integer?_eq_some_iff.mp hinteger
    obtain ⟨members, ⟨body, tree⟩, hshape, hreadable, hlast, hvalue⟩ :=
      Json.exists_read?_member?_iff.mp h
    obtain ⟨lexeme, rfl, hnumeral⟩ := Json.value?_eq_number_iff.mp hvalue
    exact ⟨hshape, hreadable, hlast, (Json.numeral?_eq_integer_iff hrange).mp hnumeral,
      Json.isSigned64_iff.mp hrange⟩
  · intro h
    obtain ⟨hshape, hreadable, hlast, hinteger, hrange⟩ := h
    have hsigned := Json.isSigned64_iff.mpr hrange
    have hnumeral := (Json.numeral?_eq_integer_iff hsigned).mpr hinteger
    have hvalue := Json.value?_eq_number_iff.mpr ⟨_, rfl, hnumeral⟩
    have hmember := Json.exists_read?_member?_iff.mpr ⟨_, _, hshape, hreadable, hlast, hvalue⟩
    rw [hmember, Option.bind_some]
    exact Json.integer?_eq_some_iff.mpr ⟨rfl, hsigned⟩

/-- Whether a job has a definition that states a kind. -/
def HasKind (job : Job) (kind : Int) : Prop :=
  ∃ definition, job.definition = some definition ∧ StatesKind definition kind

theorem kind?_eq_some_iff : job.kind? = some kind ↔ job.HasKind kind := by
  rw [kind?, Option.bind_eq_some_iff]
  simp only [kindOf?_eq_some_iff, HasKind]

/-- The last of two members of the name counts, even where only the first is an integer. -/
example : kindOf? "\x7b\"typeId\": 2, \"typeId\": 3\x7d" = some 3 ∧
    kindOf? "\x7b\"typeId\": 2, \"typeId\": 2.0\x7d" = none := by
  decide +kernel

end Job

end LeasedWork
