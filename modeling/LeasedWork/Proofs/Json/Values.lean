import LeasedWork.Proofs.Json.Texts

/-!
# Values read back

A value is read back from its text if its arrays and objects nest no deeper than a reader follows,
its numbers are integers that a word of 64 bits holds, and its objects have their members in the
order of the names. Its text is read as a shape wherever it stands, and the shape means the value.
-/
namespace LeasedWork.Json

open Number (twoTo)

variable {depth : Nat} {v : Value} {members : List (String × Value)}

/-- Whether a text keeps all of a value that may nest as deep as given. -/
inductive Value.IsExact : Nat → Value → Prop
  | null (depth : Nat) : IsExact depth .null
  | bool (depth : Nat) (b : Bool) : IsExact depth (.bool b)
  | integer (depth : Nat) {n : Int} (low : -(twoTo 63 : Int) ≤ n) (high : n < twoTo 64) :
    IsExact depth (.number (.integer n))
  | string (depth : Nat) (s : String) : IsExact depth (.string s)
  | array {depth : Nat} {items : List Value} (exact : ∀ v ∈ items, IsExact depth v) :
    IsExact (depth + 1) (.array items)
  | object {depth : Nat} {members : List (String × Value)}
    (ordered : members.Pairwise fun m other => m.1 < other.1)
    (exact : ∀ m ∈ members, IsExact depth m.2) : IsExact (depth + 1) (.object members)

/-! ## Texts of arrays and objects -/

theorem writeItems_eq_joined (items : List Value) :
    writeItems items = joined (items.map Value.write) := by
  induction items with
  | nil => rfl
  | cons v items ih =>
    cases items with
    | nil => exact (joined_singleton v.write).symm
    | cons w items =>
      rw [writeItems, ih]
      rfl

theorem write_object_eq_writeRecord (members : List (String × Value)) :
    (Value.object members).write = writeRecord (members.map fun m => (m.1, m.2.write)) := by
  have hmembers : writeMembers members =
      joined ((members.map fun m => (m.1, m.2.write)).map memberText) := by
    induction members with
    | nil => rfl
    | cons member members ih =>
      obtain ⟨name, v⟩ := member
      cases members with
      | nil => exact (joined_singleton _).symm
      | cons next members =>
        rw [writeMembers, ih]
        simp [joined_cons_cons, memberText]
  rw [Value.write, hmembers]
  rfl

/-! ## The meaning of their shapes -/

theorem itemValues?_eq_some {trees : List Tree} {items : List Value}
    (h : List.Forall₂ (fun tree v => tree.value? = some v) trees items) :
    itemValues? trees = some items := by
  induction h with
  | nil => rfl
  | cons hvalue _ ih =>
    rw [itemValues?, hvalue, ih]
    rfl

/-- A name that comes after all others is put last. -/
theorem setMember_of_forall_lt {name : String} (h : ∀ m ∈ members, m.1 < name) (v : Value) :
    setMember name v members = members ++ [(name, v)] := by
  induction members with
  | nil => rfl
  | cons member members ih =>
    obtain ⟨key, old⟩ := member
    have hkey : key < name := h (key, old) List.mem_cons_self
    have hne : name ≠ key := by
      rintro rfl
      exact String.lt_irrefl _ hkey
    rw [setMember, if_neg (String.lt_asymm hkey), if_neg hne,
      ih fun m hm => h m (List.mem_cons_of_mem _ hm)]
    rfl

theorem memberValues?_eq_some {shapes : List (List Char × Tree)} {before : List (String × Value)}
    (h : List.Forall₂ (fun shape m => decodeBody shape.1 = some m.1.toList ∧
      shape.2.value? = some m.2) shapes members)
    (hordered : (before ++ members).Pairwise fun m other => m.1 < other.1) :
    memberValues? shapes before = some (before ++ members) := by
  induction h generalizing before with
  | nil => rw [memberValues?, List.append_nil]
  | @cons shape member shapes members hmember _ ih =>
    obtain ⟨name, v⟩ := member
    have hlast : ∀ m ∈ before, m.1 < name := fun m hm =>
      (List.pairwise_append.mp hordered).2.2 m hm (name, v) List.mem_cons_self
    rw [memberValues?, hmember.1, hmember.2]
    simp only [Option.bind_eq_bind, Option.bind_some, String.ofList_toList]
    rw [setMember_of_forall_lt hlast, ih (by simpa using hordered)]
    simp

/-! ## Values -/

/-- The text of a value has a shape, which means the value. -/
theorem Value.IsExact.exists_shape (h : v.IsExact depth) :
    ∃ tree, IsRead depth v.write tree ∧ tree.value? = some v := by
  induction h with
  | null depth => exact ⟨.null, isRead_null depth, rfl⟩
  | bool depth b =>
    refine ⟨.bool b, ?_, rfl⟩
    cases b with
    | true => exact isRead_bool depth true
    | false => exact isRead_bool depth false
  | integer depth low high =>
    refine ⟨_, isRead_integer depth _, ?_⟩
    rw [Tree.value?, numeral?_ofInt low high]
    rfl
  | string depth s =>
    refine ⟨_, isRead_string depth s, ?_⟩
    rw [Tree.value?, decodeBody_escape, Option.map_some, String.ofList_toList]
  | @array depth items _ ih =>
    choose! shape hread hvalue using ih
    refine ⟨.array (items.map shape), ?_, ?_⟩
    · rw [Value.write, writeItems_eq_joined]
      apply isRead_array
      simpa [List.forall₂_same] using hread
    · have hitems : List.Forall₂ (fun tree v => tree.value? = some v) (items.map shape) items := by
        simpa [List.forall₂_same] using hvalue
      rw [Tree.value?, itemValues?_eq_some hitems]
      rfl
  | @object depth members ordered _ ih =>
    choose! shape hread hvalue using ih
    refine ⟨.object (members.map fun m => (escape m.1.toList, shape m)), ?_, ?_⟩
    · rw [write_object_eq_writeRecord]
      apply isRead_object
      simpa [List.forall₂_same, IsMember] using fun name v hm => hread (name, v) hm
    · have hmembers : List.Forall₂ (fun shape m => decodeBody shape.1 = some m.1.toList ∧
          shape.2.value? = some m.2) (members.map fun m => (escape m.1.toList, shape m)) members := by
        simpa [List.forall₂_same, decodeBody_escape] using fun name v hm => hvalue (name, v) hm
      rw [Tree.value?, memberValues?_eq_some hmembers (by simpa using ordered)]
      rfl

/-- A value is read back from its text as it was. -/
theorem Value.IsExact.read?_text (h : v.IsExact depthLimit) : Value.read? v.text = some v := by
  obtain ⟨tree, hread, hvalue⟩ := h.exists_shape
  rw [Value.read?, Value.text, String.toList_ofList, hread.read?]
  exact hvalue

end LeasedWork.Json
