import LeasedWork.Proofs.Json.Texts

/-!
# Members read back

The leaves of a typed record mean what was written, and its members are found by their names. A
member that may be absent is read back as it was, absent or not.
-/
namespace LeasedWork.Json

variable {n : Int} {tree : Tree} {names : List String} {shapes : List (String × Tree)}

theorem string?_escape (s : String) : Tree.string? (.string (escape s.toList)) = some s := by
  rw [Tree.string?, decodeBody_escape, Option.map_some, String.ofList_toList]

theorem constant?_escape {α : Type} (named : List Char → Option α) (name : String) :
    Tree.constant? named (.string (escape name.toList)) = named name.toList := by
  rw [Tree.constant?, decodeBody_escape]
  rfl

theorem integer?_ofInt (h : isSigned64 n = true) : Tree.integer? (.number (.ofInt n)) = some n := by
  have hlimits : Number.twoTo 63 ≤ Number.twoTo 64 := by decide
  obtain ⟨hlow, hhigh⟩ := isSigned64_iff.mp h
  rw [Tree.integer?, numeral?_ofInt hlow (by omega)]
  exact if_pos h

theorem isSigned64_of_integer? (h : tree.integer? = some n) : isSigned64 n = true := by
  cases tree with
  | number lexeme =>
    obtain ⟨numeral, -, hnumeral⟩ := Option.bind_eq_some_iff.mp h
    exact (integer?_eq_some_iff.mp hnumeral).2
  | _ => cases h

theorem optional?_of_ne_null {α : Type} (read : Tree → Option α) (h : tree ≠ .null) :
    tree.optional? read = (read tree).map some := by
  cases tree with
  | null => exact absurd rfl h
  | _ => rfl

theorem required?_of_lookup {α : Type} {read : Tree → Option α} {name : String} {a : α}
    (hlookup : shapes.lookup name = some tree) (hread : read tree = some a) :
    required? read name shapes = some a := by
  rw [required?, hlookup]
  exact hread

/-- A member that may be absent is read back if its reader undoes its writer. -/
theorem absentable?_of_lookup {α : Type} {read : Tree → Option α} {name : String}
    {shape : α → Tree} {a : Option α}
    (hlookup : shapes.lookup name = some ((a.map shape).getD .null))
    (hread : ∀ x ∈ a, read (shape x) = some x) (hnull : ∀ x ∈ a, shape x ≠ .null) :
    absentable? read name shapes = some a := by
  rw [absentable?, hlookup]
  cases a with
  | none => rfl
  | some x =>
    change (shape x).optional? read = _
    rw [optional?_of_ne_null read (hnull x rfl), hread x rfl]
    rfl

theorem exists_read_of_absentable? {α : Type} {read : Tree → Option α} {name : String} {a : α}
    (h : absentable? read name shapes = some (some a)) : ∃ tree, read tree = some a := by
  unfold absentable? at h
  split at h
  · cases h
  · rename_i tree hlookup
    by_cases hnull : tree = .null
    · subst hnull
      cases h
    · rw [optional?_of_ne_null read hnull] at h
      exact ⟨tree, by simpa using h⟩

/-- Members of different names, all of them known, are found as they are. -/
theorem knownMembers?_escape (hdistinct : (shapes.map (·.1)).Nodup)
    (hknown : ∀ m ∈ shapes, m.1 ∈ names) :
    knownMembers? names (shapes.map fun m => (escape m.1.toList, m.2)) = some shapes := by
  induction shapes with
  | nil => rfl
  | cons member shapes ih =>
    obtain ⟨name, tree⟩ := member
    rw [List.map_cons, List.nodup_cons] at hdistinct
    obtain ⟨hnew, hdistinct⟩ := hdistinct
    have hothers := ih hdistinct fun m hm => hknown m (List.mem_cons_of_mem _ hm)
    have hname : name ∈ names := hknown (name, tree) List.mem_cons_self
    have hany : shapes.any (fun m => m.1 = name) = false := by
      rw [List.any_eq_false]
      intro m hm hsame
      exact hnew (List.mem_map.mpr ⟨m, hm, by simpa using hsame⟩)
    simp [knownMembers?, decodeBody_escape, hothers, hname, hany]

end LeasedWork.Json
