import LeasedWork.Diagnostic

/-!
# Traces

The long text of a diagnostic is its message, and below it every cause, the nearest first. A single
cause is indented. Several causes are numbered, and every one of them begins a line of its own. The
later lines of a cause stand below its first one.
-/
namespace LeasedWork.Diagnostic

/-- A text with all its lines but the first one indented. -/
def indented (width : Nat) (text : List Char) : List Char :=
  text.flatMap fun c => if c = '\n' then '\n' :: List.replicate width ' ' else [c]

/-- Whether a text lists causes one below the other, numbered from a number on. The numbers are
aligned at the right. -/
inductive Lists : Nat → List String → List Char → Prop
  | nil {n : Nat} : Lists n [] []
  | cons {n : Nat} {causes : List String} {rest : List Char} (cause : String)
      (h : Lists (n + 1) causes rest) :
      Lists n (cause :: causes) ('\n' :: ((Nat.toDigits 10 n).leftpad 5 ' ' ++ ": ".toList) ++
        indented 7 cause.toList ++ rest)

/-- Whether a text tells a message and the causes behind it. -/
inductive IsTrace (message : String) : List String → String → Prop
  | alone : IsTrace message [] message
  | caused (cause : String) : IsTrace message [cause]
      (message ++ "\n\nCaused by:\n    " ++ String.ofList (indented 4 cause.toList))
  | numbered {first second : String} {rest : List String} {list : List Char}
      (h : Lists 0 (first :: second :: rest) list) : IsTrace message (first :: second :: rest)
        (message ++ "\n\nCaused by:" ++ String.ofList list)

variable {width : Nat}

theorem indented_of_pieces {text first : List Char} {rest : List (List Char)}
    (h : Text.pieces '\n' text = first :: rest) : indented width text =
      first ++ rest.flatMap fun line => '\n' :: (List.replicate width ' ' ++ line) := by
  induction text generalizing first rest with
  | nil =>
    obtain ⟨rfl, rfl⟩ := List.cons.inj h
    rfl
  | cons c more ih =>
    obtain ⟨next, others, hmore⟩ := List.exists_cons_of_ne_nil (Text.pieces_ne_nil '\n' more)
    rw [Text.pieces, hmore] at h
    rw [indented, List.flatMap_cons, ← indented, ih hmore]
    split at h
    · obtain ⟨rfl, rfl⟩ := List.cons.inj h
      simp [*]
    · obtain ⟨rfl, rfl⟩ := List.cons.inj h
      simp [*]

theorem labelled_eq (label : List Char) (width : Nat) (text : String) :
    labelled label width text = label ++ indented width text.toList := by
  obtain ⟨first, rest, hpieces⟩ := List.exists_cons_of_ne_nil (Text.pieces_ne_nil '\n' text.toList)
  rw [labelled, hpieces, indented_of_pieces hpieces]
  exact List.append_assoc ..

theorem lists_zipIdx (causes : List String) (n : Nat) : Lists n causes
    ((causes.zipIdx n).flatMap fun item => '\n' :: labelled (numberLabel item.2) 7 item.1) := by
  induction causes generalizing n with
  | nil => exact .nil
  | cons cause rest ih =>
    have hlabel : numberLabel n = (Nat.toDigits 10 n).leftpad 5 ' ' ++ ": ".toList := rfl
    rw [List.zipIdx_cons, List.flatMap_cons, labelled_eq, hlabel]
    exact .cons cause (ih (n + 1))

/-- The long text of a diagnostic lists everything that is behind its message. -/
theorem isTrace_report (d : Diagnostic) : IsTrace d.message d.causes d.report := by
  obtain ⟨message, causes⟩ := d
  match causes with
  | [] => exact .alone
  | [cause] =>
    have hlist : listCauses [cause] = "\n    ".toList ++ indented 4 cause.toList :=
      congrArg (List.cons '\n') (labelled_eq _ 4 cause)
    have hreport : report ⟨message, [cause]⟩ =
        message ++ "\n\nCaused by:\n    " ++ String.ofList (indented 4 cause.toList) :=
      calc report ⟨message, [cause]⟩
        _ = message ++ "\n\nCaused by:" ++ String.ofList (listCauses [cause]) := rfl
        _ = message ++ ("\n\nCaused by:" ++ "\n    ") ++
            String.ofList (indented 4 cause.toList) := by
          rw [hlist, String.ofList_append, String.ofList_toList]
          simp only [String.append_assoc]
    exact hreport ▸ .caused cause
  | first :: second :: rest => exact .numbered (lists_zipIdx _ 0)

end LeasedWork.Diagnostic
