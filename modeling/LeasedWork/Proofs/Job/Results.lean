import LeasedWork.Engine.Disposition
import LeasedWork.Engine.Handler
import LeasedWork.Proofs.Job.Traces
import LeasedWork.Proofs.Json.Members
import LeasedWork.Proofs.Json.Values

/-!
# What results tell

The result of a job says how its handler ended. A text is the result itself; the value of a
failure and the report on an unclassified one are written so that they can be read back; and only a
handler that was cancelled has no result. Whose fault a failure was does not show in it.
-/
namespace LeasedWork

open Json (Tree Value IsRead IsMember escape depthLimit)

/-! ## Reports -/

namespace FailureReport

variable {r : FailureReport}

/-- The members of a report with their shapes. -/
def shapes (r : FailureReport) : List (String × Tree) :=
  [("message", .string (escape r.message.toList)), ("stack_trace", .string (escape r.trace.toList))]

theorem write_eq_writeRecord (r : FailureReport) : r.write = writeRecord
    [("message", Json.writeString r.message), ("stack_trace", Json.writeString r.trace)] := by
  have hrecord (first second : List Char)
      (hfirst : first = '\x7b' :: (Json.writeString "message" ++ [':']))
      (hsecond : second = ',' :: (Json.writeString "stack_trace" ++ [':'])) :
      first ++ Json.writeString r.message ++ second ++ Json.writeString r.trace ++ ['\x7d'] =
        writeRecord
          [("message", Json.writeString r.message), ("stack_trace", Json.writeString r.trace)] := by
    subst hfirst hsecond
    simp [writeRecord]
  exact hrecord _ _ (by decide) (by decide)

theorem isRead_write (depth : Nat) (r : FailureReport) : IsRead (depth + 1) r.write
    (.object (r.shapes.map fun m => (escape m.1.toList, m.2))) := by
  have hstring (name s : String) :
      IsMember depth (name, Json.writeString s) (escape name.toList, .string (escape s.toList)) :=
    ⟨rfl, Json.isRead_string depth s⟩
  rw [write_eq_writeRecord]
  apply Json.isRead_object
  exact .cons (hstring _ _) (.cons (hstring _ _) .nil)

/-- A report is read back from its text, whatever characters it has. -/
theorem read?_write (r : FailureReport) : read? (String.ofList r.write) = some r := by
  obtain ⟨c, rest, hcons, -⟩ := (isRead_write 0 r).first
  have hlength : (String.ofList r.write).length = rest.length + 1 := by
    rw [String.length_ofList, hcons, List.length_cons]
  have hmembers : Tree.members? ["message", "stack_trace"]
      (.object (r.shapes.map fun m => (escape m.1.toList, m.2))) = some r.shapes := by
    apply Json.knownMembers?_escape
    · change ["message", "stack_trace"].Nodup
      decide
    · exact fun m hm => List.mem_map_of_mem hm
  have hmessage : Json.required? Tree.string? "message" r.shapes = some r.message :=
    Json.required?_of_lookup rfl (Json.string?_escape _)
  have htrace : Json.required? Tree.string? "stack_trace" r.shapes = some r.trace :=
    Json.required?_of_lookup rfl (Json.string?_escape _)
  simp only [read?, String.toList_ofList, hlength, (isRead_write _ r).read?, hmembers, hmessage,
    htrace, Option.bind_eq_bind, Option.bind_some]

end FailureReport

/-! ## Outcomes -/

namespace Outcome

open Engine (Disposition panicOutcome)

variable {o : Outcome}

/-- The outcome with a failure laid to the customer. -/
def causedByCustomer : Outcome → Outcome
  | .ok text => .ok text
  | .error failure => .error failure.causedByCustomer

/-- The words in which a panic is reported. -/
def panicMessage (message : Option String) : String :=
  "job handler panicked: " ++ message.getD "unknown panic payload"

/-- Whether a result tells of an outcome all that the submitter is to know. -/
structure IsToldBy (o : Outcome) (result : Option String) : Prop where
  text : ∀ text, o = .ok text → result = some text
  /-- The value of a failure is read back, unless its text does not keep it. -/
  value : ∀ v byCustomer, o = .error (.failed v byCustomer) ∨ o = .error (.softFailed v byCustomer) →
    ∃ text, result = some text ∧ (v.IsExact depthLimit → Value.read? text = some v)
  /-- The report on an unclassified failure is read back, and its trace lists all the causes. -/
  report : ∀ d, o = .error (.unclassified d) → ∃ text trace, result = some text ∧
    FailureReport.read? text = some ⟨d.message, trace⟩ ∧ Diagnostic.IsTrace d.message d.causes trace
  /-- A panic has no causes, so its words are all of the trace. -/
  panic : ∀ message, o = panicOutcome message → ∃ text, result = some text ∧
    FailureReport.read? text = some ⟨panicMessage message, panicMessage message⟩
  none : o = .error .cancelled → result = none

theorem isToldBy_result? (o : Outcome) : o.IsToldBy o.result? := by
  have hreport : ∀ d, o = .error (.unclassified d) →
      ∃ text, o.result? = some text ∧ FailureReport.read? text = some ⟨d.message, d.report⟩ := by
    rintro d rfl
    exact ⟨_, rfl, FailureReport.read?_write ⟨d.message, d.report⟩⟩
  constructor
  case text =>
    rintro text rfl
    rfl
  case value =>
    rintro v byCustomer (rfl | rfl)
    · exact ⟨v.text, rfl, Value.IsExact.read?_text⟩
    · exact ⟨v.text, rfl, Value.IsExact.read?_text⟩
  case report =>
    intro d h
    obtain ⟨text, hresult, hread⟩ := hreport d h
    exact ⟨text, d.report, hresult, hread, d.isTrace_report⟩
  case panic => exact fun message h => hreport _ h
  case none =>
    rintro rfl
    rfl

/-- Only a handler that was cancelled has no result. -/
theorem result?_eq_none_iff : o.result? = none ↔ o = .error .cancelled := by
  rcases o with (_ | _ | _ | _) | _ <;> simp [result?, Failure.payload?]

theorem result?_causedByCustomer (o : Outcome) : o.causedByCustomer.result? = o.result? := by
  cases o with
  | ok text => rfl
  | error failure => exact failure.payload?_causedByCustomer

theorem classify_causedByCustomer (o : Outcome) (abandoned shutdown : Bool) :
    Disposition.classify o.causedByCustomer abandoned shutdown =
      Disposition.classify o abandoned shutdown := by
  rcases o with (_ | _ | _ | _) | _ <;> rfl

/-- An outcome for which a job is completed or failed has a result. -/
theorem exists_result? {abandoned shutdown : Bool} {d : Disposition}
    (h : Disposition.classify o abandoned shutdown = some d) (hd : d ≠ .cancelled) :
    ∃ text, o.result? = some text := by
  rw [← Option.ne_none_iff_exists', Ne, result?_eq_none_iff]
  rintro rfl
  apply hd
  cases abandoned <;> cases shutdown <;> simp_all [Disposition.classify]

end Outcome

end LeasedWork
