import LeasedWork.Proofs.Json.Members
import LeasedWork.Proofs.Time.Stamps

/-!
# Job records read back

A record is read back from its text with every member as it was: strings of any characters,
integers up to the limits of a word, absent members, and dates to the nanosecond. The text has a
known shape, the members are found in it by name, and the reader of each undoes its writer. A
record that was read from another text, with its members in another order or its dates at another
offset, has integers of 64 bits and so is read back from its own text as well.
-/
namespace LeasedWork

open Json (Tree IsRead IsMember escape isSigned64)
open Time (Instant)

/-! ## Stamps in records -/

namespace Json

theorem writeChar_of_isStampChar {c : Char} (h : Time.Instant.isStampChar c = true) :
    writeChar c = [c] := by
  have hrange : 45 ≤ c.toNat ∧ c.toNat ≤ 90 := by
    simpa [Time.Instant.isStampChar, Char.le_def, UInt32.le_iff_toNat_le] using h
  apply writeChar_of_ne _ _ (by omega)
  · rintro rfl
    exact absurd h (by decide)
  · rintro rfl
    exact absurd h (by decide)

end Json

namespace Time

/-- The shape of a stamp in a record. -/
def Instant.shape (t : Instant) : Tree := .string (escape t.stamp)

variable {t : Instant}

/-- A stamp has no character that is written otherwise in a string. -/
theorem Instant.escape_stamp (h : t.IsPlain) : escape t.stamp = t.stamp := by
  have hplain : ∀ c ∈ t.stamp, Json.writeChar c = [c] := by
    intro c hc
    have hrange := List.all_eq_true.mp (Instant.all_stamp h) c hc
    exact Json.writeChar_of_isStampChar hrange
  rw [escape, List.flatMap_congr hplain, List.flatMap_singleton']

theorem isRead_stamp (depth : Nat) (h : t.IsPlain) : IsRead depth (writeStamp t) t.shape := by
  have hstring := Json.isRead_string depth (String.ofList t.stamp)
  rw [String.toList_ofList] at hstring
  have htext : writeStamp t = Json.writeString (String.ofList t.stamp) := by
    have hbody : (String.ofList t.stamp).toList.flatMap Json.writeChar = t.stamp := by
      rw [String.toList_ofList]
      exact Instant.escape_stamp h
    rw [writeStamp, Json.writeString, hbody]
  rw [htext]
  exact hstring

theorem readStamp?_shape (h : t.IsPlain) : readStamp? t.shape = some t := by
  have hstring := Json.string?_escape (String.ofList t.stamp)
  rw [String.toList_ofList] at hstring
  rw [readStamp?, Instant.shape, hstring, Option.bind_some, String.toList_ofList]
  exact Instant.ofStamp?_stamp h

end Time

namespace Job

variable {job : Job} {text : String}

/-- Whether a signed word of 64 bits holds each integer of a record. -/
structure HasWords (job : Job) : Prop where
  id : isSigned64 job.id = true
  group : ∀ g ∈ job.group, isSigned64 g = true
  version : isSigned64 job.version = true
  priority : isSigned64 job.priority = true

/-- Whether the dates of a record lie in the years 0 to 9999 and in no leap second. -/
structure HasPlainDates (job : Job) : Prop where
  created : job.created.IsPlain
  started : ∀ t ∈ job.started, t.IsPlain
  ended : ∀ t ∈ job.ended, t.IsPlain
  beat : job.beat.IsPlain

/-- The members of a record with their shapes. -/
def shapes (job : Job) : List (String × Tree) :=
  [("id", .number (.ofInt job.id)),
   ("queue_type", .string (escape job.queue.name.toList)),
   ("group_id", (job.group.map fun g => .number (.ofInt g)).getD .null),
   ("version", .number (.ofInt job.version)),
   ("status", .string (escape job.status.name.toList)),
   ("priority", .number (.ofInt job.priority)),
   ("definition", (job.definition.map fun s => .string (escape s.toList)).getD .null),
   ("result", (job.result.map fun s => .string (escape s.toList)).getD .null),
   ("worker", (job.worker.map fun s => .string (escape s.toList)).getD .null),
   ("create_date", job.created.shape),
   ("start_date", (job.started.map Instant.shape).getD .null),
   ("end_date", (job.ended.map Instant.shape).getD .null),
   ("heartbeat_date_time", job.beat.shape),
   ("cancel_requested", .bool job.cancelRequested)]

/-- The shape of the text of a record. -/
def shape (job : Job) : Tree := .object (job.shapes.map fun m => (escape m.1.toList, m.2))

theorem isRead_write (depth : Nat) (h : job.HasPlainDates) :
    IsRead (depth + 1) job.write job.shape := by
  have hinteger (name : String) (n : Int) :
      IsMember depth (name, Text.digitsOfInt n) (escape name.toList, .number (.ofInt n)) :=
    ⟨rfl, Json.isRead_integer depth n⟩
  have hstring (name s : String) :
      IsMember depth (name, Json.writeString s) (escape name.toList, .string (escape s.toList)) :=
    ⟨rfl, Json.isRead_string depth s⟩
  have hgroup (name : String) (a : Option Int) :
      IsMember depth (name, writeOptional Text.digitsOfInt a)
        (escape name.toList, (a.map fun n => .number (.ofInt n)).getD .null) :=
    ⟨rfl, Json.isRead_optional fun n _ => Json.isRead_integer depth n⟩
  have htext (name : String) (a : Option String) :
      IsMember depth (name, writeOptional Json.writeString a)
        (escape name.toList, (a.map fun s => .string (escape s.toList)).getD .null) :=
    ⟨rfl, Json.isRead_optional fun s _ => Json.isRead_string depth s⟩
  have hstamp (name : String) {t : Instant} (ht : t.IsPlain) :
      IsMember depth (name, writeStamp t) (escape name.toList, t.shape) :=
    ⟨rfl, Time.isRead_stamp depth ht⟩
  have hdate (name : String) {a : Option Instant} (ha : ∀ t ∈ a, t.IsPlain) :
      IsMember depth (name, writeOptional writeStamp a)
        (escape name.toList, (a.map Instant.shape).getD .null) :=
    ⟨rfl, Json.isRead_optional fun t ht => Time.isRead_stamp depth (ha t ht)⟩
  apply Json.isRead_object
  exact .cons (hinteger _ _) (.cons (hstring _ _) (.cons (hgroup _ _) (.cons (hinteger _ _)
    (.cons (hstring _ _) (.cons (hinteger _ _) (.cons (htext _ _) (.cons (htext _ _)
    (.cons (htext _ _) (.cons (hstamp _ h.created) (.cons (hdate _ h.started)
    (.cons (hdate _ h.ended) (.cons (hstamp _ h.beat)
    (.cons ⟨rfl, Json.isRead_bool depth _⟩ .nil)))))))))))))

theorem members?_shape (job : Job) : job.shape.members? memberNames = some job.shapes := by
  apply Json.knownMembers?_escape
  · change memberNames.Nodup
    decide
  · intro m hm
    exact List.mem_map_of_mem hm

theorem ofMembers?_shapes (hwords : job.HasWords) (hdates : job.HasPlainDates) :
    ofMembers? job.shapes = some job := by
  have hid : Json.required? Tree.integer? "id" job.shapes = some job.id :=
    Json.required?_of_lookup rfl (Json.integer?_ofInt hwords.id)
  have hqueue : Json.required? (Tree.constant? Queue.named?) "queue_type" job.shapes =
      some job.queue :=
    Json.required?_of_lookup rfl ((Json.constant?_escape _ _).trans (Queue.named?_name _))
  have hgroup : Json.absentable? Tree.integer? "group_id" job.shapes = some job.group :=
    Json.absentable?_of_lookup rfl (fun _ hg => Json.integer?_ofInt (hwords.group _ hg)) nofun
  have hversion : Json.required? Tree.integer? "version" job.shapes = some job.version :=
    Json.required?_of_lookup rfl (Json.integer?_ofInt hwords.version)
  have hstatus : Json.required? (Tree.constant? Status.named?) "status" job.shapes =
      some job.status :=
    Json.required?_of_lookup rfl ((Json.constant?_escape _ _).trans (Status.named?_name _))
  have hpriority : Json.required? Tree.integer? "priority" job.shapes = some job.priority :=
    Json.required?_of_lookup rfl (Json.integer?_ofInt hwords.priority)
  have hdefinition : Json.absentable? Tree.string? "definition" job.shapes = some job.definition :=
    Json.absentable?_of_lookup rfl (fun s _ => Json.string?_escape s) nofun
  have hresult : Json.absentable? Tree.string? "result" job.shapes = some job.result :=
    Json.absentable?_of_lookup rfl (fun s _ => Json.string?_escape s) nofun
  have hworker : Json.absentable? Tree.string? "worker" job.shapes = some job.worker :=
    Json.absentable?_of_lookup rfl (fun s _ => Json.string?_escape s) nofun
  have hcreated : Json.required? readStamp? "create_date" job.shapes = some job.created :=
    Json.required?_of_lookup rfl (Time.readStamp?_shape hdates.created)
  have hstarted : Json.absentable? readStamp? "start_date" job.shapes = some job.started :=
    Json.absentable?_of_lookup rfl (fun _ ht => Time.readStamp?_shape (hdates.started _ ht)) nofun
  have hended : Json.absentable? readStamp? "end_date" job.shapes = some job.ended :=
    Json.absentable?_of_lookup rfl (fun _ ht => Time.readStamp?_shape (hdates.ended _ ht)) nofun
  have hbeat : Json.required? readStamp? "heartbeat_date_time" job.shapes = some job.beat :=
    Json.required?_of_lookup rfl (Time.readStamp?_shape hdates.beat)
  have hrequested : Json.required? Tree.bool? "cancel_requested" job.shapes =
      some job.cancelRequested :=
    Json.required?_of_lookup rfl rfl
  simp only [ofMembers?, hid, hqueue, hgroup, hversion, hstatus, hpriority, hdefinition, hresult,
    hworker, hcreated, hstarted, hended, hbeat, hrequested, Option.bind_eq_bind, Option.bind_some]

theorem read?_write (hwords : job.HasWords) (hdates : job.HasPlainDates) :
    read? (String.ofList job.write) = some job := by
  obtain ⟨c, rest, hcons, -⟩ := (isRead_write 0 hdates).first
  have hlength : (String.ofList job.write).length = rest.length + 1 := by
    rw [String.length_ofList, hcons, List.length_cons]
  rw [read?, String.toList_ofList, hlength, (isRead_write _ hdates).read?, Option.bind_some,
    members?_shape, Option.bind_some, ofMembers?_shapes hwords hdates]

theorem hasWords_of_read? (h : read? text = some job) : job.HasWords := by
  obtain ⟨members, -, h⟩ := Option.bind_eq_some_iff.mp h
  obtain ⟨id, hid, h⟩ := Option.bind_eq_some_iff.mp h
  obtain ⟨queue, -, h⟩ := Option.bind_eq_some_iff.mp h
  obtain ⟨group, hgroup, h⟩ := Option.bind_eq_some_iff.mp h
  obtain ⟨version, hversion, h⟩ := Option.bind_eq_some_iff.mp h
  obtain ⟨status, -, h⟩ := Option.bind_eq_some_iff.mp h
  obtain ⟨priority, hpriority, h⟩ := Option.bind_eq_some_iff.mp h
  obtain ⟨definition, -, h⟩ := Option.bind_eq_some_iff.mp h
  obtain ⟨result, -, h⟩ := Option.bind_eq_some_iff.mp h
  obtain ⟨worker, -, h⟩ := Option.bind_eq_some_iff.mp h
  obtain ⟨created, -, h⟩ := Option.bind_eq_some_iff.mp h
  obtain ⟨started, -, h⟩ := Option.bind_eq_some_iff.mp h
  obtain ⟨ended, -, h⟩ := Option.bind_eq_some_iff.mp h
  obtain ⟨beat, -, h⟩ := Option.bind_eq_some_iff.mp h
  obtain ⟨requested, -, h⟩ := Option.bind_eq_some_iff.mp h
  obtain rfl := Option.some.inj h
  obtain ⟨tree, -, hid⟩ := Option.bind_eq_some_iff.mp hid
  obtain ⟨_, -, hversion⟩ := Option.bind_eq_some_iff.mp hversion
  obtain ⟨_, -, hpriority⟩ := Option.bind_eq_some_iff.mp hpriority
  refine ⟨Json.isSigned64_of_integer? hid, ?_, Json.isSigned64_of_integer? hversion,
    Json.isSigned64_of_integer? hpriority⟩
  rintro g rfl
  obtain ⟨tree, hread⟩ := Json.exists_read_of_absentable? hgroup
  exact Json.isSigned64_of_integer? hread

/-- A record with dates of four-digit years is read back from its text as it was, and a record
that any text holds is read back from the text that it is written as. -/
theorem read?_write_eq_self :
    (∀ job : Job, job.HasWords → job.HasPlainDates → read? (String.ofList job.write) = some job) ∧
      ∀ text job, read? text = some job → job.HasPlainDates →
        read? (String.ofList job.write) = some job :=
  ⟨fun _ hwords hdates => read?_write hwords hdates,
    fun _ _ hread hdates => read?_write (hasWords_of_read? hread) hdates⟩

/-- A record at the limits of what can be written. -/
def extreme : Job where
  id := -9223372036854775808
  queue := .bulkDelete
  group := some 9223372036854775807
  version := 0
  status := .failed
  priority := -1
  definition := some "\x7b\"a\":\"\\u00e9 \\\\\"\x7d"
  result := some "\x00\x1f\n\t\"é\u2028😀"
  worker := none
  created := ⟨-62167219200, 1⟩
  started := some ⟨0, 120000000⟩
  ended := some ⟨1700000000, 123456000⟩
  beat := ⟨253402300799, 999999999⟩
  cancelRequested := true

/-- A text of a record with its members in another order, dates at other offsets, characters by
their codes, a queue as an object, and a member that no record has. -/
def foreignText : String :=
  "\x7b\"extra\":[[\x7b\"n\":1e999\x7d]],\"cancel_requested\":false,\"status\":\"cr\\u0065ated\"," ++
  "\"queue_type\":\x7b\"reindex\":null\x7d,\"version\":7,\"id\":42,\"priority\":-3," ++
  "\"worker\":\"\\ud83d\\ude00\",\"create_date\":\"2024-02-29T23:30:00.5-01:30\"," ++
  "\"heartbeat_date_time\":\"+1970-1-1t0:0:0z\"\x7d"

/-- The record of that text. -/
def foreign : Job :=
  { new 42 .reindex ⟨0, 0⟩ with
    version := 7, priority := -3, worker := some "😀", created := ⟨1709254800, 500000000⟩ }

theorem read?_write_eq_self_extreme :
    (extreme.HasWords ∧ extreme.HasPlainDates ∧
        read? (String.ofList extreme.write) = some extreme) ∧
      read? foreignText = some foreign ∧ foreign.HasPlainDates ∧
        read? (String.ofList foreign.write) = some foreign := by
  have hwords : extreme.HasWords := ⟨by decide, by decide, by decide, by decide⟩
  have hdates : extreme.HasPlainDates := by
    refine ⟨⟨by decide, by decide⟩, ?_, ?_, ⟨by decide, by decide⟩⟩
    · rintro t ⟨⟩
      exact ⟨by decide, by decide⟩
    · rintro t ⟨⟩
      exact ⟨by decide, by decide⟩
  have hread : read? foreignText = some foreign := by decide +kernel
  have hforeign : foreign.HasPlainDates :=
    ⟨⟨by decide, by decide⟩, nofun, nofun, ⟨by decide, by decide⟩⟩
  exact ⟨⟨hwords, hdates, read?_write_eq_self.1 extreme hwords hdates⟩,
    hread, hforeign, read?_write_eq_self.2 foreignText foreign hread hforeign⟩

end Job

end LeasedWork
