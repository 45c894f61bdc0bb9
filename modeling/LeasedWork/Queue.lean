import LeasedWork.Error
import LeasedWork.Text.Blank

/-!
# Queues

A queue is a category of work. It has a number on the wire and a name in settings, records and
logs; a name is read without regard to case, surrounding blanks, or whether words are joined by a
hyphen or an underscore.
-/
namespace LeasedWork

/-- A category of work, which selects the pool and the handlers of a job. -/
inductive Queue where
  | unknown
  | exports
  | imports
  | defrag
  | bulkDelete
  | bulkUpdate
  | reindex
  | transaction
  deriving DecidableEq, Inhabited, Repr

namespace Queue

/-- Every queue, in the order of the wire numbers. -/
def all : List Queue :=
  [unknown, exports, imports, defrag, bulkDelete, bulkUpdate, reindex, transaction]

def number : Queue → Nat
  | unknown => 0
  | exports => 1
  | imports => 2
  | defrag => 3
  | bulkDelete => 4
  | bulkUpdate => 5
  | reindex => 6
  | transaction => 7

def name : Queue → String
  | unknown => "unknown"
  | exports => "export"
  | imports => "import"
  | defrag => "defrag"
  | bulkDelete => "bulk_delete"
  | bulkUpdate => "bulk_update"
  | reindex => "reindex"
  | transaction => "transaction"

def title : Queue → String
  | unknown => "Unknown"
  | exports => "Export"
  | imports => "Import"
  | defrag => "Defrag"
  | bulkDelete => "BulkDelete"
  | bulkUpdate => "BulkUpdate"
  | reindex => "Reindex"
  | transaction => "Transaction"

/-- The queue of exactly this name. -/
def named? (name : List Char) : Option Queue := all.find? fun q => q.name.toList = name

/-- The form in which names are compared: no blanks around it, small letters, underscores. -/
def normalName (text : List Char) : List Char :=
  (Text.trim text).map fun c => if c = '-' then '_' else c.toLower

def parse? (text : List Char) : Option Queue := named? (normalName text)

/-- The error for a text or a number that names no queue. -/
def unknownError (text : String) : Error := .invalidInput ("unknown queue type: " ++ text)

/-- The queue that a text names, or an error that quotes the text. -/
def parse (text : String) : Except Error Queue :=
  match parse? text.toList with
  | some q => .ok q
  | none => .error (unknownError text)

/-- The queue of a wire number, or an error that quotes the number. -/
def ofNumber (n : Nat) : Except Error Queue :=
  match all.find? fun q => q.number = n with
  | some q => .ok q
  | none => .error (unknownError (decimalText n))

theorem named?_name (q : Queue) : named? q.name.toList = some q := by cases q <;> decide

theorem ofNumber_number (q : Queue) : ofNumber q.number = .ok q := by cases q <;> rfl

theorem mem_all (q : Queue) : q ∈ all := by cases q <;> decide

end Queue

end LeasedWork
