import LeasedWork.LogFilter.FieldTest
import LeasedWork.Text.Alphanumeric

/-!
# Directives of log filters

A directive sets the least severe level for some lines, as in `taskhost_jobs[job]=debug`. It may
ask for the target with which theirs begins, for a field, and for the span in which they are
written. A directive that asks for a span or a field opens the spans that are as it says: every
line written in them passes, up to its level. One that asks for neither a span nor a value also
decides about the lines themselves.
-/
namespace LeasedWork

/-- A threshold for some lines; no level at all switches them off. -/
structure Directive where
  /-- What the target has to begin with. -/
  target : Option (List Char)
  /-- The name of the span. -/
  span : Option (List Char)
  field : Option FieldTest
  threshold : Option Level
  deriving DecidableEq, Inhabited, Repr

namespace Directive

/-- The levels that a word or a number can stand for, the numbers from zero. -/
def levels : List (List Char × Option Level) :=
  [("off".toList, none), ("error".toList, some .error), ("warn".toList, some .warn),
   ("info".toList, some .info), ("debug".toList, some .debug), ("trace".toList, some .trace)]

def level? (text : List Char) : Option (Option Level) :=
  match Number.count? text with
  | some n => (levels[n]?).map (·.2)
  | none => levels.lookup (text.map Char.toLower)

/-- The level behind an equals sign; nothing there stands for every level. -/
def levelPart? : List Char → Option (Option Level)
  | [] => some (some .trace)
  | text => level? text

/-- Whether a character can begin a directive. -/
def isStart (c : Char) : Bool := Text.isAlphanumeric c || c = '-' || c = ':' || c = '_'

def width (text : List Char) : Nat := text.foldl (fun n c => n + c.utf8Size) 0

/-- A text after so many bytes, unless they end inside a character or go too far. -/
def from? : Nat → List Char → Option (List Char)
  | 0, text => some text
  | _, [] => none
  | n, c :: rest => if c.utf8Size ≤ n then from? (n - c.utf8Size) rest else none

/-- The first bytes of a text, unless they end inside a character or go too far. -/
def upTo? : Nat → List Char → Option (List Char)
  | 0, _ => some []
  | _, [] => none
  | n, c :: rest =>
    if c.utf8Size ≤ n then (upTo? (n - c.utf8Size) rest).map (c :: ·) else none

/-- The part of a text between two places, given in bytes. -/
def part? (text : List Char) (start stop : Nat) : Option (List Char) :=
  (from? start text).bind (upTo? (stop - start))

/-- The directive that ends after a span: with nothing, or with a level behind an equals sign at a
place. -/
def afterSpan? (text : List Char) (place : Nat) (d : Directive) : List Char → Option Directive
  | [] => some d
  | '=' :: _ => do
    let level ← levelPart? (← from? (place + 1) text)
    some { d with threshold := level }
  | _ => none

/-- The directive that goes on after the bracket that opens its span, at a place. -/
def withSpan? (text : List Char) (place : Nat) (target : Option (List Char)) (rest : List Char) :
    Option Directive := do
  let isNameChar (c : Char) : Bool := c ≠ ']' && c ≠ '\x7b'
  let stop := place + width (rest.takeWhile isNameChar)
  let span ← part? text place stop
  match rest.dropWhile isNameChar with
  | ']' :: rest => afterSpan? text (stop + 1) ⟨target, some span, none, some .trace⟩ rest
  | '\x7b' :: rest =>
    let (written, ']' :: rest) ← Text.cut? '\x7d' rest | none
    let fieldStop := stop + 1 + width written
    let field ← part? text (stop + 1) fieldStop
    if field = [] then none
    let test ← FieldTest.read? field
    afterSpan? text (fieldStop + 2)
      ⟨target, if span = [] then none else some span, some test, some .trace⟩ rest
  | _ => none

/-- The directive that a text stands for. Where its parts begin and end is found without the blanks
around it, but they are cut out of the text with its blanks, so that blanks before it shift them. -/
def read? (text : List Char) : Option Directive :=
  match Text.trim text with
  | [] => none
  | '[' :: rest => withSpan? text 1 none rest
  | c :: cs =>
    if !isStart c then none
    else
      let isWordChar (c : Char) : Bool := c ≠ '=' && c ≠ '['
      let stop := width ((c :: cs).takeWhile isWordChar)
      match (c :: cs).dropWhile isWordChar with
      | [] =>
        match level? text with
        | some level => some ⟨none, none, none, level⟩
        | none => some ⟨some text, none, none, some .trace⟩
      | '=' :: _ => do
        let target ← part? text 0 stop
        let level ← levelPart? (← from? (stop + 1) text)
        some ⟨some target, none, none, level⟩
      | _ :: rest => do withSpan? text (stop + 1) (← part? text 0 stop) rest

def isDynamic (d : Directive) : Bool := d.span.isSome || d.field.isSome

def isStatic (d : Directive) : Bool := d.span.isNone && d.field.all (·.value.isNone)

/-- Whether a directive asks for the value of a field. -/
def asksForValue (d : Directive) : Bool := d.field.any (·.value.isSome)

/-- Whether a target begins as a directive asks. -/
def admitsTarget (d : Directive) (target : String) : Bool :=
  d.target.all (·.isPrefixOf target.toList)

/-- Whether a directive that decides about lines applies to one; the message is a field. -/
def appliesTo (d : Directive) (line : LogLine) : Bool :=
  d.admitsTarget line.target &&
    d.field.all fun test => test.passes (("message", .text line.message) :: line.fields)

def opens (d : Directive) (span : Span) : Bool :=
  d.isDynamic && d.admitsTarget span.target && d.span.all (· = span.name.toList) &&
    d.field.all (·.passes span.fields)

def lets (d : Directive) (level : Level) : Bool := d.threshold.any level.isWithin

/-- How closely a directive describes lines: by a target, and how long it is, and then by a
field. -/
def closeness (d : Directive) : Nat × Nat :=
  ((d.target.map fun target => width target + 1).getD 0, if d.field.isSome then 1 else 0)

/-- The target and the name of the field, which decide between equally close directives. -/
def spelling (d : Directive) : List Char × List Char :=
  (d.target.getD [], (d.field.map (·.name)).getD [])

/-- Whether a directive gives way to one that was given later. -/
def givesWay (d later : Directive) : Bool :=
  let (a, m) := d.closeness
  let (b, n) := later.closeness
  let (s, u) := d.spelling
  let (t, v) := later.spelling
  a < b || a = b && (m < n || m = n && (s < t || s = t && (u < v || u = v)))

/-- Whether a directive is about the same as another one, at whatever level. -/
def isAbout (d other : Directive) : Bool :=
  d.target = other.target && d.span = other.span && d.field = other.field

end Directive

end LeasedWork
