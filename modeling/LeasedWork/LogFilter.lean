import LeasedWork.LogFilter.Directive

/-!
# Log filters

A filter is a list of directives such as `warn,taskhost_jobs=debug`. A line passes if a directive
lets it pass in the span where it is written. Else the closest of the directives that apply to it
decides, and a line to which none applies is left out.
-/
namespace LeasedWork

/-- A filter. -/
structure LogFilter where
  directives : List Directive
  deriving DecidableEq, Inhabited, Repr

namespace LogFilter

/-- The filter that a text stands for, if each of its directives is well formed. -/
def parse? (text : String) : Option LogFilter :=
  (((Text.pieces ',' text.toList).filter (· ≠ [])).mapM Directive.read?).map LogFilter.mk

/-- The filter that lets the program's own lines through from the level of information up. -/
def default : LogFilter where
  directives :=
    ["taskhost", "taskhost_jobs"].map fun target => ⟨some target.toList, none, none, some .info⟩

/-- The filter that a variable gives; the default if it is not set or not well formed. -/
def ofVariable (value : Option String) : LogFilter := (value.bind parse?).getD default

/-- The directive that decides about a line: the closest one, of equally close ones the one spelled
last, and of those spelled alike the last. -/
def deciding? (filter : LogFilter) (line : LogLine) : Option Directive :=
  (filter.directives.filter fun d => d.isStatic && d.appliesTo line).foldl
    (fun best d => match best with
      | none => some d
      | some b => if b.givesWay d then some d else some b)
    none

/-- The directives without those that are followed by another one about the same. -/
def latest : List Directive → List Directive
  | [] => []
  | d :: rest => if rest.any d.isAbout then latest rest else d :: latest rest

/-- Whether a filter takes note of a span: it asks for values, which are known only inside, or some
level goes as far as that of the span. -/
def notes (filter : LogFilter) (span : Span) : Bool :=
  filter.directives.any fun d => d.asksForValue || d.lets span.level

/-- Whether lines of a level pass in a span, whatever they are. -/
def isOpen (filter : LogFilter) (span : Span) (level : Level) : Bool :=
  filter.notes span && (latest filter.directives).any fun d => d.opens span && d.lets level

/-- Whether a filter lets a line through that was written in a span or in none. -/
def admits (filter : LogFilter) (span : Option Span) (line : LogLine) : Bool :=
  span.any (filter.isOpen · line.level) || (filter.deciding? line).any (·.lets line.level)

def admitsEntry (filter : LogFilter) (entry : LogEntry) : Bool :=
  filter.admits entry.span entry.line

end LogFilter

end LeasedWork
