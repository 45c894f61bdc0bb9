import LeasedWork.Settings.Environment
import LeasedWork.Text.Alphanumeric
import LeasedWork.Text.Blank
import LeasedWork.Text.Digits

/-!
# Files of variables

A file may add variables to an environment, one `NAME=value` on a line, perhaps after the word
`export`. A variable that is set already keeps its value. Values can be quoted, hold escapes, run
over several lines, and refer to other variables; a comment starts at a number sign after a blank.
A line that is not well formed ends the reading, and the lines before it count.
-/
namespace LeasedWork.VariableFile

/-- How the characters read so far of a line leave it. -/
inductive LineState where
  | complete
  /-- After a blank, where a comment may start. -/
  | blank
  | escape
  | single
  | singleEscape
  | double
  | doubleEscape
  deriving DecidableEq, Inhabited, Repr

def LineState.next (state : LineState) (c : Char) : LineState :=
  match state with
  | escape => complete
  | single => if c = '\\' then singleEscape else if c = '\'' then complete else single
  | singleEscape => single
  | double => if c = '\\' then doubleEscape else if c = '"' then complete else double
  | doubleEscape => double
  | complete | blank =>
    if c = '\\' then escape
    else if c = '"' then double
    else if c = '\'' then single
    else if state = complete ∧ Text.isBlank c ∧ c ≠ '\n' ∧ c ≠ '\r' then blank
    else complete

/-- The part of a physical line before a comment, and how it leaves the line; nothing if there was
a comment. -/
def scan : LineState → List Char → List Char × Option LineState
  | state, [] => ([], some state)
  | state, c :: rest =>
    if state = .blank ∧ c = '#' then ([], none)
    else
      let (kept, last) := scan (state.next c) rest
      (c :: kept, last)

/-- The physical lines of a text, each with the line feed that ends it. -/
def physicalLines : List Char → List (List Char)
  | [] => []
  | c :: rest =>
    if c = '\n' then [c] :: physicalLines rest
    else match physicalLines rest with
      | [] => [[c]]
      | line :: lines => (c :: line) :: lines

/-- A line without the line feed at its end, and a carriage return before that. -/
def chomp (line : List Char) : List Char :=
  match line.reverse with
  | '\n' :: '\r' :: rest => rest.reverse
  | '\n' :: rest => rest.reverse
  | _ => line

/-- The lines of a file, put together from physical lines; a last line that is not complete is
missing. The first two arguments say what was read of the current one. -/
def lines : List Char → LineState → List (List Char) → List (Option (List Char))
  | _, state, [] => if state = .complete then [] else [none]
  | before, state, line :: rest =>
    if (Text.trimStart (before ++ line)).head? = some '#' then
      some [] :: lines [] .complete rest
    else match scan state line with
      | (kept, none) => some (before ++ kept) :: lines [] .complete rest
      | (_, some .complete) => some (chomp (before ++ line)) :: lines [] .complete rest
      | (_, some state) => lines (before ++ line) state rest

/-- Where the reading of a value stands. -/
inductive Place where
  | plain
  /-- After a backslash. -/
  | escape
  /-- Inside single quotes. -/
  | single
  /-- Inside the name of a variable after a dollar sign. -/
  | name (name : List Char)
  /-- Inside the name of a variable in braces. -/
  | bracedName (name : List Char)
  /-- After the blank that ends the value. -/
  | over
  | comment
  deriving DecidableEq, Inhabited, Repr

/-- A value that is being read. -/
structure Reading where
  place : Place
  /-- Whether double quotes are open. -/
  quoted : Bool
  value : List Char
  deriving DecidableEq, Inhabited, Repr

namespace Reading

def start : Reading := ⟨.plain, false, []⟩

def push (r : Reading) (text : List Char) : Reading :=
  { r with place := .plain, value := r.value ++ text }

/-- Whether a character can stand in a name after a dollar sign; letters of any script can. -/
def isNameChar (c : Char) : Bool := Text.isAlphanumeric c

/-- Reads one more character of a value; `lookup` gives the values of variables. -/
def next? (lookup : List Char → List Char) (r : Reading) (c : Char) : Option Reading :=
  match r.place with
  | .comment => some r
  | .over =>
    if c = ' ' ∨ c = '\t' then some r
    else if c = '#' then some { r with place := .comment }
    else none
  | .escape =>
    if c = 'n' then some (r.push ['\n'])
    else if c ∈ ['\\', '\'', '"', '$', ' '] then some (r.push [c])
    else none
  | .single => if c = '\'' then some { r with place := .plain } else
    some { r with value := r.value ++ [c] }
  | .name name =>
    if isNameChar c then some { r with place := .name (name ++ [c]) }
    else if c = '\x7b' ∧ name = [] then some { r with place := .bracedName [] }
    else if c = '$' then some { r.push (lookup name) with place := .name [] }
    else some (r.push (lookup name ++ [c]))
  | .bracedName name =>
    if c = '\x7d' then some (r.push (lookup name))
    else some { r with place := .bracedName (name ++ [c]) }
  | .plain =>
    if c = '$' then some { r with place := .name [] }
    else if c = '\\' then some { r with place := .escape }
    else if c = '"' then some { r with quoted := !r.quoted }
    else if r.quoted then some (r.push [c])
    else if c = '\'' then some { r with place := .single }
    else if c = ' ' ∨ c = '\t' then some { r with place := .over }
    else some (r.push [c])

/-- The value that was read, if no quote or brace is open. -/
def finish? (lookup : List Char → List Char) (r : Reading) : Option (List Char) :=
  if r.quoted then none
  else match r.place with
    | .single | .bracedName _ => none
    | .name name => some (r.value ++ lookup name)
    | .plain | .escape | .over | .comment => some r.value

end Reading

def value? (lookup : List Char → List Char) (text : List Char) : Option (List Char) :=
  (text.foldlM (Reading.next? lookup) .start).bind (Reading.finish? lookup)

/-- Whether a character can begin the name of a variable. -/
def isNameStart (c : Char) : Bool := c.isAlpha || c = '_'

/-- Whether a character can stand in the name of a variable. -/
def isNameRest (c : Char) : Bool := c.isAlphanum || c = '_' || c = '.'

/-- The name at the beginning of a text, and what follows the blanks after it. -/
def name? (text : List Char) : Option (List Char × List Char) :=
  if text.head?.any isNameStart then
    some (text.takeWhile isNameRest, Text.trimStart (text.dropWhile isNameRest))
  else none

/-- The word that may stand before a name. -/
def exportWord : List Char := "export".toList

/-- The name on a line and the text behind the equals sign. The word `export` is itself a name if
an equals sign follows it. -/
def assignment? (line : List Char) : Option (List Char × List Char) := do
  let (name, rest) ← name? line
  match rest with
  | '=' :: rest => some (name, rest)
  | _ =>
    if name = exportWord then
      match ← name? rest with
      | (name, '=' :: rest) => some (name, rest)
      | _ => none
    else none

/-- What a reference to a name gives. An equals sign in the name ends the name of the variable; the
value of the variable must then begin with what stands behind that sign and with another equals
sign, and the rest of the value is what the reference gives. -/
def referent? (env : Environment) (name : List Char) : Option (List Char) :=
  let value? := (env.text? (String.ofList (name.takeWhile (· ≠ '=')))).map String.toList
  match name.dropWhile (· ≠ '=') with
  | [] => value?
  | _ :: start => value?.bind (start ++ ['=']).isPrefixOf?

/-- What a line does to an environment; nothing if it is not well formed. -/
def addLine? (env : Environment) (line : List Char) : Option Environment :=
  match Text.trim line with
  | [] => some env
  | '#' :: _ => some env
  | line => do
    let (name, rest) ← assignment? line
    let lookup (name : List Char) := (referent? env name).getD []
    let value ← match Text.trimStart rest with
      | [] => some []
      | '#' :: _ => some []
      | text => value? lookup text
    some (env.setDefault (String.ofList name) (String.ofList value))

/-- Adds lines to an environment, up to the first one that is not well formed. -/
def addLines (env : Environment) : List (Option (List Char)) → Environment
  | [] => env
  | line :: rest =>
    match line.bind (addLine? env) with
    | some env => addLines env rest
    | none => env

/-- The mark that may stand at the beginning of a file. -/
def byteOrderMark : Char := '\ufeff'

/-- The runs of characters of a text that could be names of variables. -/
def candidates (text : String) : List String :=
  let words := text.toList.foldr
    (fun c words =>
      if Reading.isNameChar c || isNameRest c then
        match words with
        | [] => [[c]]
        | word :: rest => (c :: word) :: rest
      else [] :: words)
    []
  (words.filter (· ≠ [])).map String.ofList

/-- Adds the variables of a file to an environment. -/
def load (env : Environment) (text : String) : Environment :=
  let chars := match text.toList with
    | c :: rest => if c = byteOrderMark then rest else c :: rest
    | [] => []
  addLines env (lines [] .complete (physicalLines chars))

end LeasedWork.VariableFile
