import LeasedWork.Text.Blank
import LeasedWork.Text.Digits
import LeasedWork.Text.Pattern

/-!
# Reading patterns

Patterns are written with the usual signs: brackets for sets of characters, a bar between choices,
parentheses for groups, which may switch options, and `?`, `*` and `+` after what is repeated. A
count in braces is not read. Sets of characters are told apart among ASCII characters, which is all
that the texts hold to which patterns are put here.
-/
namespace LeasedWork.Text.Pattern

/-- Options that a group may switch. -/
structure Options where
  ignoreCase : Bool
  /-- Whether `^` and `$` stand at every line. -/
  multiline : Bool
  /-- Whether the dot stands for line feeds too. -/
  dotAll : Bool
  /-- Whether repetitions are reluctant, and a question mark makes them eager. -/
  swapped : Bool
  /-- Whether blanks and comments are passed over. -/
  spaced : Bool
  /-- Whether characters are those of all scripts. -/
  unicode : Bool
  deriving DecidableEq, Inhabited, Repr

def Options.default : Options := ⟨false, false, false, false, false, true⟩

def Options.switch? (o : Options) (value : Bool) : Char → Option Options
  | 'i' => some { o with ignoreCase := value }
  | 'm' => some { o with multiline := value }
  | 's' => some { o with dotAll := value }
  | 'U' => some { o with swapped := value }
  | 'x' => some { o with spaced := value }
  | 'u' => some { o with unicode := value }
  | 'R' => some o
  | _ => none

/-- Passes over blanks, and comments up to the end of their lines. -/
def skipSpaced : Bool → List Char → List Char
  | _, [] => []
  | true, c :: rest => skipSpaced (c ≠ '\n') rest
  | false, c :: rest =>
    if isBlank c then skipSpaced false rest
    else if c = '#' then skipSpaced true rest
    else c :: rest

/-- Passes over what the options say is not part of a pattern. -/
def Options.skip (o : Options) (cs : List Char) : List Char :=
  if o.spaced then skipSpaced false cs else cs

/-- A set of characters, closed under a change of case if case is ignored. -/
def Options.fold (o : Options) (set : Char → Bool) (c : Char) : Bool :=
  set c || o.ignoreCase && (set c.toLower || set c.toUpper)

def only (c d : Char) : Bool := c = d

/-- What an escape stands for. -/
inductive Escape where
  | char (c : Char)
  | set (accepts : Char → Bool)
  | look (condition : Look)
  deriving Inhabited

/-- Reads so many hexadecimal digits that name a character. -/
def readCodePoint (width : Nat) (cs : List Char) : Option (Char × List Char) := do
  let digits ← (cs.take width).mapM hexValue?
  if digits.length ≠ width then none
  let code := digits.foldl (fun n digit => 16 * n + digit) 0
  if h : code.isValidChar then some (Char.ofNatAux code h, cs.drop width) else none

/-- Whether a character is printed and neither a letter, a digit nor a blank. -/
def isSign (c : Char) : Bool := 32 < c.toNat && c.toNat < 127 && !c.isAlphanum

/-- Whether a character is a sign of calculation, currency or the like. -/
def isSymbol (c : Char) : Bool := "$+<=>^\x60|~".toList.contains c

def isControl (c : Char) : Bool := c.toNat < 32 || c.toNat = 127

/-- The set of a general category, named by its letter. -/
def category? (letter : Char) : Option (Char → Bool) :=
  match letter.toLower with
  | 'c' => some isControl
  | 'l' => some Char.isAlpha
  | 'm' => some fun _ => false
  | 'n' => some Text.isDigit
  | 'p' => some fun c => isSign c && !isSymbol c
  | 's' => some isSymbol
  | 'z' => some fun c => c = ' '
  | _ => none

/-- A set or its complement; complements are told only among characters of all scripts. -/
def Options.complemented (o : Options) (negated : Bool) (set : Char → Bool) :
    Option (Char → Bool) :=
  if negated then if o.unicode then some fun c => !set c else none else some set

def readEscape (o : Options) : List Char → Option (Escape × List Char)
  | [] => none
  | c :: rest =>
    let set (negated : Bool) (set : Char → Bool) : Option (Escape × List Char) :=
      (o.complemented negated set).map fun set => (.set set, rest)
    let point (width : Nat) : Option (Escape × List Char) :=
      (readCodePoint width rest).map fun (c, rest) => (.char c, rest)
    let category (negated : Bool) : Option (Escape × List Char) :=
      match rest with
      | letter :: rest => do
        if !o.unicode then none
        let members ← category? letter
        some (.set fun c => members c != negated, rest)
      | [] => none
    match c with
    | 'd' => set false Text.isDigit
    | 'D' => set true Text.isDigit
    | 's' => set false isBlank
    | 'S' => set true isBlank
    | 'w' => set false isWordChar
    | 'W' => set true isWordChar
    | 'p' => category false
    | 'P' => category true
    | 'x' => point 2
    | 'u' => point 4
    | 'U' => point 8
    | 'a' => some (.char '\x07', rest)
    | 'f' => some (.char '\x0c', rest)
    | 't' => some (.char '\t', rest)
    | 'n' => some (.char '\n', rest)
    | 'r' => some (.char '\r', rest)
    | 'v' => some (.char '\x0b', rest)
    | 'A' => some (.look .textStart, rest)
    | 'z' => some (.look .textEnd, rest)
    | 'b' => if o.unicode then none else some (.look (.wordEdge true), rest)
    | 'B' => if o.unicode then none else some (.look (.wordEdge false), rest)
    | _ =>
      if c.toNat < 128 ∧ !c.isAlphanum ∧ c ≠ '<' ∧ c ≠ '>' then some (.char c, rest) else none

def namedSets : List (String × (Char → Bool)) :=
  [("alnum", Char.isAlphanum), ("alpha", Char.isAlpha), ("ascii", fun c => c.toNat < 128),
   ("blank", fun c => c = ' ' || c = '\t'), ("cntrl", isControl), ("digit", Text.isDigit),
   ("graph", fun c => 32 < c.toNat && c.toNat < 127), ("lower", Char.isLower),
   ("print", fun c => 32 ≤ c.toNat && c.toNat < 127), ("punct", isSign),
   ("space", fun c => c = ' ' || 9 ≤ c.toNat && c.toNat ≤ 13), ("upper", Char.isUpper),
   ("word", isWordChar), ("xdigit", fun c => (hexValue? c).isSome)]

/-- Reads the name of a set after the bracket that opens it. -/
def readNamedSet (cs : List Char) : Option ((Char → Bool) × List Char) := do
  let ':' :: cs := cs | none
  let (negated, cs) := match cs with
    | '^' :: cs => (true, cs)
    | _ => (false, cs)
  let (name, rest) ← cut? ':' cs
  let ']' :: rest := rest | none
  let set ← (namedSets.find? fun entry => entry.1.toList = name).map (·.2)
  some (fun c => set c != negated, rest)

/-- What sets are put together by. -/
inductive SetOperation where
  | intersection
  | difference
  | symmetricDifference
  deriving DecidableEq, Inhabited, Repr

def SetOperation.apply (a b : Char → Bool) (c : Char) : SetOperation → Bool
  | intersection => a c && b c
  | difference => a c && !b c
  | symmetricDifference => a c != b c

def SetOperation.ofSign? : Char → Option SetOperation
  | '&' => some intersection
  | '-' => some difference
  | '~' => some symmetricDifference
  | _ => none

/-- A set under construction: one that waits for its other operand, and the present one. -/
structure PartialSet where
  left : Option (SetOperation × (Char → Bool))
  members : Char → Bool
  /-- Whether there was no member so far. -/
  isFresh : Bool
  deriving Inhabited

namespace PartialSet

def empty : PartialSet := ⟨none, fun _ => false, true⟩

def add (s : PartialSet) (more : Char → Bool) : PartialSet :=
  { s with members := fun c => s.members c || more c, isFresh := false }

def result (s : PartialSet) : Char → Bool :=
  match s.left with
  | none => s.members
  | some (operation, left) => fun c => operation.apply left s.members c

end PartialSet

/-- Reads a member of a set: a character, or a set named by an escape. -/
def readMember (o : Options) : List Char → Option (Escape × List Char)
  | [] => none
  | '\\' :: rest => readEscape o rest
  | c :: rest => some (.char c, rest)

/-- Reads a member of a set or a range between two characters. -/
def readRange (o : Options) (cs : List Char) : Option ((Char → Bool) × List Char) := do
  let (first, rest) ← readMember o cs
  let rest := o.skip rest
  let single : Option ((Char → Bool) × List Char) :=
    match first with
    | .char c => some (o.fold (only c), rest)
    | .set set => some (set, rest)
    | .look _ => none
  match rest with
  | [] => none
  | '-' :: after =>
    match o.skip after with
    | [] => none
    | c :: _ =>
      if c = ']' ∨ c = '-' then single
      else
        match first, ← readMember o (o.skip after) with
        | .char low, (.char high, rest) =>
          if low ≤ high then some (o.fold fun c => low ≤ c && c ≤ high, rest) else none
        | _, _ => none
  | _ => single

/-- Reads the rest of a set up to the bracket that closes it. -/
def readSet (o : Options) (negated : Bool) :
    Nat → PartialSet → List Char → Option ((Char → Bool) × List Char)
  | 0, _, _ => none
  | fuel + 1, s, cs =>
    let range : Option ((Char → Bool) × List Char) := do
      let (set, rest) ← readRange o (o.skip cs)
      readSet o negated fuel (s.add set) rest
    match o.skip cs with
    | [] => none
    | ']' :: rest =>
      if s.isFresh ∧ s.left.isNone then readSet o negated fuel (s.add (only ']')) rest
      else (o.complemented negated s.result).map fun set => (set, rest)
    | '[' :: rest =>
      match readNamedSet rest with
      | some (set, rest) => readSet o negated fuel (s.add (o.fold set)) rest
      | none => do
        let (negatedInner, inner) := match o.skip rest with
          | '^' :: inner => (true, inner)
          | inner => (false, inner)
        let (set, rest) ← readSet o negatedInner fuel .empty inner
        readSet o negated fuel (s.add set) rest
    | c :: rest =>
      if c = '-' ∧ s.isFresh ∧ s.left.isNone then
        let dashes := o.skip rest
        readSet o negated fuel { s.add (only '-') with isFresh := dashes.head? = some '-' } dashes
      else if rest.head? = some c then
        match SetOperation.ofSign? c with
        | some operation =>
          readSet o negated fuel ⟨some (operation, s.result), fun _ => false, false⟩ (rest.drop 1)
        | none => range
      else range

/-- Reads a set after the bracket that opens it. -/
def readBracketed (o : Options) (cs : List Char) : Option ((Char → Bool) × List Char) :=
  match o.skip cs with
  | '^' :: rest => readSet o true (rest.length + 1) .empty rest
  | rest => readSet o false (rest.length + 1) .empty rest

/-- How a group begins. -/
inductive Opening where
  /-- The options change for what follows. -/
  | switch
  | group
  deriving DecidableEq, Inhabited, Repr

/-- Reads option letters up to the sign that ends them; each may stand there once. -/
def readSwitches (value : Bool) (seen : List Char) (o : Options) :
    List Char → Option (Opening × Options × List Char)
  | [] => none
  | c :: rest =>
    let dangling := seen.head? = some '-'
    if c = ':' then if dangling then none else some (.group, o, rest)
    else if c = ')' then
      if dangling ∨ seen = [] then none else some (.switch, o, rest)
    else if seen.contains c then none
    else if c = '-' then readSwitches false (c :: seen) o rest
    else do readSwitches value (c :: seen) (← o.switch? value c) rest

/-- Reads the name of a group up to the sign that ends it. -/
def readGroupName (cs : List Char) : Option (List Char) := do
  let (name, rest) ← cut? '>' cs
  let isStart (c : Char) : Bool := c.isAlpha || c = '_' || 128 ≤ c.toNat
  let isRest (c : Char) : Bool := isStart c || c.isDigit || c ∈ ['.', '[', ']']
  if name.head?.any isStart ∧ name.all isRest then some rest else none

/-- Reads what follows the parenthesis that opens a group. -/
def readOpening (o : Options) (cs : List Char) : Option (Opening × Options × List Char) :=
  match o.skip cs with
  | '?' :: 'P' :: '<' :: rest => (readGroupName rest).map fun rest => (.group, o, rest)
  | '?' :: '<' :: rest => (readGroupName rest).map fun rest => (.group, o, rest)
  | '?' :: rest => readSwitches true [] o rest
  | rest => some (.group, o, rest)

/-- A part of a sequence, and whether it can be repeated. -/
structure Item where
  pattern : Pattern
  repeatable : Bool
  deriving Inhabited

/-- A sequence under construction: the choices before it, and its items, the last one first. -/
structure Sequence where
  choices : Option Pattern
  items : List Item
  deriving Inhabited

namespace Sequence

def empty : Sequence := ⟨none, []⟩

def add (s : Sequence) (p : Pattern) : Sequence := { s with items := ⟨p, true⟩ :: s.items }

def joined (s : Sequence) : Pattern :=
  s.items.foldl (fun rest item => .seq item.pattern rest) .empty

/-- The choices with the items as the last one. -/
def result (s : Sequence) : Pattern :=
  match s.choices with
  | none => s.joined
  | some choices => .either choices s.joined

/-- The sequence with its last item repeated. -/
def repeatLast (s : Sequence) (repetition : Pattern → Pattern) : Option Sequence :=
  match s.items with
  | ⟨p, true⟩ :: rest => some { s with items := ⟨repetition p, true⟩ :: rest }
  | _ => none

end Sequence

def repetition? (eager : Bool) : Char → Option (Pattern → Pattern)
  | '?' => some (optional eager)
  | '*' => some (repeated eager)
  | '+' => some (oneOrMore eager)
  | _ => none

/-- The dot, if it stands for whole characters. -/
def Options.dot? (o : Options) : Option Pattern :=
  if o.unicode then some (one fun c => o.dotAll || c ≠ '\n') else none

/-- Reads a pattern up to the end or to a parenthesis that closes a group around it. -/
def readPattern : Nat → Options → Sequence → List Char → Option (Pattern × List Char)
  | 0, _, _, _ => none
  | fuel + 1, o, s, cs =>
    match o.skip cs with
    | [] => some (s.result, [])
    | ')' :: rest => some (s.result, ')' :: rest)
    | '|' :: rest => readPattern fuel o ⟨some s.result, []⟩ rest
    | '(' :: rest => do
      match ← readOpening o rest with
      | (.switch, inner, rest) =>
        readPattern fuel inner { s with items := ⟨.empty, false⟩ :: s.items } rest
      | (.group, inner, rest) =>
        let (p, rest) ← readPattern fuel inner .empty rest
        let ')' :: rest := rest | none
        readPattern fuel o (s.add p) rest
    | '[' :: rest => do
      let (set, rest) ← readBracketed o rest
      readPattern fuel o (s.add (one set)) rest
    | '\x7b' :: _ => none
    | '\\' :: rest => do
      match ← readEscape o rest with
      | (.char c, rest) => readPattern fuel o (s.add (one (o.fold (only c)))) rest
      | (.set set, rest) => readPattern fuel o (s.add (one set)) rest
      | (.look condition, rest) => readPattern fuel o (s.add (look condition)) rest
    | '.' :: rest => do readPattern fuel o (s.add (← o.dot?)) rest
    | '^' :: rest =>
      readPattern fuel o (s.add (look (if o.multiline then .lineStart else .textStart))) rest
    | '$' :: rest =>
      readPattern fuel o (s.add (look (if o.multiline then .lineEnd else .textEnd))) rest
    | c :: rest =>
      let (marked, after) := match rest with
        | '?' :: after => (true, after)
        | _ => (false, rest)
      match repetition? (marked == o.swapped) c with
      | some repetition => do readPattern fuel o (← s.repeatLast repetition) after
      | none => readPattern fuel o (s.add (one (o.fold (only c)))) rest

def read? (text : List Char) : Option Pattern :=
  match readPattern (text.length + 1) .default .empty text with
  | some (p, []) => some p
  | _ => none

end LeasedWork.Text.Pattern
