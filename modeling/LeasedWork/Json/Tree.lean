import LeasedWork.Text.Digits

/-!
# The shape of a JSON text

Reading goes in two steps. The first, here, finds the shape of a text and checks its grammar, but
leaves numbers and strings as they are written. What they mean is decided only where they are
used, so a record can skip a member it does not know without judging its numbers and escapes.
-/
namespace LeasedWork.Json

open Text (isDigit hexValue?)

/-- A number as it is written: a sign and runs of digits. -/
structure Lexeme where
  negative : Bool
  whole : List Char
  /-- The digits after the point, if there is one. -/
  fraction : Option (List Char)
  /-- Whether the exponent is negative, and its digits. -/
  exponent : Option (Bool × List Char)
  deriving DecidableEq, Inhabited, Repr

/-- A JSON text with its leaves still in writing. -/
inductive Tree where
  | null
  | bool (b : Bool)
  | number (lexeme : Lexeme)
  | string (body : List Char)
  | array (items : List Tree)
  | object (members : List (List Char × Tree))
  deriving Inhabited, Repr

/-- The blanks that may stand between the parts of a text. -/
def isGap (c : Char) : Bool := c = ' ' || c = '\t' || c = '\n' || c = '\r'

/-- A text without the blanks before it. -/
def skipGap (cs : List Char) : List Char := cs.dropWhile isGap

/-- Whether a character may follow a backslash by itself. -/
def isEscapeLetter (c : Char) : Bool := c ∈ ['"', '\\', '/', 'b', 'f', 'n', 'r', 't']

/-- Reads the rest of a string after its opening quote: the body as written, and what follows
the closing quote. -/
def readBody : List Char → Option (List Char × List Char)
  | [] => none
  | '"' :: rest => some ([], rest)
  | '\\' :: 'u' :: a :: b :: c :: d :: rest =>
    if [a, b, c, d].all fun x => (hexValue? x).isSome then
      (readBody rest).map fun r => ('\\' :: 'u' :: a :: b :: c :: d :: r.1, r.2)
    else none
  | '\\' :: letter :: rest =>
    if isEscapeLetter letter then (readBody rest).map fun r => ('\\' :: letter :: r.1, r.2)
    else none
  | c :: rest =>
    if c = '\\' ∨ c.toNat < 0x20 then none
    else (readBody rest).map fun r => (c :: r.1, r.2)

/-- Reads a run of at least one digit. -/
def readDigits (cs : List Char) : Option (List Char × List Char) :=
  if cs.takeWhile isDigit = [] then none
  else some (cs.takeWhile isDigit, cs.dropWhile isDigit)

/-- Reads the whole part of a number: one zero, or digits that start with another one. -/
def readWhole : List Char → Option (List Char × List Char)
  | '0' :: rest => some (['0'], rest)
  | cs => readDigits cs

/-- Reads the point and the digits after it, if a point comes next. -/
def readFraction : List Char → Option (Option (List Char) × List Char)
  | '.' :: rest => (readDigits rest).map fun r => (some r.1, r.2)
  | cs => some (none, cs)

/-- Reads the sign and the digits of an exponent after its mark. -/
def readPower : List Char → Option (Option (Bool × List Char) × List Char)
  | '+' :: rest => (readDigits rest).map fun r => (some (false, r.1), r.2)
  | '-' :: rest => (readDigits rest).map fun r => (some (true, r.1), r.2)
  | cs => (readDigits cs).map fun r => (some (false, r.1), r.2)

/-- Reads an exponent, if its mark comes next. -/
def readExponent : List Char → Option (Option (Bool × List Char) × List Char)
  | 'e' :: rest => readPower rest
  | 'E' :: rest => readPower rest
  | cs => some (none, cs)

/-- Reads a number without its sign. -/
def readUnsigned (negative : Bool) (cs : List Char) : Option (Lexeme × List Char) :=
  match readWhole cs with
  | none => none
  | some (whole, afterWhole) =>
    match readFraction afterWhole with
    | none => none
    | some (fraction, afterFraction) =>
      (readExponent afterFraction).map fun r => (⟨negative, whole, fraction, r.1⟩, r.2)

def readLexeme : List Char → Option (Lexeme × List Char)
  | '-' :: rest => readUnsigned true rest
  | cs => readUnsigned false cs

mutual

/-- Reads one value. The first argument bounds the number of calls, the second how deep arrays
and objects may still nest. -/
def readTree : Nat → Nat → List Char → Option (Tree × List Char)
  | 0, _, _ => none
  | fuel + 1, depth, text =>
    match skipGap text with
    | 'n' :: 'u' :: 'l' :: 'l' :: rest => some (.null, rest)
    | 't' :: 'r' :: 'u' :: 'e' :: rest => some (.bool true, rest)
    | 'f' :: 'a' :: 'l' :: 's' :: 'e' :: rest => some (.bool false, rest)
    | '"' :: rest => (readBody rest).map fun r => (.string r.1, r.2)
    | '[' :: rest =>
      match depth with
      | 0 => none
      | inner + 1 =>
        match skipGap rest with
        | ']' :: after => some (.array [], after)
        | items => (readItems fuel inner items).map fun r => (.array r.1, r.2)
    | '\x7b' :: rest =>
      match depth with
      | 0 => none
      | inner + 1 =>
        match skipGap rest with
        | '\x7d' :: after => some (.object [], after)
        | members => (readMembers fuel inner members).map fun r => (.object r.1, r.2)
    | cs => (readLexeme cs).map fun r => (.number r.1, r.2)

/-- Reads the items of an array that has one, up to the closing bracket. -/
def readItems : Nat → Nat → List Char → Option (List Tree × List Char)
  | 0, _, _ => none
  | fuel + 1, depth, text =>
    match readTree fuel depth text with
    | none => none
    | some (item, afterItem) =>
      match skipGap afterItem with
      | ',' :: rest => (readItems fuel depth rest).map fun r => (item :: r.1, r.2)
      | ']' :: rest => some ([item], rest)
      | _ => none

/-- Reads the members of an object that has one, up to the closing brace. -/
def readMembers : Nat → Nat → List Char → Option (List (List Char × Tree) × List Char)
  | 0, _, _ => none
  | fuel + 1, depth, text =>
    match skipGap text with
    | '"' :: afterQuote =>
      match readBody afterQuote with
      | none => none
      | some (name, afterName) =>
        match skipGap afterName with
        | ':' :: afterColon =>
          match readTree fuel depth afterColon with
          | none => none
          | some (value, afterValue) =>
            match skipGap afterValue with
            | ',' :: rest => (readMembers fuel depth rest).map fun r => ((name, value) :: r.1, r.2)
            | '\x7d' :: rest => some ([(name, value)], rest)
            | _ => none
        | _ => none
    | _ => none

end

/-- The shape of a text that holds one value and nothing else. Every call reads a character or
hands on to a call that does, so twice the length of the text is fuel enough. -/
def Tree.read? (depth : Nat) (text : List Char) : Option Tree :=
  match readTree (2 * text.length + 2) depth text with
  | some (tree, rest) => if skipGap rest = [] then some tree else none
  | none => none

end LeasedWork.Json
