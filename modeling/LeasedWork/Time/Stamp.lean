import LeasedWork.Text.Blank
import LeasedWork.Text.Digits
import LeasedWork.Time.Instant

/-!
# Time stamps

Instants are written in universal time with the letter `Z` and as many groups of three fraction
digits as they need. Reading is more generous: fields may be short, blanks may stand before them,
a year may carry a sign and any number of digits, and any offset from universal time is taken
into account.
-/
namespace LeasedWork.Time

open Text (isBlank isDigit digitsValue digitsOf)

/-- A number in decimal digits with zeros before it up to a width. -/
def padded (width n : Nat) : List Char :=
  let digits := digitsOf n
  List.replicate (width - digits.length) '0' ++ digits

/-- A year: four digits, or a sign and at least four outside the years 0 to 9999. -/
def writeYear (year : Int) : List Char :=
  if 0 ≤ year ∧ year ≤ 9999 then padded 4 year.toNat
  else (if year < 0 then '-' else '+') :: padded 4 year.natAbs

/-- The fraction of a second: nothing, or a point and three, six or nine digits. -/
def writeFraction (nano : Nat) : List Char :=
  if nano = 0 then []
  else if nano % 1000000 = 0 then '.' :: padded 3 (nano / 1000000)
  else if nano % 1000 = 0 then '.' :: padded 6 (nano / 1000)
  else '.' :: padded 9 nano

def Instant.dateText (t : Instant) : List Char :=
  let date := Date.ofDayNumber (t.second / secondsPerDay + epochDay)
  writeYear date.year ++ '-' :: padded 2 date.month ++ '-' :: padded 2 date.day

def Instant.timeText (t : Instant) : List Char :=
  let ofDay := (t.second % secondsPerDay).toNat
  padded 2 (ofDay / 3600) ++ ':' :: padded 2 (ofDay / 60 % 60) ++
    ':' :: padded 2 (ofDay % 60 + t.nano / nanosPerSecond) ++
    writeFraction (t.nano % nanosPerSecond)

def Instant.stamp (t : Instant) : List Char := t.dateText ++ 'T' :: t.timeText ++ ['Z']

def Instant.spoken (t : Instant) : List Char :=
  t.dateText ++ ' ' :: t.timeText ++ " UTC".toList

/-- A text without the blanks before it. -/
def skipBlanks (cs : List Char) : List Char := cs.dropWhile isBlank

/-- Reads a number of at least one and at most `width` digits. -/
def readNumber (width : Nat) (cs : List Char) : Option (Nat × List Char) :=
  let digits := (cs.take width).takeWhile isDigit
  if digits = [] then none else some (digitsValue digits, cs.drop digits.length)

/-- Reads a field of a date after blanks. -/
def readField (width : Nat) (cs : List Char) : Option (Nat × List Char) :=
  readNumber width (skipBlanks cs)

def readMark (mark : Char) (cs : List Char) : Option (List Char) :=
  match skipBlanks cs with
  | c :: rest => if c = mark then some rest else none
  | [] => none

/-- Reads a year: up to four digits, or a sign and any number of them. -/
def readYear (cs : List Char) : Option (Int × List Char) :=
  match skipBlanks cs with
  | '-' :: rest => (readNumber rest.length rest).map fun r => (-(r.1 : Int), r.2)
  | '+' :: rest => (readNumber rest.length rest).map fun r => ((r.1 : Int), r.2)
  | rest => (readNumber 4 rest).map fun r => ((r.1 : Int), r.2)

/-- Reads the fraction of a second in nanoseconds; digits after the ninth are passed over. -/
def readNanos : List Char → Option (Nat × List Char)
  | '.' :: rest =>
    let digits := (rest.take 9).takeWhile isDigit
    if digits = [] then none
    else some (digitsValue digits * Number.tenTo (9 - digits.length),
      (rest.drop digits.length).dropWhile isDigit)
  | cs => some (0, cs)

/-- Reads two digits that stand at the start. -/
def readPair : List Char → Option (Nat × List Char)
  | a :: b :: rest =>
    if isDigit a && isDigit b then some (digitsValue [a, b], rest) else none
  | _ => none

/-- Reads hours and minutes of an offset, in seconds. -/
def readOffsetSize (cs : List Char) : Option (Nat × List Char) := do
  let (hours, rest) ← readPair cs
  let (minutes, rest) ← readPair (rest.dropWhile fun c => c = ':' || isBlank c)
  if minutes < 60 then some (hours * 3600 + minutes * 60, rest) else none

/-- Reads an offset from universal time in seconds: a letter or a word for none, or a signed
number of hours and minutes. -/
def readOffset : List Char → Option (Int × List Char)
  | 'Z' :: rest => some (0, rest)
  | 'z' :: rest => some (0, rest)
  | '+' :: rest => (readOffsetSize rest).map fun r => ((r.1 : Int), r.2)
  | '-' :: rest => (readOffsetSize rest).map fun r => (-(r.1 : Int), r.2)
  | '−' :: rest => (readOffsetSize rest).map fun r => (-(r.1 : Int), r.2)
  | a :: b :: c :: rest =>
    if [a, b, c].map Char.toUpper = ['U', 'T', 'C'] then some (0, rest) else none
  | _ => none

/-- The instant of a stamp. Second sixty is the leap second at the end of its minute. -/
def Instant.ofStamp? (text : List Char) : Option Instant := do
  let (year, cs) ← readYear text
  let cs ← readMark '-' cs
  let (month, cs) ← readField 2 cs
  let cs ← readMark '-' cs
  let (day, cs) ← readField 2 cs
  let cs ← match cs with
    | c :: rest => if c = 'T' ∨ c = 't' ∨ c = ' ' then some rest else none
    | [] => none
  let (hour, cs) ← readField 2 cs
  let cs ← readMark ':' cs
  let (minute, cs) ← readField 2 cs
  let cs ← readMark ':' cs
  let (second, cs) ← readField 2 cs
  let (nano, cs) ← readNanos cs
  let (offset, cs) ← readOffset (skipBlanks cs)
  let date : Date := ⟨year, month, day⟩
  let leap := second = 60
  let ofDay : Int := hour * 3600 + minute * 60 + (if leap then 59 else second)
  let wall := (ofDate date).second + ofDay
  let utc := wall - offset
  if skipBlanks cs = [] ∧ date.isValid ∧ hour < 24 ∧ minute < 60 ∧ second ≤ 60 ∧
      offset.natAbs < 86400 ∧ isNameable wall ∧ isNameable utc then
    some ⟨utc, nano + if leap then nanosPerSecond else 0⟩
  else none

end LeasedWork.Time
