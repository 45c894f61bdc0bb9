import LeasedWork.Json.Writer
import LeasedWork.LogLine

/-!
# Texts of log lines

A log is written for people, one line of plain text each, or for programs, one JSON object on a
line. Both hold the same fields; the message counts as a field.
-/
namespace LeasedWork

open Json (Value)

def FieldValue.toJson : FieldValue → Value
  | integer n => .number (.integer n)
  | text s | quoted s => .string s
  | bool b => .bool b

/-- The hexadecimal digits of a number below 256, without a zero before them. -/
def shortHex (n : Nat) : List Char :=
  if n < 16 then [Text.hexDigit n] else [Text.hexDigit (n / 16), Text.hexDigit (n % 16)]

/-- A character of a quoted text: signs that would end it, and what cannot be printed, escaped. -/
def quotedChar (c : Char) : List Char :=
  if c = '"' ∨ c = '\\' then ['\\', c]
  else if c = '\n' then ['\\', 'n']
  else if c = '\r' then ['\\', 'r']
  else if c = '\t' then ['\\', 't']
  else if c = '\x00' then ['\\', '0']
  else if c.toNat < 32 ∨ c.toNat = 127 then
    '\\' :: 'u' :: '\x7b' :: shortHex c.toNat ++ ['\x7d']
  else [c]

/-- The value of a field in plain text. -/
def FieldValue.plain : FieldValue → String
  | integer n => decimalText n
  | text s => s
  | quoted s => String.ofList ('"' :: s.toList.flatMap quotedChar ++ ['"'])
  | bool b => if b then "true" else "false"

namespace LogLine

/-- The fields with the message, in the order of their names. -/
def members (line : LogLine) : List (String × Value) :=
  line.fields.foldl (fun members field => Json.setMember field.1 field.2.toJson members)
    [("message", .string line.message)]

def toJson (line : LogLine) : Value :=
  .object [("fields", .object line.members), ("level", .string line.level.name),
    ("target", .string line.target)]

def plain (line : LogLine) : String :=
  line.level.name ++ " " ++ line.target ++ ": " ++ line.message ++
    String.join (line.fields.map fun field => " " ++ field.1 ++ "=" ++ field.2.plain)

/-- The character that begins a command to a terminal. -/
def escapeChar : Char := '\x1b'

/-- Whether the plain text of a line can command a terminal by itself. -/
def commandsTerminal (line : LogLine) : Bool := line.plain.toList.contains escapeChar

end LogLine

end LeasedWork
