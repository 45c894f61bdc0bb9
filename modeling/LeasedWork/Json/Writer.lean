import LeasedWork.Json.Value
import LeasedWork.Number.Shortest

/-!
# Writing JSON

Texts are compact: no blanks, members in the order of their names. In a string only the quote,
the backslash and the control characters below the blank are escaped, the common ones by a letter
and the rest by their code in four small hexadecimal digits.
-/
namespace LeasedWork.Json

open Number (Layout)
open Text (hexDigit digitsOfInt)

def shortEscape? (c : Char) : Option Char :=
  if c = '"' then some '"'
  else if c = '\\' then some '\\'
  else if c = '\x08' then some 'b'
  else if c = '\x0c' then some 'f'
  else if c = '\n' then some 'n'
  else if c = '\r' then some 'r'
  else if c = '\t' then some 't'
  else none

/-- One character of a string as it is written between the quotes. -/
def writeChar (c : Char) : List Char :=
  match shortEscape? c with
  | some letter => ['\\', letter]
  | none =>
    if c.toNat < 0x20 then
      ['\\', 'u', '0', '0', hexDigit (c.toNat / 16), hexDigit (c.toNat % 16)]
    else [c]

def writeString (s : String) : List Char :=
  '"' :: (s.toList.flatMap writeChar ++ ['"'])

/-- A number: an integer plainly, a double by its shortest text. -/
def Numeral.write : Numeral → List Char
  | .integer n => digitsOfInt n
  | .real d => if d.isFinite then d.text Layout.payload else "null".toList

mutual

def Value.write : Value → List Char
  | .null => "null".toList
  | .bool true => "true".toList
  | .bool false => "false".toList
  | .number n => n.write
  | .string s => writeString s
  | .array items => '[' :: (writeItems items ++ [']'])
  | .object members => '\x7b' :: (writeMembers members ++ ['\x7d'])

/-- The items of an array with commas between them. -/
def writeItems : List Value → List Char
  | [] => []
  | [v] => v.write
  | v :: w :: rest => v.write ++ ',' :: writeItems (w :: rest)

/-- The members of an object with commas between them. -/
def writeMembers : List (String × Value) → List Char
  | [] => []
  | [(name, v)] => writeString name ++ ':' :: v.write
  | (name, v) :: member :: rest =>
    writeString name ++ ':' :: (v.write ++ ',' :: writeMembers (member :: rest))

end

/-- The compact text of a value as a string. -/
def Value.text (v : Value) : String := String.ofList v.write

end LeasedWork.Json
