import LeasedWork.Text.Blank
import LeasedWork.Text.Digits

/-!
# Diagnostics

An error that nobody classified carries a message and the causes behind it. Its short text is the
message; its long text lists the causes below it, indented, and numbered when there are several.
-/
namespace LeasedWork

/-- A message and the causes behind it, the nearest first. -/
structure Diagnostic where
  message : String
  causes : List String
  deriving DecidableEq, Inhabited, Repr

namespace Diagnostic

def ofMessage (message : String) : Diagnostic := ⟨message, []⟩

def within (d : Diagnostic) (context : String) : Diagnostic := ⟨context, d.message :: d.causes⟩

/-- The diagnostic of a root error and the contexts it passed through, innermost first. -/
def ofChain (root : String) (contexts : List String) : Diagnostic :=
  contexts.foldl within (ofMessage root)

/-- A text of several lines behind a label, its later lines indented by a width. -/
def labelled (label : List Char) (width : Nat) (text : String) : List Char :=
  match Text.pieces '\n' text.toList with
  | [] => label
  | first :: rest =>
    label ++ first ++ rest.flatMap fun line => '\n' :: (List.replicate width ' ' ++ line)

/-- The label of a numbered cause, seven characters wide for small numbers. -/
def numberLabel (n : Nat) : List Char :=
  let digits := Text.digitsOf n
  List.replicate (5 - digits.length) ' ' ++ digits ++ [':', ' ']

/-- The causes as they are listed below the message. -/
def listCauses : List String → List Char
  | [] => []
  | [cause] => '\n' :: labelled (List.replicate 4 ' ') 4 cause
  | causes => causes.zipIdx.flatMap fun item => '\n' :: labelled (numberLabel item.2) 7 item.1

/-- The long text: the message and the list of causes. -/
def report (d : Diagnostic) : String :=
  if d.causes = [] then d.message
  else d.message ++ "\n\nCaused by:" ++ String.ofList (listCauses d.causes)

end Diagnostic

end LeasedWork
