/-!
# Patterns

A pattern describes texts by single characters, sequences, choices and repetitions. It is turned
into a network of nodes that is followed from all the places at once where a match can be under way,
in the order in which they are preferred: an earlier beginning before a later one, and of two ways
to go on the one that the pattern names first. The question asked here is whether a match ends
where the text ends. Once there is a match, the ways that come after it are given up, so a match
that ends too soon can hide a later one.
-/
namespace LeasedWork.Text

/-- A condition on a place in a text, given the characters before and after it. -/
inductive Look where
  | textStart
  | textEnd
  | lineStart
  | lineEnd
  /-- Between a letter, digit or underscore and something else, or not. -/
  | wordEdge (positive : Bool)
  deriving DecidableEq, Inhabited, Repr

def isWordChar (c : Char) : Bool := c.isAlphanum || c = '_'

/-- Whether a condition holds between two characters, of which either may be missing. -/
def Look.holds (before after : Option Char) : Look → Bool
  | textStart => before.isNone
  | textEnd => after.isNone
  | lineStart => before.all (· = '\n')
  | lineEnd => after.all (· = '\n')
  | wordEdge positive => (before.any isWordChar != after.any isWordChar) == positive

/-- A pattern. -/
inductive Pattern where
  | empty
  /-- One character of a set. -/
  | one (accepts : Char → Bool)
  | look (condition : Look)
  | seq (first second : Pattern)
  /-- One of two, of which the first is preferred. -/
  | either (first second : Pattern)
  /-- One or more; more are preferred if it is eager, else fewer. -/
  | oneOrMore (eager : Bool) (body : Pattern)
  /-- One or none; one is preferred if it is eager, else none. -/
  | optional (eager : Bool) (body : Pattern)
  deriving Inhabited

namespace Pattern

def repeated (eager : Bool) (body : Pattern) : Pattern := optional eager (oneOrMore eager body)

/-- A node of a network. -/
inductive Node where
  | accept
  | test (accepts : Char → Bool) (next : Nat)
  | look (condition : Look) (next : Nat)
  | split (preferred other : Nat)
  deriving Inhabited

/-- A split whose first way is preferred if it is eager. -/
def Node.splitBy (eager : Bool) (first second : Nat) : Node :=
  if eager then split first second else split second first

/-- Adds the nodes for a pattern that goes on at `next`; the answer is where it begins. -/
def build (next : Nat) (nodes : Array Node) : Pattern → Nat × Array Node
  | empty => (next, nodes)
  | one accepts => (nodes.size, nodes.push (.test accepts next))
  | look condition => (nodes.size, nodes.push (.look condition next))
  | seq first second =>
    let (middle, nodes) := build next nodes second
    build middle nodes first
  | either first second =>
    let (a, nodes) := build next nodes first
    let (b, nodes) := build next nodes second
    (nodes.size, nodes.push (.split a b))
  | oneOrMore eager body =>
    let loop := nodes.size
    let (begin, nodes) := build loop (nodes.push .accept) body
    (begin, nodes.setIfInBounds loop (.splitBy eager begin next))
  | optional eager body =>
    let (begin, nodes) := build next nodes body
    (nodes.size, nodes.push (.splitBy eager begin next))

/-- The network of a pattern that may begin anywhere, and where to enter it. -/
def network (p : Pattern) : Nat × Array Node :=
  let (begin, nodes) := p.build 0 #[.accept]
  (nodes.size, (nodes.push (.split begin (nodes.size + 1))).push (.test (fun _ => true) nodes.size))

/-- The nodes that can be reached from some without reading, the preferred ones first, as far as
they read or accept. -/
def reach (holds : Look → Bool) (nodes : Array Node) : Nat → List Nat → List Nat → List Node
  | 0, _, _ => []
  | _, [], _ => []
  | fuel + 1, i :: rest, seen =>
    if seen.contains i then reach holds nodes fuel rest seen
    else
      match nodes[i]? with
      | none => reach holds nodes fuel rest seen
      | some (.split a b) => reach holds nodes fuel (a :: b :: rest) (i :: seen)
      | some (.look condition next) =>
        reach holds nodes fuel (if holds condition then next :: rest else rest) (i :: seen)
      | some node => node :: reach holds nodes fuel rest (i :: seen)

/-- Where some nodes lead to after a character; what comes after a match is given up. -/
def advance (c : Char) : List Node → List Nat
  | .test accepts next :: rest => if accepts c then next :: advance c rest else advance c rest
  | .accept :: _ => []
  | _ :: rest => advance c rest
  | [] => []

def Node.isAccept : Node → Bool
  | accept => true
  | _ => false

/-- Whether a match ends at the end of a text, from some nodes on. -/
def run (nodes : Array Node) (before : Option Char) (places : List Nat) : List Char → Bool
  | [] =>
    (reach (Look.holds before none) nodes (places.length + 2 * nodes.size) places []).any
      Node.isAccept
  | c :: rest =>
    let reached :=
      reach (Look.holds before (some c)) nodes (places.length + 2 * nodes.size) places []
    run nodes (some c) (advance c reached) rest

/-- Whether a match of the pattern ends where a text ends. -/
def endsIn (p : Pattern) (text : List Char) : Bool :=
  let (entry, nodes) := p.network
  run nodes none [entry] text

end Pattern

end LeasedWork.Text
