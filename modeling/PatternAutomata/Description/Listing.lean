import PatternAutomata.Error
import PatternAutomata.Text.Line

/-! # The lines of a description

A description lists an automaton by lines, of which blank ones count but say nothing. The first
other line is the header: how many states there may be, the symbol that marks epsilon edges, and
the declared symbols. Every later line has a flag that tells whether its source accepts, the source,
the destination and at least one symbol. A listing is what such lines say, taken as they stand:
states are the numbers that were written.

The edge lines draw a graph over these numbers. It accepts a word when some path that spells it leads
from the source of the first edge line to an accepting number.
-/

namespace PatternAutomata.Description

structure Header where
  count : Nat
  epsilon : Symbol
  declared : List Symbol
deriving DecidableEq, Repr, Inhabited

/-- What an edge line says: one edge for each of its symbols. -/
structure EdgeLine where
  accepting : Bool
  source : Nat
  destination : Nat
  symbols : List Symbol
deriving DecidableEq, Repr, Inhabited

structure Listing where
  header : Header
  edgeLines : List EdgeLine
deriving DecidableEq, Repr, Inhabited

/-- A line with its number, cut into fields. -/
structure NumberedLine where
  number : Nat
  fields : List (List Char)
deriving DecidableEq, Repr, Inhabited

/-- The lines of a text that are not blank; numbers count all lines, from one. -/
def contentLines (text : List Char) : List NumberedLine :=
  ((Text.lines text).zipIdx 1).filterMap fun (line, number) =>
    if Text.allBlank line then none else some { number, fields := Text.fields line }

def readSymbol (line : Nat) : List Char → Except DescriptionError Symbol
  | [c] => .ok c
  | field => .error (.badSymbol line (.ofList field))

def readNumber (line : Nat) (field : List Char) : Except DescriptionError Nat :=
  (Text.readNumeral field).mapError (.badNumber line (.ofList field))

def readFlag (line : Nat) : List Char → Except DescriptionError Bool
  | ['+'] => .ok true
  | ['-'] => .ok false
  | field => .error (.badFlag line (.ofList field))

namespace Header

def ofLine (line : NumberedLine) : Except DescriptionError Header :=
  match line.fields with
  | [] => .error (.missingField line.number .stateCount)
  | count :: rest => do
    let count ← readNumber line.number count
    match rest with
    | [] => .error (.missingField line.number .epsilonSymbol)
    | epsilon :: declared => do
      let epsilon ← readSymbol line.number epsilon
      let declared ← declared.mapM (readSymbol line.number)
      .ok { count, epsilon, declared }

end Header

namespace EdgeLine

def ofLine (line : NumberedLine) : Except DescriptionError EdgeLine :=
  match line.fields with
  | [] => .error (.missingField line.number .flag)
  | flag :: rest => do
    let accepting ← readFlag line.number flag
    match rest with
    | [] => .error (.missingField line.number .sourceState)
    | [_] => .error (.missingField line.number .destinationState)
    | source :: destination :: symbols => do
      let source ← readNumber line.number source
      let destination ← readNumber line.number destination
      let symbols ← symbols.mapM (readSymbol line.number)
      if symbols.isEmpty then .error (.missingField line.number .edgeSymbol)
      else .ok { accepting, source, destination, symbols }

end EdgeLine

namespace Listing

/-- The numbers that the edge lines use for states, each once, in the order of their first mention;
a line mentions its source before its destination. -/
def stateNumbers (listing : Listing) : List Nat :=
  (listing.edgeLines.flatMap fun edge => [edge.source, edge.destination]).eraseDups

def ofText (text : List Char) : Except DescriptionError Listing :=
  match contentLines text with
  | [] => .error .missingHeader
  | first :: rest => do
    let header ← Header.ofLine first
    let edgeLines ← rest.mapM EdgeLine.ofLine
    let listing := { header, edgeLines }
    let found := listing.stateNumbers.length
    if header.count < found then .error (.tooManyStates header.count found) else .ok listing

/-- An edge that some line draws, labelled by the symbol that it consumes, if any. -/
def Draws (listing : Listing) (source : Nat) (label : Option Symbol) (target : Nat) : Prop :=
  ∃ edge ∈ listing.edgeLines, edge.source = source ∧ edge.destination = target ∧
    ∃ symbol ∈ edge.symbols,
      label = if symbol = listing.header.epsilon then none else some symbol

/-- A run along drawn edges that consumes exactly a word. -/
inductive Path (listing : Listing) : Nat → List Symbol → Nat → Prop
  | nil (number : Nat) : Path listing number [] number
  | epsilon {source next target : Nat} {word : List Symbol}
      (edge : listing.Draws source none next) (rest : Path listing next word target) :
      Path listing source word target
  | letter {source next target : Nat} {symbol : Symbol} {word : List Symbol}
      (edge : listing.Draws source (some symbol) next) (rest : Path listing next word target) :
      Path listing source (symbol :: word) target

/-- The flag of the last line that has a number as its source. -/
def flag? (listing : Listing) (number : Nat) : Option Bool :=
  ((listing.edgeLines.filter fun edge => edge.source = number).getLast?).map EdgeLine.accepting

/-- Some path from the source of the first line to a number flagged as accepting consumes the
word. -/
def Recognizes (listing : Listing) (word : List Symbol) : Prop :=
  ∃ first ∈ listing.edgeLines.head?, ∃ target,
    listing.Path first.source word target ∧ listing.flag? target = some true

/-- Without edge lines nothing is accepted. -/
theorem not_recognizes_of_edgeLines_eq_nil {listing : Listing} (blank : listing.edgeLines = [])
    (word : List Symbol) : ¬ listing.Recognizes word := by
  rintro ⟨first, member, _⟩
  simp [blank] at member

end Listing

end PatternAutomata.Description
