import PatternAutomata.Description.Basic

/-! # Reading a description in one pass

A description can be read with the states of each line renumbered as soon as their numbers have been read, before
the symbols of the line are looked at. Nothing is added to an automaton until all lines have been read and the
numbers on them have been counted.
-/

namespace PatternAutomata.Description

/-- An edge line whose numbers have become states. -/
structure StateLine where
  accepting : Bool
  source : StateId
  target : StateId
  symbols : List Symbol
deriving DecidableEq, Repr

/-- The state that stands for a number, and the numbers that stand for states from then on, each at the place of
its state. A number that has not been met gets the next place. -/
def renumber (numbers : List Nat) (number : Nat) : StateId × List Nat :=
  match numbers.idxOf? number with
  | some id => (id, numbers)
  | none => (numbers.length, numbers ++ [number])

/-- Reads an edge line, where some numbers have been met before. -/
def StateLine.ofLine (numbers : List Nat) (line : NumberedLine) :
    Except DescriptionError (StateLine × List Nat) :=
  match line.fields with
  | [] => .error (.missingField line.number .flag)
  | flag :: rest => do
    let accepting ← readFlag line.number flag
    match rest with
    | [] => .error (.missingField line.number .sourceState)
    | [_] => .error (.missingField line.number .destinationState)
    | source :: destination :: symbols => do
      let (source, numbers) := renumber numbers (← readNumber line.number source)
      let (target, numbers) := renumber numbers (← readNumber line.number destination)
      let symbols ← symbols.mapM (readSymbol line.number)
      if symbols.isEmpty then .error (.missingField line.number .edgeSymbol)
      else .ok ({ accepting, source, target, symbols }, numbers)

structure LinesRead where
  numbers : List Nat := []
  lines : List StateLine := []
deriving DecidableEq, Repr

def LinesRead.add (read : LinesRead) (line : NumberedLine) : Except DescriptionError LinesRead := do
  let (stateLine, numbers) ← StateLine.ofLine read.numbers line
  .ok { numbers, lines := read.lines ++ [stateLine] }

/-- Reads the header and the edge lines, and then counts the states. -/
def readLines (text : List Char) : Except DescriptionError (Header × LinesRead) :=
  match contentLines text with
  | [] => .error .missingHeader
  | first :: rest => do
    let header ← Header.ofLine first
    let read ← rest.foldlM LinesRead.add {}
    let found := read.numbers.length
    if header.count < found then .error (.tooManyStates header.count found) else .ok (header, read)

def addSymbol (epsilon : Symbol) (source target : StateId) (made : Nfa × Alphabet) (symbol : Symbol) :
    Except Fault (Nfa × Alphabet) := do
  if symbol = epsilon then .ok (← made.1.addEpsilon source target, made.2)
  else .ok (← made.1.addLetter source symbol target, made.2.insert symbol)

def addStateLine (epsilon : Symbol) (made : Nfa × Alphabet) (line : StateLine) :
    Except Fault (Nfa × Alphabet) := do
  let nfa ← made.1.setAccepting line.source line.accepting
  line.symbols.foldlM (addSymbol epsilon line.source line.target) (nfa, made.2)

def ofStateLines (header : Header) (read : LinesRead) : Except Fault Description := do
  let (nfa, alphabet) ← read.lines.foldlM (addStateLine header.epsilon) (.ofSize read.numbers.length, ∅)
  .ok { nfa, epsilon := header.epsilon, count := header.count, declared := header.declared, alphabet }

def ofTextInOnePass (text : String) : Except Error Description := do
  let (header, read) ← readLines text.toList
  ofStateLines header read

end PatternAutomata.Description
