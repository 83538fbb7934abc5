import PatternAutomata.Description.Listing
import PatternAutomata.Nfa.Basic

/-! # Automata from descriptions

The states of a described automaton are the numbers its edge lines mention, renumbered in the order
of their first mention, so the source of the first edge line is the start. A state accepts as the
flag of the last line that has it as its source says; a state that no line has as its source does
not accept. Announced states that no line mentions do not exist.
-/

namespace PatternAutomata

/-- What a description describes: the automaton, the symbol that marked its epsilon edges, the
number of states that the header allows, the symbols that it declares, and the symbols of letter
edges. -/
structure Description where
  nfa : Nfa
  epsilon : Symbol
  count : Nat
  declared : List Symbol
  alphabet : Alphabet
deriving DecidableEq, Repr

namespace Description

def addEdge (epsilon : Symbol) (source target : StateId) (nfa : Nfa) (symbol : Symbol) :
    Except Fault Nfa :=
  if symbol = epsilon then nfa.addEpsilon source target else nfa.addLetter source symbol target

/-- Adds the edges of a line, whose states are renumbered by their rank. -/
def addEdgeLine (epsilon : Symbol) (stateNumbers : List Nat) (nfa : Nfa) (edge : EdgeLine) :
    Except Fault Nfa := do
  let source := stateNumbers.idxOf edge.source
  let target := stateNumbers.idxOf edge.destination
  let nfa ← nfa.setAccepting source edge.accepting
  edge.symbols.foldlM (addEdge epsilon source target) nfa

def Listing.letters (listing : Listing) : Alphabet :=
  .ofList ((listing.edgeLines.flatMap EdgeLine.symbols).filter (· ≠ listing.header.epsilon))

def ofListing (listing : Listing) : Except Fault Description := do
  let numbers := listing.stateNumbers
  let nfa ← listing.edgeLines.foldlM (addEdgeLine listing.header.epsilon numbers)
    (.ofSize numbers.length)
  .ok { nfa, epsilon := listing.header.epsilon, count := listing.header.count,
        declared := listing.header.declared, alphabet := listing.letters }

def ofText (text : String) : Except Error Description := do
  let listing ← Listing.ofText text.toList
  ofListing listing

end Description

end PatternAutomata
