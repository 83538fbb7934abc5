import PatternAutomata.Dfa.Basic
import PatternAutomata.Error
import PatternAutomata.Text.Line

/-! # Writing tables and descriptions

A table has a line for each state: a flag that tells whether the state accepts, its number, and for
each column symbol the state that it leads to, or a mark when it leads nowhere.

A description of an automaton is made of a header, which announces its states, the epsilon symbol
and its alphabet, and of the lines of each state in turn. The first line of a state is an epsilon
edge to itself, so every state is mentioned, in order, and its flag is kept even if nothing leaves
it. Its transitions follow, those to the same target on one line, by ascending target.
-/

namespace PatternAutomata

def flagOf (accepting : Bool) : Char := if accepting then '+' else '-'

namespace Dfa

def noTransitionMark : List Char := ['E']

def tableEntry (state : DfaState) (symbol : Symbol) : List Char :=
  match state.transitions.get? symbol with
  | some target => Text.writeNumeral target
  | none => noTransitionMark

def tableFields (columns : List Symbol) (state : DfaState) (id : StateId) : List (List Char) :=
  [flagOf state.accepting] :: Text.writeNumeral id :: columns.map (tableEntry state)

/-- The table of an automaton with one column for each listed symbol. -/
def table (dfa : Dfa) (columns : List Symbol) : String :=
  .ofList (dfa.states.toList.zipIdx.flatMap fun (state, id) =>
    Text.writeLine (tableFields columns state id))

def headerFields (dfa : Dfa) (epsilon : Symbol) : List (List Char) :=
  Text.writeNumeral dfa.size :: [epsilon] :: dfa.alphabet.toList.map ([·])

/-- The symbols that lead from a state to each of its targets, by ascending target. -/
def symbolsByTarget (state : DfaState) : SortedMap StateId (List Symbol) :=
  state.transitions.entries.foldl
    (fun grouped (symbol, target) =>
      grouped.insert target (((grouped.get? target).getD []) ++ [symbol])) ∅

def edgeFields (state : DfaState) (source target : StateId) (symbols : List Symbol) :
    List (List Char) :=
  [flagOf state.accepting] :: Text.writeNumeral source :: Text.writeNumeral target ::
    symbols.map ([·])

def stateFields (epsilon : Symbol) (state : DfaState) (id : StateId) : List (List (List Char)) :=
  edgeFields state id id [epsilon] ::
    (symbolsByTarget state).entries.map fun (target, symbols) => edgeFields state id target symbols

def descriptionFields (dfa : Dfa) (epsilon : Symbol) : List (List (List Char)) :=
  dfa.headerFields epsilon ::
    dfa.states.toList.zipIdx.flatMap fun (state, id) => stateFields epsilon state id

/-- Describes an automaton, unless the symbol that is to mark epsilon edges is one of its
letters. -/
def toDescription (dfa : Dfa) (epsilon : Symbol) : Except DescriptionError String :=
  if epsilon ∈ dfa.alphabet then .error (.epsilonIsLetter epsilon)
  else .ok (.ofList ((dfa.descriptionFields epsilon).flatMap Text.writeLine))

end Dfa

end PatternAutomata
