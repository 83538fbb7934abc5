import PatternAutomata.SortedSet

/-! # States and the faults of using one that is not there

The states of an automaton are numbered from zero in the order they were added, and state zero is
the start. An operation that is handed a state the automaton does not have ends in a `Fault`.
-/

namespace PatternAutomata

abbrev StateId := Nat

namespace StateId

/-- Where every run begins. -/
def start : StateId := 0

def isStart (id : StateId) : Bool := id == start

/-- The words that head the line of a state wherever an automaton is shown. -/
def heading (id : StateId) (accepting : Bool) : String :=
  let start := if isStart id then "Start, " else ""
  let acceptance := if accepting then "Accepting" else "Not Accepting"
  s!"State {id}: {start}{acceptance}"

end StateId

/-- A set of states, ascending. -/
abbrev StateSet := SortedSet StateId

namespace StateSet

def display (set : StateSet) : String := Text.braced (set.toList.map toString)

end StateSet

/-- How an operation was handed a state that the automaton does not have. -/
inductive Fault
  /-- An epsilon edge was to lead to `target`. -/
  | epsilonTarget (target : StateId)
  /-- A letter edge was to lead to `target`. -/
  | letterTarget (target : StateId)
  /-- A transition was to lead to `target`. -/
  | transitionTarget (target : StateId)
  /-- State `id` of an automaton with `states` states was read or changed. -/
  | noSuchState (states : Nat) (id : StateId)
deriving DecidableEq, Repr

namespace Fault

def message : Fault → String
  | epsilonTarget target => s!"epsilon target {target} out of range"
  | letterTarget target => s!"letter target {target} out of range"
  | transitionTarget target => s!"transition target {target} out of range"
  | noSuchState states id => s!"index out of bounds: the len is {states} but the index is {id}"

end Fault

end PatternAutomata
