import PatternAutomata.SortedMap
import PatternAutomata.StateTable
import PatternAutomata.Symbol

/-! # Deterministic automata

An automaton is its states, numbered from zero. A symbol leads from a state to at most one state;
where it leads nowhere the input is rejected. A state may carry its origin, the set of states of
another automaton that it stands for. Every operation that names a state answers a fault when the
automaton does not have it, and a transition checks its target before its source. Shown, an automaton
has a line for each state, and then the origins if any state has one.
-/

namespace PatternAutomata

structure DfaState where
  accepting : Bool := false
  transitions : SortedMap Symbol StateId := ∅
  origin : Option StateSet := none
deriving DecidableEq, Repr, Inhabited

/-- A deterministic automaton with partial transitions, whose start is state zero. -/
structure Dfa where
  states : StateTable DfaState := #[]
deriving DecidableEq, Repr, Inhabited

namespace Dfa

def size (dfa : Dfa) : Nat := dfa.states.size

/-- Adds a state; its number is the former size. -/
def push (dfa : Dfa) (state : DfaState) : Dfa := ⟨dfa.states.push state⟩

/-- Adds a state without transitions; its number is the former size. -/
def addState (dfa : Dfa) (accepting : Bool) : Dfa := dfa.push { accepting }

@[simp] theorem size_push (dfa : Dfa) (state : DfaState) :
    (dfa.push state).size = dfa.size + 1 := by
  simp [push, size]

def state (dfa : Dfa) (id : StateId) : Except Fault DfaState := StateTable.read dfa.states id

def update (dfa : Dfa) (id : StateId) (change : DfaState → DfaState) : Except Fault Dfa :=
  (StateTable.update dfa.states id change).map Dfa.mk

def setAccepting (dfa : Dfa) (id : StateId) (accepting : Bool) : Except Fault Dfa :=
  dfa.update id fun state => { state with accepting }

/-- Sets where a symbol leads from a state. -/
def addTransition (dfa : Dfa) (source : StateId) (symbol : Symbol) (target : StateId) :
    Except Fault Dfa :=
  if target < dfa.size then
    dfa.update source fun state =>
      { state with transitions := state.transitions.insert symbol target }
  else .error (.transitionTarget target)

def transition (dfa : Dfa) (source : StateId) (symbol : Symbol) :
    Except Fault (Option StateId) := do
  .ok ((← dfa.state source).transitions.get? symbol)

def isAccepting (dfa : Dfa) (id : StateId) : Except Fault Bool := do
  .ok (← dfa.state id).accepting

/-- The set of states of another automaton that a state stands for. -/
def origin (dfa : Dfa) (id : StateId) : Except Fault (Option StateSet) := do
  .ok (← dfa.state id).origin

/-- Every symbol of some transition. -/
def alphabet (dfa : Dfa) : Alphabet :=
  .ofList (dfa.states.toList.flatMap fun state => state.transitions.keys)

theorem mem_alphabet {dfa : Dfa} {symbol : Symbol} :
    symbol ∈ dfa.alphabet ↔ ∃ state ∈ dfa.states, symbol ∈ state.transitions.keys := by
  simp [alphabet]

theorem update_eq_ok_iff {dfa updated : Dfa} {id : StateId} {change : DfaState → DfaState} :
    dfa.update id change = .ok updated ↔ StateTable.update dfa.states id change = .ok updated.states := by
  obtain ⟨states⟩ := updated
  unfold update
  cases StateTable.update dfa.states id change with
  | error fault => simp [Except.map]
  | ok changed => simp [Except.map]

theorem size_update {dfa updated : Dfa} {id : StateId} {change : DfaState → DfaState}
    (success : dfa.update id change = .ok updated) : updated.size = dfa.size :=
  StateTable.size_update (update_eq_ok_iff.mp success)

theorem getElem?_update {dfa updated : Dfa} {id : StateId} {change : DfaState → DfaState}
    (success : dfa.update id change = .ok updated) (other : StateId) :
    updated.states[other]? =
      (dfa.states[other]?).map fun state => if other = id then change state else state :=
  StateTable.getElem?_update (update_eq_ok_iff.mp success) other

def displayLine (state : DfaState) (id : StateId) : String :=
  let transitions := state.transitions.entries.map fun (symbol, target) => s!"{symbol} -> {target}"
  s!"{StateId.heading id state.accepting}\tTransitions: {Text.braced transitions}\n"

def displayOrigin (state : DfaState) (id : StateId) : String :=
  match state.origin with
  | some origin => s!"{origin.display} -> State {id}\n"
  | none => ""

def display (dfa : Dfa) : String :=
  let numbered := dfa.states.toList.zipIdx
  let lines := String.join (numbered.map fun (state, id) => displayLine state id)
  let origins := String.join (numbered.map fun (state, id) => displayOrigin state id)
  if dfa.states.any (·.origin.isSome) then s!"{lines}NFA -> DFA mapping:\n{origins}" else lines

end Dfa

end PatternAutomata
