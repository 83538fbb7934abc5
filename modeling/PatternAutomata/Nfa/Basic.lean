import PatternAutomata.SortedMap
import PatternAutomata.StateTable
import PatternAutomata.Symbol

/-! # Nondeterministic automata

An automaton is its states, numbered from zero. A state has epsilon edges, which consume no
input, and letter edges, which consume one symbol and may lead to several states at once. Every
operation that names a state answers a fault when the automaton does not have it, and an edge
checks its target before its source. Shown, an automaton has a line for each state.
-/

namespace PatternAutomata

structure NfaState where
  accepting : Bool := false
  epsilon : StateSet := ∅
  letters : SortedMap Symbol StateSet := ∅
deriving DecidableEq, Repr, Inhabited

namespace NfaState

/-- The states reached by consuming a symbol. -/
def targets (state : NfaState) (symbol : Symbol) : StateSet := (state.letters.get? symbol).getD ∅

def addEpsilon (state : NfaState) (target : StateId) : NfaState :=
  { state with epsilon := state.epsilon.insert target }

def addLetter (state : NfaState) (symbol : Symbol) (target : StateId) : NfaState :=
  { state with letters := state.letters.insert symbol ((state.targets symbol).insert target) }

theorem mem_targets_addLetter {state : NfaState} {symbol other : Symbol} {target t : StateId} :
    t ∈ (state.addLetter symbol target).targets other ↔
      (other = symbol ∧ t = target) ∨ t ∈ state.targets other := by
  simp only [targets, addLetter, SortedMap.get?_insert]
  by_cases same : symbol = other
  · subst same
    simp
  · have different : ¬ other = symbol := fun equal => same equal.symm
    simp [same, different]

end NfaState

/-- A nondeterministic automaton with epsilon edges, whose start is state zero. -/
structure Nfa where
  states : StateTable NfaState := #[]
deriving DecidableEq, Repr, Inhabited

namespace Nfa

/-- An automaton whose states have no edges and do not accept. -/
def ofSize (n : Nat) : Nfa := ⟨Array.replicate n {}⟩

def size (nfa : Nfa) : Nat := nfa.states.size

/-- Adds a state without edges; its number is the former size. -/
def addState (nfa : Nfa) : Nfa := ⟨nfa.states.push {}⟩

@[simp] theorem size_addState (nfa : Nfa) : nfa.addState.size = nfa.size + 1 := by
  simp [addState, size]

def state (nfa : Nfa) (id : StateId) : Except Fault NfaState := StateTable.read nfa.states id

def update (nfa : Nfa) (id : StateId) (change : NfaState → NfaState) : Except Fault Nfa :=
  (StateTable.update nfa.states id change).map Nfa.mk

def setAccepting (nfa : Nfa) (id : StateId) (accepting : Bool) : Except Fault Nfa :=
  nfa.update id fun state => { state with accepting }

def addEpsilon (nfa : Nfa) (source target : StateId) : Except Fault Nfa :=
  if target < nfa.size then nfa.update source fun state => state.addEpsilon target
  else .error (.epsilonTarget target)

def addLetter (nfa : Nfa) (source : StateId) (symbol : Symbol) (target : StateId) :
    Except Fault Nfa :=
  if target < nfa.size then nfa.update source fun state => state.addLetter symbol target
  else .error (.letterTarget target)

/-- Every symbol that some letter edge consumes. -/
def alphabet (nfa : Nfa) : Alphabet :=
  .ofList (nfa.states.toList.flatMap fun state => state.letters.keys)

theorem mem_alphabet {nfa : Nfa} {symbol : Symbol} :
    symbol ∈ nfa.alphabet ↔ ∃ state ∈ nfa.states, symbol ∈ state.letters.keys := by
  simp [alphabet]

theorem update_eq_ok_iff {nfa updated : Nfa} {id : StateId} {change : NfaState → NfaState} :
    nfa.update id change = .ok updated ↔ StateTable.update nfa.states id change = .ok updated.states := by
  obtain ⟨states⟩ := updated
  unfold update
  cases StateTable.update nfa.states id change with
  | error fault => simp [Except.map]
  | ok changed => simp [Except.map]

theorem size_update {nfa updated : Nfa} {id : StateId} {change : NfaState → NfaState}
    (success : nfa.update id change = .ok updated) : updated.size = nfa.size :=
  StateTable.size_update (update_eq_ok_iff.mp success)

theorem getElem?_update {nfa updated : Nfa} {id : StateId} {change : NfaState → NfaState}
    (success : nfa.update id change = .ok updated) (other : StateId) :
    updated.states[other]? =
      (nfa.states[other]?).map fun state => if other = id then change state else state :=
  StateTable.getElem?_update (update_eq_ok_iff.mp success) other

def displayLine (state : NfaState) (id : StateId) : String :=
  let heading := StateId.heading id state.accepting
  let letters := state.letters.entries.map fun (symbol, targets) =>
    s!"{symbol} -> {targets.display}"
  s!"{heading}\tEpsilon: {state.epsilon.display}\tLetters: {Text.braced letters}\n"

def display (nfa : Nfa) : String :=
  String.join (nfa.states.toList.zipIdx.map fun (state, id) => displayLine state id)

end Nfa

end PatternAutomata
