import PatternAutomata.Dfa.Basic

/-! # Walks of a deterministic automaton

A word leads from a state along transitions to at most one state. Walks ask nothing of the
automaton: a state that it does not have leads nowhere. `walk?_append` says that walks compose.
-/

namespace PatternAutomata.Dfa

/-- Where a symbol leads from a state, if the automaton has the state. -/
def next? (dfa : Dfa) (id : StateId) (symbol : Symbol) : Option StateId :=
  dfa.states[id]?.bind fun state => state.transitions.get? symbol

def walk? (dfa : Dfa) (id : StateId) : List Symbol → Option StateId
  | [] => some id
  | symbol :: rest => (dfa.next? id symbol).bind fun target => walk? dfa target rest

/-- A state that the automaton has and that accepts. -/
def Accepting (dfa : Dfa) (id : StateId) : Prop :=
  ∃ state, dfa.states[id]? = some state ∧ state.accepting = true

/-- The word leads from the start to an accepting state. -/
def Recognizes (dfa : Dfa) (word : List Symbol) : Prop :=
  ∃ target, dfa.walk? StateId.start word = some target ∧ dfa.Accepting target

/-- Every transition leads to a state that the automaton has. -/
def InRange (dfa : Dfa) : Prop :=
  ∀ source symbol target, dfa.next? source symbol = some target → target < dfa.size

@[simp] theorem walk?_nil (dfa : Dfa) (id : StateId) : dfa.walk? id [] = some id := rfl

@[simp] theorem walk?_cons (dfa : Dfa) (id : StateId) (symbol : Symbol) (rest : List Symbol) :
    dfa.walk? id (symbol :: rest) =
      (dfa.next? id symbol).bind fun target => dfa.walk? target rest := rfl

/-- Walks compose at their shared end. -/
theorem walk?_append (dfa : Dfa) (id : StateId) (first second : List Symbol) :
    dfa.walk? id (first ++ second) =
      (dfa.walk? id first).bind fun middle => dfa.walk? middle second := by
  induction first generalizing id with
  | nil => rfl
  | cons symbol rest ih =>
    cases step : dfa.next? id symbol with
    | none => simp [step]
    | some target => simp [step, ih]

/-- Looking a transition up is a step of a walk. -/
theorem transition_eq_ok (dfa : Dfa) {id : StateId} (owned : id < dfa.size) (symbol : Symbol) :
    dfa.transition id symbol = .ok (dfa.next? id symbol) := by
  have read : dfa.state id = .ok dfa.states[id] := StateTable.read_of_lt owned
  have present : dfa.states[id]? = some dfa.states[id] := Array.getElem?_eq_getElem owned
  simp [transition, read, bind, Except.bind, next?, present]

end PatternAutomata.Dfa
