import PatternAutomata.Dfa.Merging
import PatternAutomata.Nfa.Basic

/-! # Assembling automata in place

An automaton can be assembled by calls that change it where it stands. A call that ends in a fault leaves
behind whatever it has done until then, and the next call goes on from there. What a call makes anew, such as
the result of merging, takes the place of the automaton.
-/

namespace PatternAutomata

/-- Calls that change an automaton where it stands and may end in a fault. -/
abbrev InPlace (automaton : Type) := EStateM Fault automaton

namespace InPlace

variable {automaton : Type}

/-- Ends in a fault unless the automaton meets a condition. -/
def require (condition : automaton → Bool) (fault : Fault) : InPlace automaton Unit := do
  unless condition (← get) do throw fault

/-- Changes the automaton, or ends in the fault of the change. -/
def change (effect : automaton → Except Fault automaton) : InPlace automaton Unit := do
  match effect (← get) with
  | .ok changed => set changed
  | .error fault => throw fault

/-- What a call leaves behind, whether or not it ends in a fault. -/
def leave (before : automaton) (call : InPlace automaton Unit) : automaton :=
  match call.run before with
  | .ok () after | .error _ after => after

end InPlace

def Fault.id : Fault → StateId
  | epsilonTarget target | letterTarget target | transitionTarget target => target
  | noSuchState _ id => id

/-- Gives a symbol an entry, which is empty if the symbol had none. -/
def NfaState.enter (state : NfaState) (symbol : Symbol) : NfaState :=
  { state with letters := state.letters.insert symbol (state.targets symbol) }

namespace Nfa

/-- A call that builds a nondeterministic automaton. -/
inductive Call
  | ofSize (n : Nat)
  | addState
  | setAccepting (id : StateId) (accepting : Bool)
  | addEpsilon (source target : StateId)
  | addLetter (source : StateId) (symbol : Symbol) (target : StateId)
deriving DecidableEq, Repr

namespace Call

def given : Call → List StateId
  | ofSize _ | addState => []
  | setAccepting id _ => [id]
  | addEpsilon source target | addLetter source _ target => [source, target]

/-- The operation that a call stands for. -/
def operation : Call → Nfa → Except Fault Nfa
  | ofSize n, _ => .ok (.ofSize n)
  | addState, nfa => .ok nfa.addState
  | setAccepting id accepting, nfa => nfa.setAccepting id accepting
  | addEpsilon source target, nfa => nfa.addEpsilon source target
  | addLetter source symbol target, nfa => nfa.addLetter source symbol target

/-- Runs a call where the automaton stands. A letter edge is added to the entry of its symbol, which is made
first if there is none. -/
def perform : Call → InPlace Nfa Unit
  | ofSize n => set (Nfa.ofSize n)
  | addState => modify Nfa.addState
  | setAccepting id accepting => InPlace.change (Nfa.update · id fun state => { state with accepting })
  | addEpsilon source target => do
    InPlace.require (target < ·.size) (.epsilonTarget target)
    InPlace.change (Nfa.update · source (·.addEpsilon target))
  | addLetter source symbol target => do
    InPlace.require (target < ·.size) (.letterTarget target)
    InPlace.change (Nfa.update · source (·.enter symbol))
    InPlace.change (Nfa.update · source (·.addLetter symbol target))

end Call

/-- The automaton that calls leave, from one without states on. -/
def assembled (calls : List Call) : Nfa := calls.foldl (fun nfa call => InPlace.leave nfa call.perform) {}

end Nfa

namespace Dfa

/-- A call that builds a deterministic automaton. -/
inductive Call
  | new
  | addState (accepting : Bool)
  | setAccepting (id : StateId) (accepting : Bool)
  | addTransition (source : StateId) (symbol : Symbol) (target : StateId)
  | minimizeOnce
  | minimize
deriving DecidableEq, Repr

namespace Call

def given : Call → List StateId
  | new | addState _ | minimizeOnce | minimize => []
  | setAccepting id _ => [id]
  | addTransition source _ target => [source, target]

def operation : Call → Dfa → Except Fault Dfa
  | new, _ => .ok {}
  | addState accepting, dfa => .ok (dfa.addState accepting)
  | setAccepting id accepting, dfa => dfa.setAccepting id accepting
  | addTransition source symbol target, dfa => dfa.addTransition source symbol target
  | minimizeOnce, dfa => do .ok ((← dfa.minimizeOnce).getD dfa)
  | minimize, dfa => dfa.minimize

/-- Runs a call where the automaton stands. A pass that finds nothing to merge leaves it as it is. -/
def perform : Call → InPlace Dfa Unit
  | new => set ({} : Dfa)
  | addState accepting => modify (Dfa.addState · accepting)
  | setAccepting id accepting => InPlace.change (Dfa.update · id fun state => { state with accepting })
  | addTransition source symbol target => do
    InPlace.require (target < ·.size) (.transitionTarget target)
    InPlace.change (Dfa.update · source fun state =>
      { state with transitions := state.transitions.insert symbol target })
  | minimizeOnce => InPlace.change fun dfa => do .ok ((← dfa.minimizeOnce).getD dfa)
  | minimize => InPlace.change Dfa.minimize

end Call

def assembled (calls : List Call) : Dfa := calls.foldl (fun dfa call => InPlace.leave dfa call.perform) {}

end Dfa

end PatternAutomata
