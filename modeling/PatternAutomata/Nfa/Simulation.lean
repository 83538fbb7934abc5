import PatternAutomata.Exploration
import PatternAutomata.Nfa.Basic

/-! # Running a nondeterministic automaton

A run keeps the set of all states the automaton may be in. Reading a symbol steps along its letter
edges and closes the result under epsilon edges; the input is accepted when the set it ends in has
an accepting state. Sets may name states that the automaton does not have, which is a fault.

A set need not be closed in the order that `Nfa.closure` takes: `Closing.Run` takes any of the states
that wait, follows its edges in any order, and lets a state that is met for the first time join the
set and wait. It ends when no state waits.
-/

namespace PatternAutomata.Nfa

def epsilonTargets (nfa : Nfa) (id : StateId) : Except Fault (List StateId) := do
  .ok (← nfa.state id).epsilon.toList

/-- Every state that epsilon edges lead to from a set, and the set itself. The highest state is
followed first. -/
def closure (nfa : Nfa) (set : StateSet) : Except Fault StateSet :=
  explore nfa.epsilonTargets (nfa.size + set.size) set.toList.reverse set

/-- The states the automaton may start in, of which an automaton without states has none. -/
def startSet (nfa : Nfa) : Except Fault StateSet :=
  if nfa.size = 0 then .ok ∅ else nfa.closure (.ofList [StateId.start])

/-- The states that letter edges lead to from a set by consuming a symbol. -/
def step (nfa : Nfa) (set : StateSet) (symbol : Symbol) : Except Fault StateSet :=
  set.toList.foldlM (fun reached id => do .ok (reached ∪ (← nfa.state id).targets symbol)) ∅

/-- Whether a set has an accepting state; the states are tried upwards. -/
def containsAccepting (nfa : Nfa) (set : StateSet) : Except Fault Bool :=
  set.toList.anyM fun id => do .ok (← nfa.state id).accepting

/-- Whether some run over the input, from some state of a set, ends in an accepting state. -/
def acceptsFrom (nfa : Nfa) (set : StateSet) : List Symbol → Except Fault Bool
  | [] => nfa.containsAccepting set
  | symbol :: rest =>
    if set.isEmpty then .ok false
    else do acceptsFrom nfa (← nfa.closure (← nfa.step set symbol)) rest

def accepts (nfa : Nfa) (input : String) : Except Fault Bool := do
  nfa.acceptsFrom (← nfa.startSet) input.toList

end PatternAutomata.Nfa

namespace PatternAutomata

/-- A closing under way: the states that wait to be taken, and the set that they have joined. -/
structure Closing where
  waiting : List StateId
  gathered : StateSet
deriving DecidableEq, Repr

namespace Closing

/-- Follows an edge to its target, which joins the set, and waits, if it is new. -/
def meet (work : Closing) (target : StateId) : Closing :=
  if target ∈ work.gathered then work
  else { waiting := target :: work.waiting, gathered := work.gathered.insert target }

/-- A state that waits, wherever it stands, is taken, and its epsilon edges are followed in some order. -/
inductive Step (nfa : Nfa) (id : StateId) : Closing → Closing → Prop
  | expand {before after edges : List StateId} {set : StateSet} {state : NfaState}
      (read : nfa.states[id]? = some state) (order : edges.Perm state.epsilon.toList) :
      Step nfa id ⟨before ++ id :: after, set⟩ (edges.foldl meet ⟨before ++ after, set⟩)

/-- Any number of steps, with the states that they take. -/
inductive Run (nfa : Nfa) : List StateId → Closing → Closing → Prop
  | nil (work : Closing) : Run nfa [] work work
  | cons {id : StateId} {taken : List StateId} {work next last : Closing} (first : Step nfa id work next)
      (rest : Run nfa taken next last) : Run nfa (id :: taken) work last

end Closing

end PatternAutomata
