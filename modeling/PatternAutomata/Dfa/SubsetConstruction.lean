import PatternAutomata.Dfa.Basic
import PatternAutomata.Nfa.Simulation

/-! # Deterministic automata from nondeterministic ones

Each state of the result stands for a set of states that the given automaton may be in at once,
and keeps that set as its origin. A set is interned when it is first met: it gets the next number
and waits to be expanded, the set met last being expanded first, and its symbols upwards. A symbol
that leads nowhere gets no transition. Since no set is interned twice, an automaton with `n` states
is through after at most `2 ^ n` expansions.
-/

namespace PatternAutomata

/-- A construction under way: what is built so far, and the interned sets that wait to be expanded
with their numbers, the one met last in front. -/
structure SubsetConstruction where
  dfa : Dfa := {}
  pending : List (StateId × StateSet) := []
deriving DecidableEq, Repr, Inhabited

namespace SubsetConstruction

def idOf? (work : SubsetConstruction) (set : StateSet) : Option StateId :=
  work.dfa.states.findIdx? fun state => state.origin == some set

/-- Finds a set's number, giving it the next one if it has none. -/
def intern (nfa : Nfa) (work : SubsetConstruction) (set : StateSet) :
    Except Fault (SubsetConstruction × StateId) :=
  match work.idOf? set with
  | some id => .ok (work, id)
  | none => do
    let accepting ← nfa.containsAccepting set
    let id := work.dfa.size
    .ok ({ dfa := work.dfa.push { accepting, origin := some set }
           pending := (id, set) :: work.pending }, id)

/-- Adds the transition of one interned set on one symbol, if the symbol leads anywhere. -/
def expandOn (nfa : Nfa) (id : StateId) (set : StateSet) (work : SubsetConstruction)
    (symbol : Symbol) : Except Fault SubsetConstruction := do
  let stepped ← nfa.step set symbol
  if stepped.isEmpty then .ok work
  else
    let (work, target) ← work.intern nfa (← nfa.closure stepped)
    .ok { work with dfa := ← work.dfa.addTransition id symbol target }

/-- Expands the pending set in front on every symbol of an alphabet. -/
def expandNext (nfa : Nfa) (alphabet : Alphabet) (work : SubsetConstruction) :
    Except Fault SubsetConstruction :=
  match work.pending with
  | [] => .ok work
  | (id, set) :: pending => alphabet.toList.foldlM (expandOn nfa id set) { work with pending }

/-- Expands pending sets until none is left, at most `rounds` of them. -/
def expandAll (nfa : Nfa) (alphabet : Alphabet) :
    (rounds : Nat) → SubsetConstruction → Except Fault SubsetConstruction
  | 0, work => .ok work
  | rounds + 1, work =>
    if work.pending.isEmpty then .ok work
    else do expandAll nfa alphabet rounds (← work.expandNext nfa alphabet)

def begin (nfa : Nfa) : Except Fault SubsetConstruction := do
  let (work, _) ← intern nfa {} (← nfa.startSet)
  .ok work

end SubsetConstruction

/-- The deterministic automaton whose states are the sets that a nondeterministic one may be in. -/
def Nfa.determinize (nfa : Nfa) : Except Fault Dfa := do
  let work ← SubsetConstruction.expandAll nfa nfa.alphabet (Nat.pow 2 nfa.size)
    (← SubsetConstruction.begin nfa)
  .ok work.dfa

end PatternAutomata
