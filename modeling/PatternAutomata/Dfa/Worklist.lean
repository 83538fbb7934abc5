import PatternAutomata.Dfa.SubsetConstruction

/-! # The subset construction with a table of numbers

The numbers of the interned sets can be kept in a table of their own, with the pending sets left without
their numbers: a set gets the number of sets that the table has so far, and a pending set is looked up when it
is expanded. A set that waits and is not in the table cannot be expanded, and a construction in which a set
still waits has not come to its end. `Worklist.Rounds` has no limit on the number of rounds: they go on for as
long as a set waits and the one in front can be expanded.
-/

namespace PatternAutomata

/-- A construction under way, with the numbers of the interned sets and the sets that wait to be expanded,
the one met last in front. -/
structure Worklist where
  ids : List (StateSet × StateId) := []
  pending : List StateSet := []
  dfa : Dfa := {}
deriving DecidableEq, Repr

namespace Worklist

inductive Failure
  | fault (cause : Fault)
  /-- A pending set has no number. -/
  | notInterned (set : StateSet)
  /-- Sets still wait when the rounds are used up. -/
  | unfinished
deriving DecidableEq, Repr

instance : MonadLift (Except Fault) (Except Failure) := ⟨Except.mapError Failure.fault⟩

/-- Finds a set's number, giving it the next one if it has none. -/
def intern (nfa : Nfa) (work : Worklist) (set : StateSet) : Except Fault (Worklist × StateId) :=
  match work.ids.lookup set with
  | some id => .ok (work, id)
  | none => do
    let accepting ← nfa.containsAccepting set
    let id := work.ids.length
    .ok ({ ids := (set, id) :: work.ids
           pending := set :: work.pending
           dfa := work.dfa.push { accepting, origin := some set } }, id)

/-- Adds the transition of one interned set on one symbol, if the symbol leads anywhere. Nothing is asked of
the target. -/
def expandOn (nfa : Nfa) (id : StateId) (set : StateSet) (work : Worklist) (symbol : Symbol) :
    Except Fault Worklist := do
  let stepped ← nfa.step set symbol
  if stepped.isEmpty then .ok work
  else
    let (work, target) ← work.intern nfa (← nfa.closure stepped)
    let dfa ← work.dfa.update id fun state =>
      { state with transitions := state.transitions.insert symbol target }
    .ok { work with dfa }

/-- Expands the pending set in front, whose number is looked up, on every symbol of an alphabet. -/
def expandNext (nfa : Nfa) (alphabet : Alphabet) (work : Worklist) : Except Failure Worklist :=
  match work.pending with
  | [] => .ok work
  | set :: pending =>
    match work.ids.lookup set with
    | none => .error (.notInterned set)
    | some id => (alphabet.toList.foldlM (expandOn nfa id set) { work with pending }).mapError .fault

/-- Expands pending sets until none is left, which `rounds` of them must be enough for. -/
def expandAll (nfa : Nfa) (alphabet : Alphabet) : (rounds : Nat) → Worklist → Except Failure Worklist
  | 0, work => if work.pending.isEmpty then .ok work else .error .unfinished
  | rounds + 1, work =>
    if work.pending.isEmpty then .ok work
    else do expandAll nfa alphabet rounds (← work.expandNext nfa alphabet)

def begin (nfa : Nfa) : Except Fault Worklist := do
  let (work, _) ← intern nfa {} (← nfa.startSet)
  .ok work

def determinize (nfa : Nfa) : Except Failure Dfa := do
  let work ← expandAll nfa nfa.alphabet (Nat.pow 2 nfa.size) (← begin nfa)
  .ok work.dfa

/-- Any number of rounds, with the sets that they take, in their order, and the sets that they push, the last one in
front. -/
inductive Rounds (nfa : Nfa) : Worklist → List StateSet → List StateSet → Worklist → Prop
  | none (work : Worklist) : Rounds nfa work [] [] work
  | round {work next last : Worklist} {set : StateSet} {rest fresh taken pushed : List StateSet}
      (front : work.pending = set :: rest) (expanded : work.expandNext nfa nfa.alphabet = .ok next)
      (waiting : next.pending = fresh ++ rest) (later : Rounds nfa next taken pushed last) :
      Rounds nfa work (set :: taken) (pushed ++ fresh) last

/-- The sets in the table of numbers, the one that got its number last in front. -/
def sets (work : Worklist) : List StateSet := work.ids.map Prod.fst

end Worklist

end PatternAutomata
