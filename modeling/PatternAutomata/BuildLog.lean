import PatternAutomata.Description.Basic
import PatternAutomata.Dfa.Merging
import PatternAutomata.Dfa.SubsetConstruction
import PatternAutomata.Pattern.Builder
import PatternAutomata.Text.Quoted

/-! # The log of building an automaton

What happens while an automaton is built is told by events, each of a level. The events of a stage
follow from what goes into the stage and what comes out of it, so they are derived from those and
no stage writes a log. The first merging pass is told by its merges alone; a later pass also tells
how many states it left.

Events can also be told while states are merged. Whether anything is merged at all is found out by the
first pass, which is made apart; the passes after it are counted on, and each tells its number and how
many states it found and left. In the end it is told how many states and passes there were.
-/

namespace PatternAutomata

namespace BuildLog

inductive Level
  | debug
  | trace
deriving DecidableEq, Repr

inductive Event
  | patternRead (pattern : String) (states : Nat)
  | descriptionRead (declared used : Nat) (alphabet : Alphabet)
  | stateInterned (id : StateId) (origin : StateSet)
  | determinized (nfaStates dfaStates : Nat) (alphabet : Alphabet)
  | stateMerged (id kept : StateId)
  | passDone (number before after : Nat)
  | alreadyMinimal (states : Nat)
  | minimized (before after passes : Nat)
deriving DecidableEq, Repr

namespace Event

/-- Single states are traced. -/
def level : Event → Level
  | stateInterned .. | stateMerged .. => .trace
  | patternRead .. | descriptionRead .. | determinized .. | passDone .. | alreadyMinimal ..
  | minimized .. => .debug

def message : Event → String
  | patternRead pattern states =>
    s!"parsed {Text.quote pattern} into an NFA with {states} states"
  | descriptionRead declared used alphabet =>
    s!"read a description with {declared} states ({used} used) over {alphabet.display}"
  | stateInterned id origin => s!"DFA state {id} = {origin.display}"
  | determinized nfaStates dfaStates alphabet =>
    let sizes := s!"{nfaStates} NFA states -> {dfaStates} DFA states"
    s!"subset construction: {sizes} over {alphabet.display}"
  | stateMerged id kept => s!"merging state {id} into {kept}"
  | passDone number before after => s!"pass {number}: {before} -> {after} states"
  | alreadyMinimal states => s!"DFA with {states} states is already minimal"
  | minimized before after passes => s!"minimized {before} states to {after} in {passes} passes"

end Event

def ofPattern (pattern : String) (nfa : Nfa) : List Event := [.patternRead pattern nfa.size]

def ofDescription (description : Description) : List Event :=
  [.descriptionRead description.count description.nfa.size description.alphabet]

def ofDeterminize (nfa : Nfa) (dfa : Dfa) : List Event :=
  let interned := dfa.states.toList.zipIdx.filterMap fun (state, id) =>
    state.origin.map (Event.stateInterned id)
  interned ++ [.determinized nfa.size dfa.size nfa.alphabet]

/-- The events of the pass numbered `number`, from zero, that led from one automaton to another. -/
def ofPass (number : Nat) (before after : Dfa) : List Event :=
  let merged := before.merges.map fun (id, kept) => Event.stateMerged id kept
  if number = 0 then merged else merged ++ [.passDone number before.size after.size]

/-- The events of passes, the first of which has a given number. -/
def ofPassesFrom (number : Nat) (before : Dfa) : List Dfa → List Event
  | [] => []
  | after :: later => ofPass number before after ++ ofPassesFrom (number + 1) after later

def ofMinimize (dfa : Dfa) (passes : List Dfa) : List Event :=
  match passes.getLast? with
  | none => [.alreadyMinimal dfa.size]
  | some last => ofPassesFrom 0 dfa passes ++ [.minimized dfa.size last.size passes.length]

end BuildLog

open BuildLog (Event)

/-- A computation that tells events on its way to a result or a fault. -/
abbrev Telling := EStateM Fault (List Event)

namespace Telling

def tell (event : Event) : Telling Unit := modify (· ++ [event])

/-- Goes on with what was computed without telling anything. -/
def given {α : Type} : Except Fault α → Telling α
  | .ok result => pure result
  | .error fault => throw fault

end Telling

namespace Dfa

open Telling

def minimizeOnceTelling (dfa : Dfa) : Telling (Option Dfa) := do
  dfa.merges.forM fun (id, kept) => tell (.stateMerged id kept)
  given dfa.minimizeOnce

/-- Goes on with at most `limit` passes after `passes` others, and counts them. -/
def mergeOn : (limit passes : Nat) → Dfa → Telling (Dfa × Nat)
  | 0, passes, current => pure (current, passes)
  | limit + 1, passes, current => do
    match ← current.minimizeOnceTelling with
    | none => pure (current, passes)
    | some next =>
      tell (.passDone passes current.size next.size)
      mergeOn limit (passes + 1) next

/-- Merges until nothing is left to merge. -/
def minimizeTelling (dfa : Dfa) : Telling Dfa := do
  match ← dfa.minimizeOnceTelling with
  | none =>
    tell (.alreadyMinimal dfa.size)
    pure dfa
  | some first =>
    let (last, passes) ← mergeOn dfa.size 1 first
    tell (.minimized dfa.size last.size passes)
    pure last

end Dfa

end PatternAutomata
