import PatternAutomata.Dfa.Basic
import PatternAutomata.Exploration

/-! # Matching and searching

A run over the whole input either matches, stops at the first symbol that leads nowhere, or reaches
the end of the input in a state that does not accept; offsets count characters. A search looks for
the longest accepted prefix, and then for the leftmost place where there is one; it counts UTF-8
bytes, and gives up on a prefix as soon as it enters a dead state. A state is live when some input
leads from it to an accepting state, and dead otherwise; the live states are found by following
transitions backwards from the accepting ones.
-/

namespace PatternAutomata.Dfa

/-- Every transition as its source and target, by source and then by symbol. -/
def edges (dfa : Dfa) : List (StateId × StateId) :=
  dfa.states.toList.zipIdx.flatMap fun (state, source) =>
    state.transitions.values.map fun target => (source, target)

/-- For each state, the sources of the transitions that lead to it. -/
def incoming (dfa : Dfa) : Except Fault (StateTable (List StateId)) :=
  dfa.edges.foldlM
    (fun table (source, target) => StateTable.update table target (source :: ·))
    (Array.replicate dfa.size [])

def acceptingStates (dfa : Dfa) : List StateId :=
  dfa.states.toList.zipIdx.filterMap fun (state, id) => if state.accepting then some id else none

/-- The states from which some input leads to an accepting state. -/
def liveStates (dfa : Dfa) : Except Fault StateSet := do
  let incoming ← dfa.incoming
  explore (StateTable.read incoming) dfa.size dfa.acceptingStates.reverse
    (.ofList dfa.acceptingStates)

/-- The states from which no input leads to an accepting state, ascending. -/
def deadStates (dfa : Dfa) : Except Fault (List StateId) := do
  let live ← dfa.liveStates
  .ok ((List.range dfa.size).filter (· ∉ live))

end PatternAutomata.Dfa

namespace PatternAutomata

/-- How a run over a whole input ended. -/
inductive Outcome
  | matched
  /-- The symbol at `offset` leads nowhere. -/
  | noTransition (offset : Nat)
  /-- The input, of length `offset`, ended in a state that does not accept. -/
  | endOfInput (offset : Nat)
deriving DecidableEq, Repr

namespace Outcome

def isMatch : Outcome → Bool
  | matched => true
  | noTransition _ => false
  | endOfInput _ => false

def failureOffset? : Outcome → Option Nat
  | matched => none
  | noTransition offset => some offset
  | endOfInput offset => some offset

def message : Outcome → String
  | matched => "match"
  | noTransition offset => s!"no match at offset {offset}"
  | endOfInput offset => s!"no match at offset {offset} (end of input)"

end Outcome

/-- A range of byte offsets: `start` belongs to it and `stop` does not. -/
structure Span where
  start : Nat
  stop : Nat
deriving DecidableEq, Repr

namespace Dfa

/-- Runs from a state that was reached after `offset` symbols. -/
def runFrom (dfa : Dfa) (id : StateId) (offset : Nat) : List Symbol → Except Fault Outcome
  | [] => do .ok (if ← dfa.isAccepting id then .matched else .endOfInput offset)
  | symbol :: rest => do
    match ← dfa.transition id symbol with
    | some target => runFrom dfa target (offset + 1) rest
    | none => .ok (.noTransition offset)

def run (dfa : Dfa) (input : String) : Except Fault Outcome :=
  dfa.runFrom StateId.start 0 input.toList

def isMatch (dfa : Dfa) (input : String) : Except Fault Bool := do
  .ok (← dfa.run input).isMatch

/-- Looks for an accepted prefix beyond the first `read` bytes, which led to a state; `best` is
the longest one up to there. -/
def extendPrefix (dfa : Dfa) (live : StateSet) (id : StateId) (read : Nat) (best : Option Nat) :
    List Symbol → Except Fault (Option Nat)
  | [] => .ok best
  | symbol :: rest =>
    if id ∉ live then .ok best
    else do
      match ← dfa.transition id symbol with
      | none => .ok best
      | some target =>
        let read := read + symbol.utf8Size
        extendPrefix dfa live target read
          (if ← dfa.isAccepting target then some read else best) rest

def longestPrefixWith (dfa : Dfa) (live : StateSet) (input : List Symbol) :
    Except Fault (Option Nat) := do
  let best := if ← dfa.isAccepting StateId.start then some 0 else none
  dfa.extendPrefix live StateId.start 0 best input

/-- The leftmost place, from byte `start` on, where some prefix is accepted, with the longest
prefix there. -/
def findFrom (dfa : Dfa) (live : StateSet) (start : Nat) (input : List Symbol) :
    Except Fault (Option Span) := do
  match ← dfa.longestPrefixWith live input with
  | some length => .ok (some ⟨start, start + length⟩)
  | none =>
    match input with
    | [] => .ok none
    | symbol :: rest => findFrom dfa live (start + symbol.utf8Size) rest

/-- The length in bytes of the longest prefix of the input that is accepted. -/
def longestPrefix? (dfa : Dfa) (input : String) : Except Fault (Option Nat) := do
  dfa.longestPrefixWith (← dfa.liveStates) input.toList

/-- The leftmost, and there the longest, part of the input that is accepted. -/
def find? (dfa : Dfa) (input : String) : Except Fault (Option Span) := do
  dfa.findFrom (← dfa.liveStates) 0 input.toList

end Dfa

end PatternAutomata
