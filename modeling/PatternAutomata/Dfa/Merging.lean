import PatternAutomata.Dfa.Basic

/-! # Merging states that cannot be told apart

Two states have the same signature when they agree on acceptance and on where every symbol leads.
A pass keeps the first state of each signature, sends every transition to the kept state, and
renumbers the kept states in their order. That may make further signatures equal, so passes
follow one another until one finds nothing to merge. Each pass keeps at least one state and drops
at least one, so an automaton with `n` states is through in fewer than `n` passes.
-/

namespace PatternAutomata

/-- What a pass compares of a state. -/
structure Signature where
  accepting : Bool
  transitions : SortedMap Symbol StateId
deriving DecidableEq, Repr

def DfaState.signature (state : DfaState) : Signature := ⟨state.accepting, state.transitions⟩

namespace Dfa

/-- For each state, by number, the first state with the same signature. -/
def representatives (dfa : Dfa) : List StateId :=
  let signatures := dfa.states.toList.map DfaState.signature
  signatures.map signatures.idxOf

/-- The states that a pass drops, each with the state it is merged into. -/
def merges (dfa : Dfa) : List (StateId × StateId) :=
  dfa.representatives.zipIdx.filterMap fun (kept, id) => if kept = id then none else some (id, kept)

/-- The states that a pass keeps, which are those that represent themselves. -/
def survivors (representatives : List StateId) : List StateId :=
  representatives.zipIdx.filterMap fun (kept, id) => if kept = id then some id else none

/-- The new number of the state that represents a state. -/
def renumber (representatives survivors : List StateId) (id : StateId) : Except Fault StateId :=
  match representatives[id]?.bind survivors.idxOf? with
  | some rank => .ok rank
  | none => .error (.noSuchState representatives.length id)

/-- A kept state after a pass, which drops its origin. -/
def mergedState (dfa : Dfa) (renumber : StateId → Except Fault StateId) (id : StateId) :
    Except Fault DfaState := do
  let state ← dfa.state id
  let transitions ← state.transitions.mapValuesM renumber
  .ok { accepting := state.accepting, transitions }

/-- One merging pass, or nothing if no two states have the same signature. -/
def minimizeOnce (dfa : Dfa) : Except Fault (Option Dfa) :=
  if dfa.merges.isEmpty then .ok none
  else do
    let representatives := dfa.representatives
    let survivors := survivors representatives
    let states ← survivors.mapM (dfa.mergedState (renumber representatives survivors))
    .ok (some ⟨states.toArray⟩)

/-- The results of at most `limit` passes, in order, up to the last that merges something. -/
def passesUpTo : (limit : Nat) → Dfa → Except Fault (List Dfa)
  | 0, _ => .ok []
  | limit + 1, dfa => do
    match ← dfa.minimizeOnce with
    | none => .ok []
    | some next => .ok (next :: (← passesUpTo limit next))

def passes (dfa : Dfa) : Except Fault (List Dfa) := passesUpTo dfa.size dfa

/-- The automaton after the last merging pass, which is the given one if there is none. -/
def minimize (dfa : Dfa) : Except Fault Dfa := do
  .ok ((← dfa.passes).getLastD dfa)

end Dfa

end PatternAutomata
