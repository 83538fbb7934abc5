import PatternAutomata.Description.Basic
import PatternAutomata.Dfa.Matching
import PatternAutomata.Dfa.Merging
import PatternAutomata.Dfa.SubsetConstruction
import PatternAutomata.Pattern.Builder

/-! # From a text to its smallest automaton

A pattern or a description is built into its nondeterministic automaton, that is made deterministic,
and states are merged until nothing is left to merge. A pattern is answered by showing what each of
these stages makes of it, and the states that are dead in the end.
-/

namespace PatternAutomata

/-- The merged deterministic automaton of a pattern. -/
def compile (pattern : String) : Except Error Dfa := do
  let nfa ← Nfa.ofPattern pattern
  let dfa ← nfa.determinize
  dfa.minimize

namespace CommandLine

/-- The merged deterministic automaton of a description. -/
def Batch.automaton (description : Description) : Except Fault Dfa := do
  (← description.nfa.determinize).minimize

def Session.answer (pattern : String) : Except Error String := do
  let nfa ← Nfa.ofPattern pattern
  let dfa ← nfa.determinize
  let merged ← dfa.minimize
  let dead ← merged.deadStates
  let stages := s!"NFA:\n{nfa.display}\nDFA:\n{dfa.display}\nMinimized DFA:\n{merged.display}\n"
  .ok s!"{stages}Dead states: {Text.braced (dead.map toString)}\n\n"

end CommandLine

end PatternAutomata
