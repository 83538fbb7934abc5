import PatternAutomata.Proofs.Compile
import PatternAutomata.Proofs.Description.Drawing
import PatternAutomata.Proofs.Dfa.Determinized
import PatternAutomata.Proofs.Pattern.Letters

/-! # What the stages of compiling a pattern keep

A pattern's automaton has neither dead nor unreached states, and its letters are the characters of the pattern that
stand for themselves. Making it deterministic and merging states keep both (`compile_stages_trim`,
`compile_stages_alphabet`).
-/

namespace PatternAutomata

open Pattern

variable {pattern : String} {nfa : Nfa}

/-- Of every pattern that has an automaton, the subset automaton and the compiled one exist. Each of their states is
reached from the start and leads to acceptance, so neither has a dead state. -/
theorem compile_stages_trim (success : Nfa.ofPattern pattern = .ok nfa) :
    ∃ dfa merged, nfa.determinize = .ok dfa ∧ compile pattern = .ok merged ∧
      ∀ stage ∈ [dfa, merged], stage.deadStates = .ok [] ∧
        ∀ id < stage.size, (∃ front, stage.walk? StateId.start front = some id) ∧
          ∃ rest last, stage.walk? id rest = some last ∧ stage.Accepting last := by
  obtain ⟨inRange, -⟩ := recognizes_iff_matches success
  obtain ⟨inhabited, nfaLive⟩ := live_of_ofPattern success
  obtain ⟨dfa, merged, map, determinizes, compiles, subsets, quotient⟩ := compile_eq_ok success inRange
  have trim : dfa.Trim := subsets.trim inRange inhabited nfaLive
  have mergedTrim : merged.Trim := quotient.trim subsets.inRange subsets.size_pos trim
  refine ⟨dfa, merged, determinizes, compiles, fun stage member => ?_⟩
  rcases List.mem_pair.mp member with rfl | rfl
  · exact ⟨trim.deadStates_eq subsets.inRange, fun id owned => ⟨trim.reachable id owned, trim.live id owned⟩⟩
  · exact ⟨mergedTrim.deadStates_eq (quotient.inRange subsets.inRange),
      fun id owned => ⟨mergedTrim.reachable id owned, mergedTrim.live id owned⟩⟩

/-- Repeated groups in one another, with alternatives that are empty and a bar at either end. -/
theorem compile_stages_trim_of_empty_alternatives :
    ∃ nfa dfa merged, Nfa.ofPattern "((a|)b*|)+(|(c|)*d|)" = .ok nfa ∧ nfa.determinize = .ok dfa ∧
      compile "((a|)b*|)+(|(c|)*d|)" = .ok merged ∧ dfa.deadStates = .ok [] ∧ merged.deadStates = .ok [] ∧
      ∀ id < merged.size, ∃ rest last, merged.walk? id rest = some last ∧ merged.Accepting last := by
  obtain ⟨nfa, success⟩ : ∃ nfa, Nfa.ofPattern "((a|)b*|)+(|(c|)*d|)" = .ok nfa := ⟨_, rfl⟩
  obtain ⟨dfa, merged, determinizes, compiles, stages⟩ := compile_stages_trim success
  obtain ⟨alive, -⟩ := stages dfa (by simp)
  obtain ⟨mergedAlive, ways⟩ := stages merged (by simp)
  exact ⟨nfa, dfa, merged, success, determinizes, compiles, alive, mergedAlive, fun id owned => (ways id owned).2⟩

/-- The automaton of a pattern, its subset automaton and the compiled one have the same alphabet, which consists of
the characters of the pattern other than the operators. So describing the compiled automaton fails exactly when the
symbol that is to mark epsilon edges is one of them. -/
theorem compile_stages_alphabet (success : Nfa.ofPattern pattern = .ok nfa) :
    ∃ dfa merged, nfa.determinize = .ok dfa ∧ compile pattern = .ok merged ∧
      (∀ alphabet ∈ [nfa.alphabet, dfa.alphabet, merged.alphabet],
        alphabet = .ofList (plainSymbols pattern.toList)) ∧
      ∀ epsilon cause, merged.toDescription epsilon = .error cause ↔
        cause = .epsilonIsLetter epsilon ∧ epsilon ∈ pattern.toList ∧ IsPlain epsilon := by
  obtain ⟨inRange, -⟩ := recognizes_iff_matches success
  obtain ⟨dfa, merged, map, determinizes, compiles, subsets, quotient⟩ := compile_eq_ok success inRange
  have letters : nfa.alphabet = .ofList (plainSymbols pattern.toList) := alphabet_of_ofPattern success
  have dfaLetters : dfa.alphabet = nfa.alphabet :=
    subsets.alphabet_eq inRange (lettersLead_of_ofPattern success) (reached_of_ofPattern success)
  have mergedLetters : merged.alphabet = nfa.alphabet := quotient.alphabet_eq.trans dfaLetters
  refine ⟨dfa, merged, determinizes, compiles, ?_, fun epsilon cause => ?_⟩
  · simp only [dfaLetters, mergedLetters, letters, List.mem_cons, List.not_mem_nil, or_false, or_self, imp_self,
      implies_true]
  · rw [Dfa.toDescription_eq_error_iff, mergedLetters, letters, SortedSet.mem_ofList, mem_plainSymbols, and_comm]

/-- A pattern whose symbols are reached in a repeated group only, or after an alternative that is empty. -/
theorem compile_stages_alphabet_of_empty_alternatives :
    ∃ merged, compile "(a|(b*|))+é|ba" = .ok merged ∧ merged.alphabet = .ofList ['a', 'b', 'é'] ∧
      merged.toDescription 'é' = .error (.epsilonIsLetter 'é') ∧
      ∀ cause, merged.toDescription '*' ≠ .error cause := by
  obtain ⟨nfa, success⟩ : ∃ nfa, Nfa.ofPattern "(a|(b*|))+é|ba" = .ok nfa := ⟨_, rfl⟩
  obtain ⟨dfa, merged, -, compiles, letters, fails⟩ := compile_stages_alphabet success
  refine ⟨merged, compiles, ?_, (fails 'é' _).mpr ⟨rfl, by decide, by decide⟩, fun cause failure => ?_⟩
  · exact (letters merged.alphabet (by simp)).trans (by decide)
  · obtain ⟨-, -, plain⟩ := (fails '*' cause).mp failure
    exact absurd plain (by decide)

end PatternAutomata
