import PatternAutomata.Proofs.Dfa.Merging
import PatternAutomata.Proofs.Dfa.SubsetAutomaton

/-! # The merged automaton of a nondeterministic one

Making an automaton deterministic and merging states goes through (`Nfa.exists_minimized`). No letter appears
on the way that was not there before (`SubsetAutomaton.mem_alphabet`, `Dfa.Quotient.alphabet_eq`), and a run
of the result matches what simulation accepts (`Dfa.Quotient.run_matched_iff`).
-/

namespace PatternAutomata

variable {nfa : Nfa} {dfa merged : Dfa} {map : StateId → StateId}

/-- The subset construction goes through, and so does merging its result. -/
theorem Nfa.exists_minimized (inRange : nfa.InRange) :
    ∃ dfa merged map, nfa.determinize = .ok dfa ∧ dfa.minimize = .ok merged ∧ SubsetAutomaton nfa dfa ∧
      dfa.Quotient merged map := by
  obtain ⟨dfa, determinizes, subsets⟩ := Nfa.determinize_eq_ok inRange
  obtain ⟨results, -, passes, minimizes⟩ := Dfa.minimize_eq_ok subsets.inRange
  obtain ⟨map, quotient⟩ := passes.quotient subsets.inRange
  exact ⟨dfa, _, map, determinizes, minimizes, subsets, quotient⟩

theorem SubsetAutomaton.mem_alphabet (subsets : SubsetAutomaton nfa dfa) (nfaInRange : nfa.InRange)
    {symbol : Symbol} (member : symbol ∈ dfa.alphabet) : symbol ∈ nfa.alphabet := by
  obtain ⟨source, target, step⟩ := Dfa.mem_alphabet_iff_next?.mp member
  obtain ⟨set, stands⟩ := subsets.labelled source (Dfa.lt_of_next? step)
  obtain ⟨next, moves, -⟩ := subsets.sound source set symbol target stands step
  exact moves.mem_alphabet nfaInRange ((subsets.accessible source set stands).valid nfaInRange).1

namespace Dfa.Quotient

theorem alphabet_eq (quotient : Quotient dfa merged map) : merged.alphabet = dfa.alphabet := by
  apply SortedSet.ext_mem
  intro symbol
  rw [mem_alphabet_iff_next?, mem_alphabet_iff_next?]
  constructor
  · rintro ⟨source, target, step⟩
    obtain ⟨origin, owned, rfl⟩ := quotient.onto source (lt_of_next? step)
    rw [quotient.next? origin owned, Option.map_eq_some_iff] at step
    obtain ⟨next, found, -⟩ := step
    exact ⟨origin, next, found⟩
  · rintro ⟨source, target, step⟩
    refine ⟨map source, map target, ?_⟩
    rw [quotient.next? source (lt_of_next? step), step, Option.map_some]

theorem size_pos (quotient : Quotient dfa merged map) (inhabited : 0 < dfa.size) : 0 < merged.size :=
  Nat.zero_lt_of_lt (quotient.into StateId.start inhabited)

/-- A run of a quotient of the construction always ends, and matches what simulation accepts. -/
theorem run_matched_iff (quotient : Quotient dfa merged map) (subsets : SubsetAutomaton nfa dfa)
    (nfaInRange : nfa.InRange) (input : String) :
    ∃ outcome accepted, merged.run input = .ok outcome ∧ nfa.accepts input = .ok accepted ∧
      (outcome = .matched ↔ accepted = true) := by
  obtain ⟨outcome, run, ends⟩ := Dfa.runFrom_eq_ok subsets.inRange subsets.size_pos 0 input.toList
  obtain ⟨accepted, answers, -⟩ := Nfa.accepts_eq_ok nfaInRange input
  refine ⟨outcome, accepted, (quotient.run_eq subsets.size_pos subsets.inRange input).trans run, answers, ?_⟩
  have matched := subsets.ends_matched_iff nfaInRange input
  rw [answers, Except.ok.injEq] at matched
  exact ends.eq_iff.trans matched

end Dfa.Quotient

end PatternAutomata
