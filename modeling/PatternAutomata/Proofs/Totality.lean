import PatternAutomata.Description.Writer
import PatternAutomata.Proofs.Compile
import PatternAutomata.Proofs.Description.Offences
import PatternAutomata.Proofs.Dfa.Minimized
import PatternAutomata.Proofs.Dfa.Searching
import PatternAutomata.Proofs.Dfa.TableReading
import PatternAutomata.Proofs.Dfa.Worklist
import PatternAutomata.Proofs.Pattern.FirstOffence
import PatternAutomata.Proofs.Pattern.ScopeStack

/-! # No text leads to a fault

A text that is read as a pattern or as a description either has something wrong with it that a user is told of,
or gives an automaton all of whose edges stay inside it. Such an automaton is made deterministic and merged to
the end (`Nfa.exists_carriedThrough`), and every automaton on the way has a state and answers all questions
(`Dfa.answers`).
-/

namespace PatternAutomata

namespace Dfa

variable {dfa : Dfa}

/-- An automaton has a start, and whatever is asked of it has an answer. A table has a line for each state, and
only a letter is refused as the symbol that marks epsilon edges. -/
structure Answers (dfa : Dfa) : Prop where
  inhabited : 0 < dfa.size
  minimizeOnce : ∃ result, dfa.minimizeOnce = .ok result
  minimize : ∃ merged, dfa.minimize = .ok merged
  run : ∀ input, ∃ outcome, dfa.run input = .ok outcome
  liveStates : ∃ live, dfa.liveStates = .ok live
  deadStates : ∃ dead, dfa.deadStates = .ok dead
  longestPrefix : ∀ input, ∃ length, dfa.longestPrefix? input = .ok length
  find : ∀ input, ∃ span, dfa.findBySlices? input = .ok span ∧ dfa.find? input = .ok span
  table : ∀ columns, ∃ rows, readTable? (dfa.table columns) = some rows ∧ rows.length = dfa.size
  describe : ∀ epsilon, epsilon ∈ dfa.alphabet ∧ dfa.toDescription epsilon = .error (.epsilonIsLetter epsilon) ∨
    epsilon ∉ dfa.alphabet ∧ ∃ text, dfa.toDescription epsilon = .ok text

/-- A state to start in and transitions that stay inside are enough for answers. -/
theorem answers (inhabited : 0 < dfa.size) (inRange : dfa.InRange) : dfa.Answers where
  inhabited := inhabited
  minimizeOnce := by
    rcases minimizeOnce_cases inRange with last | ⟨next, pass⟩
    · exact ⟨_, last⟩
    · exact ⟨_, pass⟩
  minimize := by
    obtain ⟨results, -, -, success⟩ := minimize_eq_ok inRange
    exact ⟨_, success⟩
  run input := by
    obtain ⟨outcome, success, -⟩ := runFrom_eq_ok inRange inhabited 0 input.toList
    exact ⟨outcome, success⟩
  liveStates := by
    obtain ⟨live, success, -⟩ := liveStates_eq_ok inRange
    exact ⟨live, success⟩
  deadStates := by
    obtain ⟨dead, success, -⟩ := deadStates_eq_ok inRange
    exact ⟨dead, success⟩
  longestPrefix := longestPrefix?_eq_ok inhabited inRange
  find input := by
    obtain ⟨span, success⟩ := find?_eq_ok inhabited inRange input
    exact ⟨span, by rw [findBySlices?_eq, success, Except.mapError], success⟩
  table columns := ⟨_, readTable?_table dfa columns, length_rows dfa columns⟩
  describe epsilon := by
    by_cases isLetter : epsilon ∈ dfa.alphabet
    · exact .inl ⟨isLetter, if_pos isLetter⟩
    · exact .inr ⟨isLetter, _, if_neg isLetter⟩

/-- Passes keep a state to start in and transitions that stay inside. -/
theorem Passes.forall_answers {results : List Dfa} (passes : Passes dfa results) (inhabited : 0 < dfa.size)
    (inRange : dfa.InRange) : ∀ result ∈ dfa :: results, result.Answers := by
  induction passes with
  | none _ => simpa using Dfa.answers inhabited inRange
  | pass first _ ih =>
    obtain ⟨quotient, -⟩ := quotient_pass inRange first
    have later := ih (quotient.size_pos inhabited) (quotient.inRange inRange)
    exact List.forall_mem_cons.mpr ⟨Dfa.answers inhabited inRange, later⟩

end Dfa

/-- The construction comes to its end, with and without a table of numbers, and so do the passes after it. The
result of the construction and that of each pass have answers. -/
structure Nfa.CarriedThrough (nfa : Nfa) (dfa : Dfa) (results : List Dfa) : Prop where
  worklist : Worklist.determinize nfa = .ok dfa
  construction : nfa.determinize = .ok dfa
  passes : dfa.passes = .ok results
  minimize : dfa.minimize = .ok (results.getLastD dfa)
  last : (results.getLastD dfa).minimizeOnce = .ok none
  answers : ∀ result ∈ dfa :: results, result.Answers

theorem Nfa.exists_carriedThrough {nfa : Nfa} (inRange : nfa.InRange) :
    ∃ dfa results, nfa.CarriedThrough dfa results := by
  obtain ⟨dfa, construction, subsets⟩ := Nfa.determinize_eq_ok inRange
  obtain ⟨results, success, passes, minimize⟩ := Dfa.minimize_eq_ok subsets.inRange
  have worklist : Worklist.determinize nfa = .ok dfa := by
    rw [Worklist.determinize_eq inRange, construction, Except.mapError]
  exact ⟨dfa, results, worklist, construction, success, minimize, passes.last,
    passes.forall_answers subsets.size_pos subsets.inRange⟩

open Pattern in
/-- A pattern has an offence or an unclosed parenthesis, or its automaton is built. -/
theorem Nfa.ofPattern_cases (pattern : String) :
    (∃ cause, ofPattern pattern = .error (.pattern cause)) ∨
      ∃ nfa, ofPattern pattern = .ok nfa ∧ nfa.InRange := by
  have outcome : (∃ builder, (tokens pattern.toList).foldlM Builder.add Builder.start = .ok builder ∧
      ReadUpTo pattern.toList builder) ∨
      ∃ position cause, (tokens pattern.toList).foldlM Builder.add Builder.start = .error (.pattern cause) ∧
        FirstOffence pattern.toList position cause := ReadUpTo.start.run fun _ => nofun
  rcases outcome with ⟨builder, success, read⟩ | ⟨position, cause, failure, -⟩
  · have ends : ofPattern pattern = builder.finish := by
      simp only [ofPattern, success, bind, Except.bind]
    by_cases unclosed : 0 < level pattern.toList
    · obtain ⟨opened, -, failure⟩ := read.finish_eq_error unclosed
      exact .inl ⟨_, ends.trans failure⟩
    · obtain ⟨nfa, finished⟩ := read.exists_finish_eq_ok unclosed
      exact .inr ⟨nfa, ends.trans finished, (recognizes_iff_matches (ends.trans finished)).1⟩
  · exact .inl ⟨cause, by simp only [ofPattern, failure, bind, Except.bind]⟩

namespace Description

/-- A description has something wrong with it, which is not a missing flag, or its automaton is built. -/
theorem ofText_cases (text : String) :
    (∃ cause, ofText text = .error (.description cause) ∧ ∀ number, cause ≠ .missingField number .flag) ∨
      ∃ read, ofText text = .ok read ∧ read.nfa.InRange := by
  cases lines : Listing.ofText text.toList with
  | error cause =>
    refine .inl ⟨cause, ?_, fun number missing => ?_⟩
    · simp only [ofText, lines]
      rfl
    · exact Listing.ofText_ne_missingField (.inr rfl) number (missing ▸ lines)
  | ok listing =>
    obtain ⟨nfa, renumbered, built⟩ := ofListing_eq_ok listing
    exact .inr ⟨_, ofText_eq_ok_iff.mpr ⟨listing, lines, built⟩, renumbered.inRange⟩

end Description

/-- Whatever text is given as a pattern or as a description, no fault comes of it. As a pattern, with the scopes
on one stack or not, it fails with what is wrong with it or has an automaton that is carried through; as a
description it does too, and what is wrong is never a missing flag. -/
theorem text_never_faults (text : String) :
    ((∃ cause, Pattern.ScopeStack.parse text = .error (.failed (.pattern cause)) ∧
        Nfa.ofPattern text = .error (.pattern cause)) ∨
      ∃ nfa dfa results, Pattern.ScopeStack.parse text = .ok nfa ∧ Nfa.ofPattern text = .ok nfa ∧
        nfa.CarriedThrough dfa results) ∧
    ((∃ cause, Description.ofText text = .error (.description cause) ∧
        ∀ number, cause ≠ .missingField number .flag) ∨
      ∃ read dfa results, Description.ofText text = .ok read ∧ read.nfa.CarriedThrough dfa results) := by
  have stack := Pattern.ScopeStack.parse_eq text
  constructor
  · rcases Nfa.ofPattern_cases text with ⟨cause, failure⟩ | ⟨nfa, success, inRange⟩
    · exact .inl ⟨cause, by rw [stack, failure, Except.mapError], failure⟩
    · obtain ⟨dfa, results, through⟩ := Nfa.exists_carriedThrough inRange
      exact .inr ⟨nfa, dfa, results, by rw [stack, success, Except.mapError], success, through⟩
  · rcases Description.ofText_cases text with failure | ⟨read, success, inRange⟩
    · exact .inl failure
    · obtain ⟨dfa, results, through⟩ := Nfa.exists_carriedThrough inRange
      exact .inr ⟨read, dfa, results, success, through⟩

end PatternAutomata
