import PatternAutomata.Proofs.Nfa.Acceptance
import PatternAutomata.Proofs.Pattern.Construction

/-! # The automaton of a pattern recognizes what the pattern stands for

A pattern that is written in the grammar has an automaton, which recognizes the words of its tree
(`ofPattern_of_written`), and a pattern that has an automaton is written in the grammar
(`exists_written_of_ofPattern`).
-/

namespace PatternAutomata.Pattern

open Builder

/-- Ending a pattern whose alternatives fill the outermost scope gives an automaton that recognizes
what they stand for. -/
theorem Builder.Filled.finish {builder : Builder} {exit? : Option StateId} {edge : EdgeRelation} {tree : Tree}
    (valid : builder.WellFormed) (filled : Filled start builder exit? edge tree) :
    ∃ nfa, builder.finish = .ok nfa ∧ nfa.InRange ∧ ∀ word, nfa.Recognizes word ↔ tree.Denotes word := by
  obtain ⟨nfa, success, -, edges, inRange, accepts⟩ := finish_eq_ok valid filled.groups
  refine ⟨nfa, success, inRange, fun word => ?_⟩
  have root : builder.root.exit? = exit? := congrArg Scope.exit? filled.root
  have noEdges : start.nfa.Edge = ⊥ := Nfa.edge_ofSize 1
  rw [filled.adds.edges, noEdges, bot_sup_eq] at edges
  simp only [Nfa.Recognizes, accepts, exists_eq_right, Nfa.path_iff_trace, edges, finalEdges, root]
  cases exit? with
  | none =>
    have spells := filled.spells word
    simp only [reduceCtorEq, false_and, exists_false, or_false] at spells
    rw [sup_bot_eq]
    exact spells
  | some exit =>
    have joined := filled.join wellFormed_start valid
    rw [filled.scope, exitOf_of_some rfl] at joined
    exact joined.spells word

/-- A pattern in the grammar has an automaton, and it recognizes the words that its tree stands for. -/
theorem ofPattern_of_written {pattern : String} {tree : Tree} (written : Written .whole pattern.toList tree) :
    ∃ nfa, Nfa.ofPattern pattern = .ok nfa ∧ nfa.InRange ∧
      ∀ word, nfa.Recognizes word ↔ tree.Denotes word := by
  obtain ⟨builder, exit?, edge, run, filled⟩ :=
    builds_of_spelled (spelled_of_written written) start (tokens pattern.toList) wellFormed_start
      ⟨rfl, rfl⟩ rfl
  obtain ⟨nfa, success, inRange, recognizes⟩ := filled.finish (wellFormed_start.foldlM run)
  refine ⟨nfa, ?_, inRange, recognizes⟩
  simp only [Nfa.ofPattern, run, bind, Except.bind, success]

/-- A pattern that has an automaton is written in the grammar. -/
theorem exists_written_of_ofPattern {pattern : String} {nfa : Nfa}
    (success : Nfa.ofPattern pattern = .ok nfa) : ∃ tree, Written .whole pattern.toList tree := by
  obtain ⟨builder, run, closed, -⟩ := exists_builder_of_ofPattern success
  have plain (lexeme : Lexeme) (member : lexeme ∈ tokens pattern.toList) (c : Char)
      (quantifier : Option Quantifier) (isSymbol : lexeme.token = .symbol c quantifier) : IsPlain c :=
    isPlain_of_mem_tokenList (List.mem_map.mpr ⟨lexeme, member, isSymbol⟩)
  have nested := nested_foldlM wellFormed_start plain (.root (.single .nothing)) run
  rw [closed] at nested
  cases nested with
  | root whole =>
    have written := whole.written
    rw [List.nil_append] at written
    exact ⟨_, flatMap_text_tokenList pattern.toList ▸ written⟩

/-- The words of a pattern are those of its tree, although other trees might be written the same. -/
theorem matches_iff_denotes {pattern : String} {tree : Tree} (written : Written .whole pattern.toList tree)
    (word : List Symbol) : Matches pattern word ↔ tree.Denotes word := by
  obtain ⟨nfa, success, -, recognizes⟩ := ofPattern_of_written written
  constructor
  · rintro ⟨other, otherWritten, denotes⟩
    obtain ⟨same, sameSuccess, -, otherRecognizes⟩ := ofPattern_of_written otherWritten
    obtain rfl := Except.ok.inj (success.symm.trans sameSuccess)
    exact (recognizes word).mp ((otherRecognizes word).mpr denotes)
  · exact fun denotes => ⟨tree, written, denotes⟩

/-- Whatever a pattern's automaton is run on, it answers, and it accepts exactly the words that the
pattern stands for. -/
theorem ofPattern_accepts_iff_matches {pattern : String} {nfa : Nfa}
    (success : Nfa.ofPattern pattern = .ok nfa) (input : String) :
    ∃ accepted, nfa.accepts input = .ok accepted ∧ (accepted = true ↔ Matches pattern input.toList) := by
  have recognizes (tree : Tree) (written : Written .whole pattern.toList tree) :
      nfa.InRange ∧ ∀ word, nfa.Recognizes word ↔ tree.Denotes word := by
    obtain ⟨built, builds, inRange, denotes⟩ := ofPattern_of_written written
    obtain rfl := Except.ok.inj (success.symm.trans builds)
    exact ⟨inRange, denotes⟩
  obtain ⟨tree, written⟩ := exists_written_of_ofPattern success
  obtain ⟨accepted, run, accepts⟩ := Nfa.accepts_eq_ok (recognizes tree written).1 input
  refine ⟨accepted, run, accepts.trans ⟨fun recognized => ?_, ?_⟩⟩
  · exact ⟨tree, written, ((recognizes tree written).2 _).mp recognized⟩
  · rintro ⟨other, otherWritten, denotes⟩
    exact ((recognizes other otherWritten).2 _).mpr denotes

/-- A repeated group with an alternative that may be empty, run on a word that goes around it. -/
theorem matches_repeated_group :
    ∃ nfa, Nfa.ofPattern "(a|b*)+c" = .ok nfa ∧ nfa.accepts "abbac" = .ok true ∧
      Matches "(a|b*)+c" "abbac".toList := by
  obtain ⟨nfa, success, run⟩ :
      ∃ nfa, Nfa.ofPattern "(a|b*)+c" = .ok nfa ∧ nfa.accepts "abbac" = .ok true := ⟨_, rfl, rfl⟩
  obtain ⟨accepted, answers, accepts⟩ := ofPattern_accepts_iff_matches success "abbac"
  exact ⟨nfa, success, run, accepts.mp (Except.ok.inj (answers.symm.trans run))⟩

end PatternAutomata.Pattern
