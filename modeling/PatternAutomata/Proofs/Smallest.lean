import Mathlib.Data.Finite.Prod
import Mathlib.Data.Set.Finite.Lattice
import PatternAutomata.Proofs.Compile
import PatternAutomata.Proofs.Dfa.Canonical
import PatternAutomata.Proofs.Dfa.Determinized
import PatternAutomata.Proofs.Pattern.Recognition

/-! # Compiled patterns without quantifiers are smallest

Without quantifiers a pattern only puts symbols side by side and chooses between alternatives, so it stands for
finitely many words (`Unquantified.finite_matches`). Its subset automaton is trim, so it has no cycle, and merging
makes it canonical (`compile_canonical`).
-/

namespace PatternAutomata.Pattern

/-- A text that is a pattern, and has no quantifiers in it. -/
structure Unquantified (pattern : String) : Prop where
  written : ∃ tree, Written .whole pattern.toList tree
  noStar : '*' ∉ pattern.toList
  noPlus : '+' ∉ pattern.toList

/-- Only quantifiers let a tree stand for infinitely many words. -/
theorem Written.finite_denotes {role : Role} {text : List Char} {tree : Tree} (written : Written role text tree)
    (noStar : '*' ∉ text) (noPlus : '+' ∉ text) : {word | tree.Denotes word}.Finite := by
  induction written with
  | @symbol c _ => exact (Set.finite_singleton [c]).subset fun _ => Tree.denotes_symbol_iff.mp
  | group _ ih =>
    simp only [List.mem_cons, List.mem_append, not_or] at noStar noPlus
    exact ih noStar.2.1 noPlus.2.1
  | once _ ih => exact ih noStar noPlus
  | repeated _ quantifier _ =>
    cases quantifier with
    | star => exact absurd List.mem_concat_self noStar
    | plus => exact absurd List.mem_concat_self noPlus
  | nothing => exact (Set.finite_singleton []).subset fun _ => Tree.denotes_nothing_iff.mp
  | sequence _ _ beforeFinite itemFinite =>
    simp only [List.mem_append, not_or] at noStar noPlus
    have front := beforeFinite noStar.1 noPlus.1
    have last := itemFinite noStar.2 noPlus.2
    refine (front.image2 (· ++ ·) last).subset fun word denotes => ?_
    obtain ⟨u, v, rfl, left, right⟩ := Tree.denotes_sequence_iff.mp denotes
    exact Set.mem_image2_of_mem left right
  | single _ ih => exact ih noStar noPlus
  | choice _ _ beforeFinite alternativeFinite =>
    simp only [List.mem_append, List.mem_cons, not_or] at noStar noPlus
    have front := beforeFinite noStar.1 noPlus.1
    have last := alternativeFinite noStar.2.2 noPlus.2.2
    exact (front.union last).subset fun _ => Tree.denotes_choice_iff.mp

/-- A pattern without quantifiers stands for finitely many words. -/
theorem Unquantified.finite_matches {pattern : String} (unquantified : Unquantified pattern) :
    {word | Matches pattern word}.Finite := by
  obtain ⟨tree, written⟩ := unquantified.written
  simpa only [matches_iff_denotes written] using
    written.finite_denotes unquantified.noStar unquantified.noPlus

end PatternAutomata.Pattern

namespace PatternAutomata

open Pattern

/-- A pattern without quantifiers is compiled to a canonical automaton of its words. -/
theorem compile_canonical {pattern : String} (unquantified : Unquantified pattern) :
    ∃ dfa, compile pattern = .ok dfa ∧ dfa.Canonical ∧ ∀ word, dfa.Recognizes word ↔ Matches pattern word := by
  obtain ⟨tree, written⟩ := unquantified.written
  obtain ⟨nfa, builds, -⟩ := ofPattern_of_written written
  obtain ⟨inRange, recognizes⟩ := recognizes_iff_matches builds
  obtain ⟨inhabited, nfaLive⟩ := live_of_ofPattern builds
  obtain ⟨dfa, determinizes, subsets⟩ := Nfa.determinize_eq_ok inRange
  have language (word : List Symbol) : dfa.Recognizes word ↔ Matches pattern word :=
    (subsets.recognizes_iff inRange word).trans (recognizes word)
  have trim : dfa.Trim := subsets.trim inRange inhabited nfaLive
  obtain ⟨bound, bounded⟩ := (unquantified.finite_matches.image List.length).bddAbove
  have acyclic : dfa.Acyclic := trim.acyclic_of_bounded fun word recognized =>
    bounded ⟨word, (language word).mp recognized, rfl⟩
  obtain ⟨merged, map, minimizes, quotient, canonical⟩ :=
    acyclic.minimize_canonical subsets.size_pos subsets.inRange trim
  refine ⟨merged, compile_of_steps builds determinizes minimizes, canonical, fun word => ?_⟩
  rw [quotient.recognizes_iff subsets.size_pos subsets.inRange, language]

/-- Merging an acyclic automaton without dead states leaves only states that words tell apart. So a pattern
without quantifiers is compiled to an automaton of its finitely many words that has the fewest states of all
such automata, and two such patterns stand for the same words exactly when their compiled automata are
isomorphic. -/
theorem acyclic_minimize_smallest :
    (∀ dfa : Dfa, dfa.Acyclic → dfa.deadStates = .ok [] → ∃ merged, dfa.minimize = .ok merged ∧ merged.Reduced) ∧
    (∀ pattern, Unquantified pattern → ∃ dfa, compile pattern = .ok dfa ∧
      {word | Matches pattern word}.Finite ∧ (∀ word, dfa.Recognizes word ↔ Matches pattern word) ∧
      ∀ other : Dfa, (∀ word, other.Recognizes word ↔ Matches pattern word) → dfa.size ≤ other.size) ∧
    ∀ first second dfa other, Unquantified first → Unquantified second → compile first = .ok dfa →
      compile second = .ok other →
      ((∀ word, Matches first word ↔ Matches second word) ↔ ∃ map, dfa.Isomorphism other map) := by
  refine ⟨fun dfa acyclic alive => ?_, fun pattern unquantified => ?_, ?_⟩
  · obtain ⟨inRange, live⟩ := Dfa.deadStates_eq_nil_iff.mp alive
    obtain ⟨merged, -, success, -, reduced⟩ := acyclic.minimize_eq_ok inRange live
    exact ⟨merged, success, reduced⟩
  · obtain ⟨dfa, success, canonical, language⟩ := compile_canonical unquantified
    refine ⟨dfa, success, unquantified.finite_matches, language, fun other otherLanguage => ?_⟩
    exact canonical.size_le fun word => (language word).trans (otherLanguage word).symm
  · intro first second dfa other firstUnquantified secondUnquantified firstCompiles secondCompiles
    obtain ⟨same, success, canonical, language⟩ := compile_canonical firstUnquantified
    obtain rfl := Except.ok.inj (success.symm.trans firstCompiles)
    obtain ⟨same, otherSuccess, otherCanonical, otherLanguage⟩ := compile_canonical secondUnquantified
    obtain rfl := Except.ok.inj (otherSuccess.symm.trans secondCompiles)
    simp only [← language, ← otherLanguage]
    constructor
    · exact canonical.exists_isomorphism otherCanonical
    · rintro ⟨map, isomorphism⟩ word
      exact (isomorphism.quotient.recognizes_iff canonical.inhabited canonical.inRange word).symm

/-- A diamond whose branches become one in the second pass, and two ways to write the same words, which are
compiled to the same three states. -/
theorem acyclic_minimize_smallest_of_branches :
    (∃ dfa merged : Dfa, dfa.Acyclic ∧ dfa.deadStates = .ok [] ∧ dfa.size = 5 ∧ dfa.minimize = .ok merged ∧
      merged.size = 3 ∧ merged.Reduced) ∧
    ∃ dfa, compile "ab|cb" = .ok dfa ∧ compile "(a|c)b" = .ok dfa ∧
      (∀ word, Matches "ab|cb" word ↔ Matches "(a|c)b" word) ∧
      ∀ other : Dfa, (∀ word, other.Recognizes word ↔ Matches "ab|cb" word) → 3 ≤ other.size := by
  obtain ⟨reduces, smallest, isomorphic⟩ := acyclic_minimize_smallest
  constructor
  · let leads (symbol : Symbol) (target : StateId) (others : SortedMap Symbol StateId) : DfaState :=
      { transitions := others.insert symbol target }
    let diamond : Dfa :=
      ⟨#[leads 'a' 1 (leads 'b' 2 ∅).transitions, leads 'b' 3 ∅, leads 'b' 4 ∅, { accepting := true },
        { accepting := true }]⟩
    have acyclic : diamond.Acyclic := Dfa.acyclic_of_ascending (by decide)
    have alive : diamond.deadStates = .ok [] := by decide
    have three : diamond.minimize.map Dfa.size = .ok 3 := by decide
    obtain ⟨merged, success, reduced⟩ := reduces diamond acyclic alive
    rw [success] at three
    exact ⟨diamond, merged, acyclic, alive, rfl, success, Except.ok.inj three, reduced⟩
  · have apart : Unquantified "ab|cb" := ⟨exists_written_of_ofPattern rfl, by decide, by decide⟩
    have joined : Unquantified "(a|c)b" := ⟨exists_written_of_ofPattern rfl, by decide, by decide⟩
    have same : compile "ab|cb" = compile "(a|c)b" := by decide +kernel
    have three : (compile "ab|cb").map Dfa.size = .ok 3 := by decide +kernel
    obtain ⟨dfa, success, -, -, fewest⟩ := smallest "ab|cb" apart
    have otherSuccess : compile "(a|c)b" = .ok dfa := same ▸ success
    rw [success] at three
    refine ⟨dfa, success, otherSuccess, ?_, fun other language => Except.ok.inj three ▸ fewest other language⟩
    exact (isomorphic _ _ dfa dfa apart joined success otherSuccess).mpr ⟨id, rfl, Set.bijOn_id _,
      fun _ _ => Iff.rfl, fun _ _ _ => by simp⟩

end PatternAutomata
