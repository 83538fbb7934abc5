import Mathlib.Data.Finset.Card
import PatternAutomata.Proofs.Description.Renumbering
import PatternAutomata.Proofs.Description.Spelling
import PatternAutomata.Proofs.Nfa.Acceptance
import PatternAutomata.Proofs.Nfa.Alphabet

/-! # A described automaton accepts what the written graph does

A text that is read spells one listing, and the automaton that is made of it accepts the words that the
graph of the listing recognizes over the numbers as they are written (`ofText_recognizes_graph`). Its
alphabet is the set of the symbols on edge lines other than the epsilon symbol, because every letter of
its states leads somewhere (`lettersLead_of_ofListing`).
-/

namespace PatternAutomata.Description

variable {listing : Listing} {nfa : Nfa}

theorem addEdge_lettersLead {epsilon symbol : Symbol} {source target : StateId} {updated : Nfa}
    (leads : nfa.LettersLead) (success : addEdge epsilon source target nfa symbol = .ok updated) :
    updated.LettersLead := by
  unfold addEdge at success
  split at success
  · exact leads.addEpsilon success
  · exact leads.addLetter success

theorem addEdgeLine_lettersLead {epsilon : Symbol} {numbers : List Nat} {edge : EdgeLine} {updated : Nfa}
    (leads : nfa.LettersLead) (success : addEdgeLine epsilon numbers nfa edge = .ok updated) :
    updated.LettersLead := by
  obtain ⟨flagged, flags, success⟩ := bind_eq_ok_iff.mp success
  exact foldlM_invariant (leads.setAccepting flags) success fun _ _ _ here step => addEdge_lettersLead here step

theorem lettersLead_of_ofListing {read : Description} (success : ofListing listing = .ok read) :
    read.nfa.LettersLead := by
  obtain ⟨nfa, adds, same⟩ := bind_eq_ok_iff.mp success
  obtain rfl := Except.ok.inj same
  exact foldlM_invariant (.ofSize _) adds fun _ _ _ here step => addEdgeLine_lettersLead here step

theorem Renumbered.alphabet_eq (renumbered : Renumbered listing nfa) (leads : nfa.LettersLead) :
    nfa.alphabet = listing.letters := by
  apply SortedSet.ext_mem
  intro symbol
  simp only [Nfa.mem_alphabet_iff leads, Listing.mem_letters_iff, renumbered.edge_iff]
  constructor
  · rintro ⟨_, _, source, target, draws, -, -⟩
    exact ⟨source, target, draws⟩
  · rintro ⟨source, target, draws⟩
    exact ⟨_, _, source, target, draws, rfl, rfl⟩

/-- The automaton of a text that is read stays inside itself, and its letters are the ones that are told. -/
theorem inRange_of_ofText {text : String} {read : Description} (success : ofText text = .ok read) :
    read.nfa.InRange ∧ read.nfa.alphabet = read.alphabet := by
  obtain ⟨listing, -, built⟩ := ofText_eq_ok_iff.mp success
  have leads := lettersLead_of_ofListing built
  obtain ⟨nfa, renumbered, expected⟩ := ofListing_eq_ok listing
  obtain rfl := Except.ok.inj (built.symm.trans expected)
  exact ⟨renumbered.inRange, renumbered.alphabet_eq leads⟩

namespace Listing

theorem mem_letters_iff_symbols {symbol : Symbol} : symbol ∈ listing.letters ↔
    symbol ≠ listing.header.epsilon ∧ ∃ edge ∈ listing.edgeLines, symbol ∈ edge.symbols := by
  simp [letters, and_comm]

/-- There are as many state numbers as different numbers on edge lines. -/
theorem length_stateNumbers (listing : Listing) : listing.stateNumbers.length =
    (listing.edgeLines.flatMap fun edge => [edge.source, edge.destination]).toFinset.card := by
  rw [← List.toFinset_card_of_nodup listing.nodup_stateNumbers]
  congr 1
  ext number
  simp [stateNumbers, List.mem_eraseDups]

end Listing

/-- A text that is read spells one listing. The automaton has a state for each of the numbers on its edge
lines, accepts exactly the words that its graph recognizes, none if there is no edge line, and has as its
alphabet, which is the one that is told, the symbols on edge lines other than the epsilon symbol. -/
theorem ofText_recognizes_graph {text : String} {read : Description} (success : ofText text = .ok read) :
    ∃ listing : Listing, (∀ other : Listing, other.SpelledBy text.toList ↔ other = listing) ∧
      (∀ input, ∃ accepted, read.nfa.accepts input = .ok accepted ∧
        (accepted = true ↔ listing.Recognizes input.toList)) ∧
      (listing.edgeLines = [] → ∀ input, read.nfa.accepts input = .ok false) ∧
      read.nfa.size =
        (listing.edgeLines.flatMap fun edge => [edge.source, edge.destination]).toFinset.card ∧
      read.alphabet = read.nfa.alphabet ∧
      ∀ symbol, symbol ∈ read.alphabet ↔
        symbol ≠ listing.header.epsilon ∧ ∃ edge ∈ listing.edgeLines, symbol ∈ edge.symbols := by
  obtain ⟨listing, lines, built⟩ := ofText_eq_ok_iff.mp success
  have spelled := (Listing.ofText_eq_ok_iff.mp lines).1
  have leads := lettersLead_of_ofListing built
  obtain ⟨nfa, renumbered, expected⟩ := ofListing_eq_ok listing
  obtain rfl := Except.ok.inj (built.symm.trans expected)
  have accepts (input : String) : ∃ accepted, nfa.accepts input = .ok accepted ∧
      (accepted = true ↔ listing.Recognizes input.toList) := by
    obtain ⟨accepted, answers, recognized⟩ := Nfa.accepts_eq_ok renumbered.inRange input
    exact ⟨accepted, answers, recognized.trans (renumbered.recognizes_iff input.toList)⟩
  refine ⟨listing, fun other => ⟨fun again => again.unique spelled, fun same => same ▸ spelled⟩, accepts,
    fun blank input => ?_, renumbered.size.trans listing.length_stateNumbers,
    (renumbered.alphabet_eq leads).symm, fun symbol => Listing.mem_letters_iff_symbols⟩
  obtain ⟨accepted, answers, recognized⟩ := accepts input
  have rejects := Listing.not_recognizes_of_edgeLines_eq_nil blank input.toList
  rw [answers, Bool.eq_false_iff.mpr (mt recognized.mp rejects)]

/-- A text with numbers out of order, a number that is only a destination, a flag that is taken back and a
line that draws an epsilon edge and a letter edge. -/
theorem ofText_recognizes_graph_of_flags :
    ∃ (read : Description) (listing : Listing), ofText "9 ~\n- 70 50 a ~\n\n+ 50 +90 b\n+ 70 70 c\n" = .ok read ∧
      listing.SpelledBy "9 ~\n- 70 50 a ~\n\n+ 50 +90 b\n+ 70 70 c\n".toList ∧
      listing.Recognizes "cca".toList ∧ ¬ listing.Recognizes "cb".toList ∧ read.nfa.size = 3 ∧
      read.nfa.alphabet.toList = ['a', 'b', 'c'] := by
  have computed : (ofText "9 ~\n- 70 50 a ~\n\n+ 50 +90 b\n+ 70 70 c\n").map (fun read =>
      (read.nfa.accepts "cca", read.nfa.accepts "cb", read.nfa.size, read.nfa.alphabet.toList)) =
      .ok (.ok true, .ok false, 3, ['a', 'b', 'c']) := rfl
  cases success : ofText "9 ~\n- 70 50 a ~\n\n+ 50 +90 b\n+ 70 70 c\n" with
  | error cause => simp [success, Except.map] at computed
  | ok read =>
    rw [success] at computed
    have values := Except.ok.inj computed
    simp only [Prod.mk.injEq] at values
    obtain ⟨accepted, rejected, size, alphabet⟩ := values
    obtain ⟨listing, spelled, accepts, -⟩ := ofText_recognizes_graph success
    obtain ⟨first, firstAnswers, recognized⟩ := accepts "cca"
    obtain ⟨second, secondAnswers, unrecognized⟩ := accepts "cb"
    obtain rfl := Except.ok.inj (firstAnswers.symm.trans accepted)
    obtain rfl := Except.ok.inj (secondAnswers.symm.trans rejected)
    exact ⟨read, listing, rfl, (spelled listing).mpr rfl, recognized.mp rfl,
      fun graph => Bool.noConfusion (unrecognized.mpr graph), size, alphabet⟩

end PatternAutomata.Description
