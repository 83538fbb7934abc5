import PatternAutomata.Proofs.Description.Recognition
import PatternAutomata.Proofs.Description.RoundTrip
import PatternAutomata.Proofs.Nfa.Looped

/-! # What is read back is a copy

The description of an automaton names its states in the order of the writer, and reading it back numbers them
in the order of their first mention. That is the only difference: what is read is a copy of the automaton with
an epsilon loop at every state (`Dfa.loopedCopy_of_renumbered`), and making it deterministic gives the
reachable part of the automaton again (`Dfa.toDescription_restores_structure`).
-/

namespace PatternAutomata

open Description (Header EdgeLine Listing Renumbered)

variable {listing : Listing} {nfa : Nfa} {dfa : Dfa} {epsilon : Symbol}

namespace Description.Renumbered

/-- The edges of the state that a number becomes are those that the number draws. -/
theorem edge_stateOf_iff (renumbered : Renumbered listing nfa) {source : Nat}
    (mentioned : source ∈ listing.stateNumbers) {label : Option Symbol} {t : StateId} :
    nfa.Edge (listing.stateOf source) label t ↔
      ∃ target, listing.Draws source label target ∧ t = listing.stateOf target := by
  rw [renumbered.edge_iff]
  constructor
  · rintro ⟨other, target, draws, same, rfl⟩
    obtain rfl := (Listing.stateOf_inj mentioned).mp same
    exact ⟨target, draws, rfl⟩
  · rintro ⟨target, draws, rfl⟩
    exact ⟨source, target, draws, rfl, rfl⟩

/-- Numbers become states, each of them exactly once. -/
theorem bijOn_stateOf (renumbered : Renumbered listing nfa) :
    Set.BijOn listing.stateOf {number | number ∈ listing.stateNumbers} {id | id < nfa.size} := by
  refine ⟨fun number mentioned => ?_, fun first mentioned second _ same => ?_, fun id owned => ?_⟩
  · exact renumbered.size ▸ Listing.stateOf_lt mentioned
  · exact (Listing.stateOf_inj mentioned).mp same
  · have inside : id < listing.stateNumbers.length := renumbered.size ▸ owned
    exact ⟨listing.stateNumbers[id], List.getElem_mem inside,
      (Listing.nodup_stateNumbers listing).idxOf_getElem id inside⟩

end Description.Renumbered

namespace Dfa

/-- The automaton that a description draws is a copy of the one that was described. -/
theorem loopedCopy_of_renumbered (inhabited : 0 < dfa.size) (inRange : dfa.InRange)
    (notLetter : epsilon ∉ dfa.alphabet) (renumbered : Renumbered (dfa.listing epsilon) nfa)
    (leads : nfa.LettersLead) : nfa.LoopedCopy dfa (dfa.listing epsilon).stateOf := by
  have mentioned {id : StateId} : id ∈ (dfa.listing epsilon).stateNumbers ↔ id < dfa.size :=
    mem_stateNumbers_listing_iff inRange
  have states := renumbered.bijOn_stateOf
  simp only [mentioned] at states
  obtain ⟨first, head, startSource⟩ := head?_edgeLines_listing epsilon inhabited
  obtain ⟨rest, lines⟩ := List.head?_eq_some_iff.mp head
  have start := startSource ▸ Listing.stateOf_source lines
  refine .of_edges leads start states (fun id owned => ?_) (fun id owned t => ?_) (fun id owned symbol t => ?_)
  · rw [renumbered.accepting_iff id (mentioned.mpr owned), flag?_listing_iff]
  · simp [renumbered.edge_stateOf_iff (mentioned.mpr owned), draws_listing_iff notLetter, owned]
  · simp [renumbered.edge_stateOf_iff (mentioned.mpr owned), draws_listing_iff notLetter]

/-- Writing a description and reading it back goes through when no symbol is blank. What is read declares the
alphabet, and is a copy of the automaton with an epsilon loop at every state; made deterministic, it is the
reachable part of the automaton, under other numbers. (States are written as numerals that the reader accepts
up to the largest machine word, which no automaton in memory exceeds.) -/
theorem toDescription_restores_structure (inhabited : 0 < dfa.size) (inRange : dfa.InRange)
    (few : dfa.size < Text.numeralBound) (notLetter : epsilon ∉ dfa.alphabet)
    (visibleEpsilon : Text.isBlank epsilon = false)
    (visible : ∀ symbol ∈ dfa.alphabet, Text.isBlank symbol = false) :
    ∃ text read copied part original,
      dfa.toDescription epsilon = .ok text ∧ Description.ofText text = .ok read ∧
      read.epsilon = epsilon ∧ read.declared = dfa.alphabet.toList ∧
      read.nfa.size = dfa.size ∧ read.nfa.LoopedCopy dfa copied ∧
      read.nfa.determinize = .ok part ∧ part.ReachableIsomorphism dfa original := by
  obtain ⟨text, success⟩ : ∃ text, dfa.toDescription epsilon = .ok text :=
    ⟨_, toDescription_eq_ok_iff.mpr ⟨notLetter, rfl⟩⟩
  have lines := ofText_of_toDescription inRange success few visibleEpsilon visible
  obtain ⟨nfa, renumbered, built⟩ := Description.ofListing_eq_ok (dfa.listing epsilon)
  have copy := loopedCopy_of_renumbered inhabited inRange notLetter renumbered
    (Description.lettersLead_of_ofListing built)
  obtain ⟨part, determinized, subsets⟩ := Nfa.determinize_eq_ok renumbered.inRange
  obtain ⟨original, isomorphism⟩ := copy.exists_reachableIsomorphism inhabited inRange subsets
  exact ⟨text, _, _, part, original, success, Description.ofText_eq_ok_iff.mpr ⟨_, lines, built⟩, rfl, rfl,
    renumbered.size.trans (length_stateNumbers_listing inRange), copy, determinized, isomorphism⟩

/-- An automaton that is restored: two symbols lead from its start to one state, one of its states is a sink,
and one is not reachable. -/
theorem toDescription_restores_structure_with_sink :
    ∃ dfa : Dfa, dfa.size = 4 ∧ dfa.alphabet.toList = ['a', 'b', 'c'] ∧ ∃ text read copied part original,
      dfa.toDescription '~' = .ok text ∧ Description.ofText text = .ok read ∧
      read.declared = ['a', 'b', 'c'] ∧ read.nfa.size = 4 ∧ read.nfa.LoopedCopy dfa copied ∧
      read.nfa.determinize = .ok part ∧ part.ReachableIsomorphism dfa original := by
  let start : DfaState :=
    { transitions := (((∅ : SortedMap Symbol StateId).insert 'a' 2).insert 'b' 2).insert 'c' 1 }
  let sink : DfaState := { accepting := true }
  let back : DfaState := { transitions := (∅ : SortedMap Symbol StateId).insert 'a' 0 }
  let apart : DfaState := { accepting := true, transitions := (∅ : SortedMap Symbol StateId).insert 'b' 1 }
  let dfa : Dfa := ⟨#[start, sink, back, apart]⟩
  have inRange : dfa.InRange := by decide
  have letters : dfa.alphabet.toList = ['a', 'b', 'c'] := by decide
  have visible (symbol : Symbol) (member : symbol ∈ dfa.alphabet) : Text.isBlank symbol = false := by
    rw [SortedSet.mem_def, letters] at member
    simp only [List.mem_cons, List.not_mem_nil, or_false] at member
    rcases member with rfl | rfl | rfl <;> decide
  obtain ⟨text, read, copied, part, original, writes, reads, -, declared, size, copy, determinized, same⟩ :=
    toDescription_restores_structure (by decide) inRange (by decide) (by decide) (by decide : Text.isBlank '~' = false)
      visible
  exact ⟨dfa, rfl, letters, text, read, copied, part, original, writes, reads, declared.trans letters, size, copy,
    determinized, same⟩

end Dfa

end PatternAutomata
