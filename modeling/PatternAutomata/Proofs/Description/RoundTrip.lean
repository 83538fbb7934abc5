import PatternAutomata.Proofs.Description.Drawing
import PatternAutomata.Proofs.Nfa.Acceptance

/-! # When a description restores the automaton

The text that describes an automaton is readable, and what is read has the epsilon symbol, the alphabet
and the language of the automaton, if and only if neither the epsilon symbol nor a letter is blank and
the number of states is a numeral that can be read (`toDescription_restores_iff`). The writer asks only
that the epsilon symbol is not a letter; a blank symbol is written as it is, and the reader takes it for
the space between fields.
-/

namespace PatternAutomata

open Description (Header EdgeLine Listing)

variable {dfa : Dfa} {epsilon : Symbol} {text : String} {read : Description}

/-- What was read has the epsilon symbol and the alphabet of an automaton that was described, and
accepts the inputs that match. -/
structure Dfa.RestoredBy (dfa : Dfa) (epsilon : Symbol) (read : Description) : Prop where
  epsilon : read.epsilon = epsilon
  alphabet : read.alphabet = dfa.alphabet
  accepts : ∀ input, ∃ accepted, read.nfa.accepts input = .ok accepted ∧ dfa.isMatch input = .ok accepted

namespace Description

theorem visible_of_ofText (success : ofText text = .ok read) :
    Text.isBlank read.epsilon = false ∧ ∀ symbol ∈ read.alphabet, Text.isBlank symbol = false := by
  obtain ⟨listing, lines, built⟩ := ofText_eq_ok_iff.mp success
  obtain ⟨nfa, -, expected⟩ := ofListing_eq_ok listing
  obtain rfl := Except.ok.inj (built.symm.trans expected)
  obtain ⟨visibleEpsilon, visible⟩ := Listing.visible_of_ofText lines
  refine ⟨visibleEpsilon, fun symbol member => ?_⟩
  obtain ⟨source, target, edge, edgeMember, -, -, other, otherMember, same⟩ :=
    Listing.mem_letters_iff.mp member
  split at same
  · cases same
  · cases same
    exact visible edge edgeMember symbol otherMember

end Description

namespace Dfa

/-- The text that describes an automaton is that of its listing. -/
theorem toList_of_toDescription (success : dfa.toDescription epsilon = .ok text) :
    text.toList = (dfa.listing epsilon).toText := by
  obtain ⟨-, rfl⟩ := toDescription_eq_ok_iff.mp success
  exact String.toList_ofList

/-- A description with symbols that are not blank is read as the listing that was written. -/
theorem ofText_of_toDescription (inRange : dfa.InRange) (success : dfa.toDescription epsilon = .ok text)
    (few : dfa.size < Text.numeralBound) (visibleEpsilon : Text.isBlank epsilon = false)
    (visible : ∀ symbol ∈ dfa.alphabet, Text.isBlank symbol = false) :
    Listing.ofText text.toList = .ok (dfa.listing epsilon) := by
  have enough : (dfa.listing epsilon).stateNumbers.length ≤ (dfa.listing epsilon).header.count :=
    Nat.le_of_eq (length_stateNumbers_listing inRange)
  rw [toList_of_toDescription success]
  exact Listing.ofText_toText (legible_header_listing few visibleEpsilon visible)
    (fun _ member => legible_edgeLine_listing inRange few visibleEpsilon visible member) enough

/-- A description with symbols that are not blank restores the automaton. -/
theorem exists_restoredBy (inhabited : 0 < dfa.size) (inRange : dfa.InRange)
    (success : dfa.toDescription epsilon = .ok text) (few : dfa.size < Text.numeralBound)
    (visibleEpsilon : Text.isBlank epsilon = false)
    (visible : ∀ symbol ∈ dfa.alphabet, Text.isBlank symbol = false) :
    ∃ read, Description.ofText text = .ok read ∧ dfa.RestoredBy epsilon read := by
  have notLetter := (toDescription_eq_ok_iff.mp success).1
  have lines := ofText_of_toDescription inRange success few visibleEpsilon visible
  obtain ⟨nfa, renumbered, built⟩ := Description.ofListing_eq_ok (dfa.listing epsilon)
  have reads := Description.ofText_eq_ok_iff.mpr ⟨_, lines, built⟩
  refine ⟨_, reads, rfl, letters_listing notLetter, fun input => ?_⟩
  obtain ⟨accepted, accepts, accepted_iff⟩ := Nfa.accepts_eq_ok renumbered.inRange input
  obtain ⟨matched, answers, matched_iff⟩ := isMatch_eq_ok inhabited inRange input
  have same : accepted = matched := by
    rw [Bool.eq_iff_iff, accepted_iff, matched_iff, renumbered.recognizes_iff,
      recognizes_listing_iff inhabited notLetter]
  exact ⟨accepted, accepts, same ▸ answers⟩

/-- A description restores the automaton exactly if none of its symbols is blank. -/
theorem toDescription_restores_iff (inhabited : 0 < dfa.size) (inRange : dfa.InRange)
    (success : dfa.toDescription epsilon = .ok text) :
    (∃ read, Description.ofText text = .ok read ∧ dfa.RestoredBy epsilon read) ↔
      dfa.size < Text.numeralBound ∧ Text.isBlank epsilon = false ∧
        ∀ symbol ∈ dfa.alphabet, Text.isBlank symbol = false := by
  constructor
  · rintro ⟨read, reads, restored⟩
    obtain ⟨visibleEpsilon, visible⟩ := Description.visible_of_ofText reads
    rw [restored.epsilon] at visibleEpsilon
    rw [restored.alphabet] at visible
    refine ⟨?_, visibleEpsilon, visible⟩
    obtain ⟨listing, lines, -⟩ := Description.ofText_eq_ok_iff.mp reads
    obtain ⟨rest, begins⟩ := (dfa.listing epsilon).exists_toText_eq
    rw [toList_of_toDescription success, begins] at lines
    exact Listing.lt_of_ofText lines
  · rintro ⟨few, visibleEpsilon, visible⟩
    exact exists_restoredBy inhabited inRange success few visibleEpsilon visible

/-- An automaton whose only letter is `a` is restored, and one whose only letter is a space is not. -/
theorem toDescription_restores_letter_not_space :
    ∃ letter space : Dfa, letter.alphabet.toList = ['a'] ∧ space.alphabet.toList = [' '] ∧
      (∃ text read, letter.toDescription '~' = .ok text ∧ Description.ofText text = .ok read ∧
        letter.RestoredBy '~' read) ∧
      ∃ text, space.toDescription '~' = .ok text ∧
        ¬ ∃ read, Description.ofText text = .ok read ∧ space.RestoredBy '~' read := by
  let only (symbol : Symbol) : Dfa :=
    ⟨#[{ transitions := (∅ : SortedMap Symbol StateId).insert symbol 1 }, { accepting := true }]⟩
  let letter : Dfa := only 'a'
  let space : Dfa := only ' '
  have letterDescribed := toDescription_eq_ok_iff.mpr ⟨(by decide : '~' ∉ letter.alphabet), rfl⟩
  have spaceDescribed := toDescription_eq_ok_iff.mpr ⟨(by decide : '~' ∉ space.alphabet), rfl⟩
  refine ⟨letter, space, rfl, rfl, ?_, _, spaceDescribed, ?_⟩
  · have inRange : letter.InRange := by decide
    have few : 2 < Text.numeralBound := by decide
    have visible (symbol : Symbol) (member : symbol ∈ letter.alphabet) : Text.isBlank symbol = false := by
      obtain rfl : symbol = 'a' := List.mem_singleton.mp member
      decide
    obtain ⟨read, reads, restored⟩ :=
      (toDescription_restores_iff (by decide) inRange letterDescribed).mpr ⟨few, by decide, visible⟩
    exact ⟨_, read, letterDescribed, reads, restored⟩
  · have inRange : space.InRange := by decide
    rw [toDescription_restores_iff (by decide) inRange spaceDescribed]
    rintro ⟨-, -, visible⟩
    exact Bool.noConfusion (visible ' ' (by decide))

end Dfa

end PatternAutomata
