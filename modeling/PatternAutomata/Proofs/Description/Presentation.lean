import PatternAutomata.Description.Spelling
import PatternAutomata.Proofs.Description.Renumbering
import PatternAutomata.Proofs.Description.Spelling
import PatternAutomata.Proofs.Text.Layout

/-! # Reading does not depend on presentation

A field denotes a number exactly if it is a numeral of it (`denotes_iff_numeralOf`), so what a description says can be
found in any text that restates it, under other numbers (`Listing.SpelledBy.restated`). States are numbered in the
order of their first mention, which an injective map keeps, so the automaton is the same (`ofListing_mapNumbers`).
-/

namespace PatternAutomata.Description

variable {listing : Listing} {text other : List Char} {rename : StateNumber → StateNumber}

/-- A field is a numeral of the number that it denotes. -/
theorem numeralOf_iff {n : Nat} {field : List Char} : NumeralOf n field ↔
    ∃ digits, (field = digits ∨ field = '+' :: digits) ∧ Text.readNatural? digits = some n := by
  simp only [NumeralOf, Text.readNatural?_eq_some_iff_exists_zeros, List.mem_cons, List.not_mem_nil, or_false]
  constructor
  · rintro ⟨zeros, sign, rfl | rfl, rfl⟩
    · exact ⟨_, .inl rfl, zeros, rfl⟩
    · exact ⟨_, .inr rfl, zeros, rfl⟩
  · rintro ⟨_, rfl | rfl, zeros, rfl⟩
    · exact ⟨zeros, [], .inl rfl, rfl⟩
    · exact ⟨zeros, ['+'], .inr rfl, rfl⟩

theorem denotes_iff_numeralOf {n : Nat} {field : List Char} :
    Denotes field n ↔ n < Text.numeralBound ∧ NumeralOf n field := by
  rw [Denotes, numeralOf_iff]

theorem NumeralOf.unique {n m : Nat} {field : List Char} (first : NumeralOf n field) (second : NumeralOf m field) :
    n = m := by
  rw [numeralOf_iff, ← unsigned_iff (Text.readNatural? · = some _) fun _ => nofun] at first second
  exact Option.some.inj (first.symm.trans second)

theorem Denotes.respelled {n m : Nat} {field again : List Char} (denotes : Denotes field n)
    (spells : NumeralOf m field) (respells : NumeralOf m again) : Denotes again n := by
  obtain ⟨bounded, numeral⟩ := denotes_iff_numeralOf.mp denotes
  obtain rfl := numeral.unique spells
  exact denotes_iff_numeralOf.mpr ⟨bounded, respells⟩

/-- Renames the numbers that edge lines can give, and keeps all others. -/
def extended (rename : StateNumber → StateNumber) (n : Nat) : Nat :=
  if bounded : n < Text.numeralBound then rename ⟨n, bounded⟩ else n

theorem extended_val (rename : StateNumber → StateNumber) (number : StateNumber) :
    extended rename number = rename number := dif_pos number.isLt

theorem extended_injective (injective : Function.Injective rename) : Function.Injective (extended rename) := by
  intro n m same
  unfold extended at same
  split at same <;> split at same
  · exact congrArg Fin.val (injective (Fin.ext same))
  · rename_i nBounded mUnbounded
    exact absurd (same ▸ (rename ⟨n, nBounded⟩).isLt) mUnbounded
  · rename_i nUnbounded mBounded
    exact absurd (same ▸ (rename ⟨m, mBounded⟩).isLt) nUnbounded
  · exact same

def EdgeLine.mapNumbers (map : Nat → Nat) (edge : EdgeLine) : EdgeLine :=
  { edge with source := map edge.source, destination := map edge.destination }

def Listing.mapNumbers (map : Nat → Nat) (listing : Listing) : Listing :=
  { listing with edgeLines := listing.edgeLines.map (EdgeLine.mapNumbers map) }

section Injective

variable {map : Nat → Nat} (injective : Function.Injective map)

include injective

theorem Listing.stateNumbers_mapNumbers (listing : Listing) :
    (listing.mapNumbers map).stateNumbers = listing.stateNumbers.map map := by
  rw [stateNumbers, stateNumbers, ← eraseDups_map injective, List.map_flatMap, mapNumbers, List.flatMap_map]
  rfl

theorem addEdgeLine_mapNumbers (epsilon : Symbol) (numbers : List Nat) (nfa : Nfa) (edge : EdgeLine) :
    addEdgeLine epsilon (numbers.map map) nfa (edge.mapNumbers map) = addEdgeLine epsilon numbers nfa edge := by
  simp only [addEdgeLine, EdgeLine.mapNumbers, idxOf_map injective]

/-- The automaton of a listing depends on where its numbers occur again, and not on what they are. -/
theorem ofListing_mapNumbers (listing : Listing) : ofListing (listing.mapNumbers map) = ofListing listing := by
  have letters : (listing.mapNumbers map).letters = listing.letters := by
    rw [Listing.letters, Listing.letters, Listing.mapNumbers, List.flatMap_map]
    rfl
  have lines (nfa : Nfa) : (listing.mapNumbers map).edgeLines.foldlM
        (addEdgeLine listing.header.epsilon (listing.stateNumbers.map map)) nfa =
      listing.edgeLines.foldlM (addEdgeLine listing.header.epsilon listing.stateNumbers) nfa := by
    simp only [Listing.mapNumbers, List.foldlM_map, addEdgeLine_mapNumbers injective]
  have header : (listing.mapNumbers map).header = listing.header := rfl
  simp only [ofListing, Listing.stateNumbers_mapNumbers injective, List.length_map, header, lines, letters]

end Injective

theorem Header.SpelledBy.restated {header : Header} {fields again : List (List Char)}
    (spelled : header.SpelledBy fields) (restates : RestatesHeader fields again) : header.SpelledBy again := by
  obtain ⟨count, denotes, same⟩ := spelled
  cases restates with
  | header spells respells =>
    obtain ⟨rfl, rfl⟩ := List.cons.inj same
    exact ⟨_, denotes.respelled spells respells, rfl⟩

theorem EdgeLine.SpelledBy.restated {edge : EdgeLine} {fields again : List (List Char)}
    (spelled : edge.SpelledBy fields) (restates : RestatesEdge rename fields again) :
    (edge.mapNumbers (extended rename)).SpelledBy again := by
  obtain ⟨inhabited, source, destination, sourceDenotes, destinationDenotes, same⟩ := spelled
  have renamed {n : Nat} {number : StateNumber} {field restated : List Char} (denotes : Denotes field n)
      (spells : NumeralOf number field) (respells : NumeralOf (rename number) restated) :
      Denotes restated (extended rename n) := by
    obtain rfl := (denotes_iff_numeralOf.mp denotes).2.unique spells
    exact denotes_iff_numeralOf.mpr ⟨extended_val rename number ▸ (rename number).isLt,
      extended_val rename number ▸ respells⟩
  cases restates with
  | edge spellsSource spellsTarget respellsSource respellsTarget =>
    obtain ⟨rfl, sameNumbers⟩ := List.cons.inj same
    obtain ⟨rfl, sameTarget⟩ := List.cons.inj sameNumbers
    obtain ⟨rfl, rfl⟩ := List.cons.inj sameTarget
    exact ⟨inhabited, _, _, renamed sourceDenotes spellsSource respellsSource,
      renamed destinationDenotes spellsTarget respellsTarget, rfl⟩

theorem forall₂_spelledBy_restated {edgeLines : List EdgeLine} {lines again : List (List (List Char))}
    (spelled : List.Forall₂ EdgeLine.SpelledBy edgeLines lines)
    (restates : List.Forall₂ (RestatesEdge rename) lines again) :
    List.Forall₂ EdgeLine.SpelledBy (edgeLines.map (EdgeLine.mapNumbers (extended rename))) again := by
  induction spelled generalizing again with
  | nil =>
    cases restates
    exact .nil
  | cons here _ ih =>
    cases restates with
    | cons restated below => exact .cons (here.restated restated) (ih below)

/-- A text that restates what another one spells spells it with the other numbers. -/
theorem Listing.SpelledBy.restated (spelled : listing.SpelledBy text) (restates : Restates rename text other) :
    (listing.mapNumbers (extended rename)).SpelledBy other := by
  obtain ⟨first, rest, content, header, edges⟩ := spelled
  obtain ⟨_, _, otherFirst, otherRest, laidOut, otherLaidOut, headers, lines⟩ := restates
  obtain ⟨rfl, rfl⟩ := List.cons.inj (content.symm.trans laidOut.filter_fields)
  exact ⟨otherFirst, otherRest, otherLaidOut.filter_fields, header.restated headers,
    forall₂_spelledBy_restated edges lines⟩

theorem EdgeLine.SpelledBy.restates_self {edge : EdgeLine} {fields : List (List Char)}
    (spelled : edge.SpelledBy fields) : RestatesEdge id fields fields := by
  obtain ⟨-, source, destination, sourceDenotes, destinationDenotes, rfl⟩ := spelled
  obtain ⟨sourceBounded, sourceSpells⟩ := denotes_iff_numeralOf.mp sourceDenotes
  obtain ⟨destinationBounded, destinationSpells⟩ := denotes_iff_numeralOf.mp destinationDenotes
  exact @RestatesEdge.edge id ⟨_, sourceBounded⟩ ⟨_, destinationBounded⟩ _ _ _ _ _ _ sourceSpells destinationSpells
    sourceSpells destinationSpells

theorem forall₂_restates_self {edgeLines : List EdgeLine} {lines : List (List (List Char))}
    (spelled : List.Forall₂ EdgeLine.SpelledBy edgeLines lines) : List.Forall₂ (RestatesEdge id) lines lines := by
  induction spelled with
  | nil => exact .nil
  | cons here _ ih => exact .cons here.restates_self ih

/-- A text that spells a listing restates itself, whatever its presentation is. -/
theorem Listing.SpelledBy.restates_self (spelled : listing.SpelledBy text) : Restates id text text := by
  obtain ⟨first, rest, content, ⟨count, denotes, rfl⟩, edges⟩ := spelled
  have laidOut := content ▸ Text.laidOut_fields text
  have header := (denotes_iff_numeralOf.mp denotes).2
  exact ⟨_, rest, _, rest, laidOut, laidOut, .header header header, forall₂_restates_self edges⟩

/-- What is read from a text depends on what the text says alone. It stays the same, down to the numbers of states,
when the states are given other numbers, one each, the numerals other zeros and signs in front, and the fields and
lines another layout. -/
theorem ofText_ignores_presentation {text : String} {read : Description} (success : ofText text = .ok read) :
    Restates id text.toList text.toList ∧
      ∀ rename : StateNumber → StateNumber, Function.Injective rename →
        ∀ other : String, Restates rename text.toList other.toList → ofText other = .ok read := by
  obtain ⟨listing, lines, built⟩ := ofText_eq_ok_iff.mp success
  obtain ⟨spelled, enough⟩ := Listing.ofText_eq_ok_iff.mp lines
  refine ⟨spelled.restates_self, fun rename injective other restates => ?_⟩
  have extendedInjective := extended_injective injective
  have sameLength : (listing.mapNumbers (extended rename)).stateNumbers.length = listing.stateNumbers.length := by
    rw [Listing.stateNumbers_mapNumbers extendedInjective, List.length_map]
  apply ofText_eq_ok_iff.mpr
  refine ⟨listing.mapNumbers (extended rename), Listing.ofText_eq_ok_iff.mpr ⟨spelled.restated restates, ?_⟩, ?_⟩
  · rw [sameLength]
    exact enough
  · rw [ofListing_mapNumbers extendedInjective]
    exact built

/-- Numbers of states that change places, zeros and signs in front of numerals, blank lines, a line without an end and
other blank characters between fields. -/
theorem ofText_ignores_presentation_of_swapped_numbers :
    ∃ read, ofText "3 e a\n- 7 12 a\n+ 12 7 e\n" = .ok read ∧
      ofText "\r\n +003\te\u3000a\r\n\u00a0\n-  12 007 a \r\n+ +7\t\t12 e" = .ok read := by
  obtain ⟨read, success⟩ : ∃ read, ofText "3 e a\n- 7 12 a\n+ 12 7 e\n" = .ok read := ⟨_, rfl⟩
  have restates : Restates (Equiv.swap ⟨7, by decide⟩ ⟨12, by decide⟩) "3 e a\n- 7 12 a\n+ 12 7 e\n".toList
      "\r\n +003\te\u3000a\r\n\u00a0\n-  12 007 a \r\n+ +7\t\t12 e".toList := by
    refine ⟨[['3'], ['e'], ['a']], [[['-'], ['7'], ['1', '2'], ['a']], [['+'], ['1', '2'], ['7'], ['e']]],
      [['+', '0', '0', '3'], ['e'], ['a']],
      [[['-'], ['1', '2'], ['0', '0', '7'], ['a']], [['+'], ['+', '7'], ['1', '2'], ['e']]], ?_, ?_, ?_, ?_⟩
    · decide
    · decide
    · exact @RestatesHeader.header 3 _ _ _ ⟨0, [], by simp, rfl⟩ ⟨2, ['+'], by simp, rfl⟩
    · refine .cons ?_ (.cons ?_ .nil)
      · exact @RestatesEdge.edge _ ⟨7, by decide⟩ ⟨12, by decide⟩ _ _ _ _ _ _ ⟨0, [], by simp, rfl⟩
          ⟨0, [], by simp, rfl⟩ ⟨0, [], by simp, rfl⟩ ⟨2, [], by simp, rfl⟩
      · exact @RestatesEdge.edge _ ⟨12, by decide⟩ ⟨7, by decide⟩ _ _ _ _ _ _ ⟨0, [], by simp, rfl⟩
          ⟨0, [], by simp, rfl⟩ ⟨0, ['+'], by simp, rfl⟩ ⟨0, [], by simp, rfl⟩
  exact ⟨read, success, (ofText_ignores_presentation success).2 _ (Equiv.injective _) _ restates⟩

end PatternAutomata.Description
