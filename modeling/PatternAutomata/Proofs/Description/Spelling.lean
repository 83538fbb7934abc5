import PatternAutomata.Description.Spelling
import PatternAutomata.Proofs.Description.Reading

/-! # Reading gives what a text spells

A text is read exactly if it spells a listing whose header allows for its states, and then this listing
is what is read (`Listing.ofText_eq_ok_iff`). A text spells one listing at most
(`Listing.SpelledBy.unique`).
-/

namespace PatternAutomata

namespace Text

/-- The value of digits that follow others is not below the value of these. -/
theorem le_of_foldlM_digits {digits : List Char} {value n : Nat}
    (reads : digits.foldlM (fun value c => (digit? c).map (value * 10 + ·)) value = some n) :
    value ≤ n := by
  induction digits generalizing value with
  | nil => exact Nat.le_of_eq (Option.some.inj reads)
  | cons c rest ih =>
    rw [List.foldlM_cons] at reads
    obtain ⟨next, step, reads⟩ := Option.bind_eq_some_iff.mp reads
    obtain ⟨d, -, rfl⟩ := Option.map_eq_some_iff.mp step
    have later := ih reads
    omega

/-- Digits are read on if their value stays below the bound of numerals. -/
theorem readDigits_eq_ok_iff {digits : List Char} {value n : Nat} (bounded : value < numeralBound) :
    readDigits value digits = .ok n ↔ n < numeralBound ∧
      digits.foldlM (fun value c => (digit? c).map (value * 10 + ·)) value = some n := by
  induction digits generalizing value with
  | nil =>
    simp only [readDigits, Except.ok.injEq, List.foldlM_nil, pure, Option.some.injEq]
    constructor
    · rintro rfl
      exact ⟨bounded, rfl⟩
    · exact fun same => same.2
  | cons c rest ih =>
    rw [List.foldlM_cons]
    cases digit : digit? c with
    | none => simp [readDigits, digit]
    | some d =>
      simp only [readDigits, digit, Option.map_some, Option.bind_eq_bind, Option.bind_some]
      split
      · rename_i small
        exact ih small
      · rename_i large
        refine iff_of_false (by simp) ?_
        rintro ⟨below, reads⟩
        have above := le_of_foldlM_digits reads
        omega

/-- A numeral is the digits after a plus sign, or all of it. -/
theorem readNumeral_eq_ok_iff {field : List Char} {n : Nat} :
    readNumeral field = .ok n ↔ n < numeralBound ∧
      readNatural? (if field.head? = some '+' then field.tail else field) = some n := by
  unfold readNumeral readNatural?
  generalize (if field.head? = some '+' then field.tail else field) = digits
  dsimp only
  split
  · simp
  · exact readDigits_eq_ok_iff (by decide)

end Text

namespace Description

/-- What cannot hold of a text with a sign holds of a field without its sign, if it has one. -/
theorem unsigned_iff (holds : List Char → Prop) (noSign : ∀ rest, ¬ holds ('+' :: rest)) (field : List Char) :
    holds (if field.head? = some '+' then field.tail else field) ↔
      ∃ digits, (field = digits ∨ field = '+' :: digits) ∧ holds digits := by
  split
  · rename_i sign
    obtain ⟨digits, rfl⟩ := List.head?_eq_some_iff.mp sign
    constructor
    · exact fun here => ⟨digits, .inr rfl, here⟩
    · rintro ⟨other, rfl | same, here⟩
      · exact absurd here (noSign digits)
      · exact (List.cons.inj same).2 ▸ here
  · rename_i noSign
    constructor
    · exact fun here => ⟨field, .inl rfl, here⟩
    · rintro ⟨other, rfl | rfl, here⟩
      · exact here
      · exact absurd rfl noSign

/-- A field denotes the number that is read from it. -/
theorem denotes_iff {field : List Char} {n : Nat} : Denotes field n ↔ Text.readNumeral field = .ok n := by
  rw [Text.readNumeral_eq_ok_iff, Denotes]
  exact and_congr_right fun _ => (unsigned_iff (Text.readNatural? · = some n) (fun _ => nofun) field).symm

theorem readNumber_eq_ok_iff {line : Nat} {field : List Char} {n : Nat} :
    readNumber line field = .ok n ↔ Denotes field n := by
  rw [denotes_iff, readNumber]
  cases Text.readNumeral field with
  | error reason => simp [Except.mapError]
  | ok m => simp [Except.mapError]

theorem readSymbol_eq_ok_iff {line : Nat} {field : List Char} {symbol : Symbol} :
    readSymbol line field = .ok symbol ↔ field = [symbol] := by
  refine ⟨readSymbol_eq_ok, ?_⟩
  rintro rfl
  rfl

theorem mapM_readSymbol_eq_ok_iff {line : Nat} {fields : List (List Char)} {symbols : List Symbol} :
    fields.mapM (readSymbol line) = .ok symbols ↔ fields = symbols.map ([·]) := by
  constructor
  · intro success
    have each := mapM_eq_ok_iff_forall₂.mp success
    simp only [readSymbol_eq_ok_iff] at each
    rwa [← List.forall₂_eq_eq_eq, List.forall₂_map_right_iff]
  · rintro rfl
    exact mapM_readSymbol line symbols

theorem readFlag_eq_ok_iff {line : Nat} {field : List Char} {accepting : Bool} :
    readFlag line field = .ok accepting ↔ field = [flagOf accepting] := by
  constructor
  · intro success
    unfold readFlag at success
    split at success
    · cases success
      rfl
    · cases success
      rfl
    · cases success
  · rintro rfl
    exact readFlag_flagOf line accepting

variable {text : List Char} {listing other : Listing}

theorem Header.ofLine_eq_ok_iff {line : NumberedLine} {header : Header} :
    Header.ofLine line = .ok header ↔ header.SpelledBy line.fields := by
  obtain ⟨number, fields⟩ := line
  unfold Header.SpelledBy
  match fields with
  | [] => exact iff_of_false nofun (by simp)
  | [count] =>
    simp only [Header.ofLine, bind_eq_ok_iff]
    exact iff_of_false (by simp) (by simp)
  | count :: epsilon :: declared =>
    simp only [Header.ofLine, bind_eq_ok_iff, readNumber_eq_ok_iff, readSymbol_eq_ok_iff,
      mapM_readSymbol_eq_ok_iff, List.cons.injEq]
    constructor
    · rintro ⟨n, denotes, symbol, rfl, symbols, rfl, same⟩
      cases same
      exact ⟨count, denotes, rfl, rfl, rfl⟩
    · rintro ⟨_, denotes, rfl, rfl, rfl⟩
      exact ⟨_, denotes, _, rfl, _, rfl, rfl⟩

theorem EdgeLine.ofLine_eq_ok_iff {line : NumberedLine} {edge : EdgeLine} :
    EdgeLine.ofLine line = .ok edge ↔ edge.SpelledBy line.fields := by
  obtain ⟨number, fields⟩ := line
  unfold EdgeLine.SpelledBy
  match fields with
  | [] => exact iff_of_false nofun (by simp)
  | [flag] =>
    simp only [EdgeLine.ofLine, bind_eq_ok_iff]
    exact iff_of_false (by simp) (by simp)
  | [flag, source] =>
    simp only [EdgeLine.ofLine, bind_eq_ok_iff]
    exact iff_of_false (by simp) (by simp)
  | flag :: source :: destination :: symbols =>
    simp only [EdgeLine.ofLine, bind_eq_ok_iff, readFlag_eq_ok_iff, readNumber_eq_ok_iff,
      mapM_readSymbol_eq_ok_iff, List.cons.injEq]
    constructor
    · rintro ⟨accepting, rfl, n, sourceDenotes, m, destinationDenotes, found, rfl, success⟩
      split at success
      · cases success
      · rename_i inhabited
        cases success
        exact ⟨mt List.isEmpty_iff.mpr inhabited, source, destination, sourceDenotes, destinationDenotes, rfl, rfl,
          rfl, rfl⟩
    · rintro ⟨inhabited, _, _, sourceDenotes, destinationDenotes, rfl, rfl, rfl, rfl⟩
      refine ⟨_, rfl, _, sourceDenotes, _, destinationDenotes, _, rfl, ?_⟩
      rw [if_neg (mt List.isEmpty_iff.mp inhabited)]

namespace Listing

/-- A text spells a listing if its lines are read as those of the listing. -/
theorem spelledBy_iff : listing.SpelledBy text ↔
    ∃ first rest, contentLines text = first :: rest ∧ Header.ofLine first = .ok listing.header ∧
      rest.mapM EdgeLine.ofLine = .ok listing.edgeLines := by
  simp only [SpelledBy, ← map_fields_contentLines, List.map_eq_cons_iff, Header.ofLine_eq_ok_iff,
    mapM_eq_ok_iff_forall₂, EdgeLine.ofLine_eq_ok_iff]
  constructor
  · rintro ⟨_, _, ⟨first, rest, content, rfl, rfl⟩, header, edges⟩
    exact ⟨first, rest, content, header, (List.forall₂_map_right_iff.mp edges).flip⟩
  · rintro ⟨first, rest, content, header, edges⟩
    exact ⟨_, _, ⟨first, rest, content, rfl, rfl⟩, header, List.forall₂_map_right_iff.mpr edges.flip⟩

theorem SpelledBy.unique (spelled : listing.SpelledBy text) (again : other.SpelledBy text) :
    listing = other := by
  obtain ⟨first, rest, content, header, edges⟩ := spelledBy_iff.mp spelled
  obtain ⟨otherFirst, otherRest, otherContent, otherHeader, otherEdges⟩ := spelledBy_iff.mp again
  obtain ⟨rfl, rfl⟩ := List.cons.inj (content.symm.trans otherContent)
  obtain ⟨_, _⟩ := listing
  obtain ⟨_, _⟩ := other
  obtain rfl := Except.ok.inj (header.symm.trans otherHeader)
  obtain rfl := Except.ok.inj (edges.symm.trans otherEdges)
  rfl

/-- A text that spells a listing is read as this listing, or refused if the header does not allow for its states. -/
theorem SpelledBy.ofText_eq (spelled : listing.SpelledBy text) : Listing.ofText text =
    if listing.header.count < listing.stateNumbers.length
    then .error (.tooManyStates listing.header.count listing.stateNumbers.length) else .ok listing := by
  obtain ⟨first, rest, content, header, edges⟩ := spelledBy_iff.mp spelled
  simp only [Listing.ofText, content, header, edges, bind, Except.bind]

/-- A text is read as the listing that it spells, if the header allows for its states. -/
theorem ofText_eq_ok_iff : Listing.ofText text = .ok listing ↔
    listing.SpelledBy text ∧ listing.stateNumbers.length ≤ listing.header.count := by
  constructor
  · intro success
    obtain ⟨lines, enough⟩ := exists_of_ofText success
    exact ⟨spelledBy_iff.mpr lines, enough⟩
  · rintro ⟨spelled, enough⟩
    rw [spelled.ofText_eq, if_neg (Nat.not_lt.mpr enough)]

end Listing

end Description

end PatternAutomata
