import Mathlib.Data.Nat.Find
import PatternAutomata.Description.Offence
import PatternAutomata.Proofs.Description.OnePass
import PatternAutomata.Proofs.Description.Recognition

/-! # Descriptions fail at their first offence

A line is refused with what is wrong with its fields first (`Header.ofLine_eq_error_iff`,
`EdgeLine.ofLine_eq_error_iff`). Lines are read one by one: those before a position are read exactly if nothing is
wrong with any of them (`readable_take_iff`), because reading one line more is reading those before it and then this
one, as a header if nothing has been read so far (`readable_concat_iff`). So a text that is refused is refused at
its first offence, unless it has no content or its header allows for too few states.
-/

namespace PatternAutomata

namespace Text

/-- Where reading digits stops because they are too large, the digits so far are worth too much. -/
theorem exists_of_readDigits_eq_tooLarge {digits : List Char} {value : Nat}
    (failure : readDigits value digits = .error .tooLarge) : ∃ front rest n, digits = front ++ rest ∧ front ≠ [] ∧
      front.foldlM (fun value c => (digit? c).map (value * 10 + ·)) value = some n ∧ numeralBound ≤ n := by
  induction digits generalizing value with
  | nil => cases failure
  | cons c digits ih =>
    cases digit : digit? c with
    | none => simp [readDigits, digit] at failure
    | some d =>
      simp only [readDigits, digit] at failure
      split at failure
      · obtain ⟨front, rest, n, rfl, -, reads, large⟩ := ih failure
        exact ⟨c :: front, rest, n, rfl, List.cons_ne_nil c front,
          foldlM_digits_cons_eq_some_iff.mpr ⟨d, digit, reads⟩, large⟩
      · rename_i large
        exact ⟨[c], digits, value * 10 + d, rfl, List.cons_ne_nil c [],
          foldlM_digits_cons_eq_some_iff.mpr ⟨d, digit, rfl⟩, Nat.le_of_not_lt large⟩

/-- Reading digits does not come beyond those that are worth too much. -/
theorem readDigits_eq_tooLarge {front rest : List Char} {value n : Nat} (bounded : value < numeralBound)
    (reads : front.foldlM (fun value c => (digit? c).map (value * 10 + ·)) value = some n)
    (large : numeralBound ≤ n) : readDigits value (front ++ rest) = .error .tooLarge := by
  induction front generalizing value with
  | nil =>
    obtain rfl := Option.some.inj reads
    exact absurd bounded (Nat.not_lt_of_le large)
  | cons c front ih =>
    obtain ⟨d, digit, reads⟩ := foldlM_digits_cons_eq_some_iff.mp reads
    simp only [List.cons_append, readDigits, digit]
    split
    · rename_i small
      exact ih small reads
    · rfl

/-- A numeral is too large if the digits at its beginning are worth too much. -/
theorem readNumeral_eq_tooLarge_iff {field : List Char} :
    readNumeral field = .error .tooLarge ↔ Description.Overflows field := by
  have unsigned := Description.unsigned_iff (fun digits => ∃ front rest n, digits = front ++ rest ∧
    readNatural? front = some n ∧ numeralBound ≤ n) (by
      rintro digits ⟨front, rest, n, whole, reads, -⟩
      cases front with
      | nil => cases reads
      | cons c front =>
        obtain ⟨rfl, -⟩ := List.cons.inj whole
        cases reads) field
  rw [Description.Overflows, ← unsigned, readNumeral]
  generalize (if field.head? = some '+' then field.tail else field) = digits
  simp only [readNatural?_eq_some_iff]
  constructor
  · intro failure
    split at failure
    · cases failure
    · obtain ⟨front, rest, n, whole, inhabited, reads, large⟩ := exists_of_readDigits_eq_tooLarge failure
      exact ⟨front, rest, n, whole, ⟨inhabited, reads⟩, large⟩
  · rintro ⟨front, rest, n, rfl, ⟨inhabited, reads⟩, large⟩
    rw [if_neg (by simp [inhabited])]
    exact readDigits_eq_tooLarge (by decide) reads large

end Text

namespace Description

variable {line : Nat} {field : List Char} {fields : List (List Char)} {cause : DescriptionError}

/-- A field is no numeral for the reason that it is refused for. -/
theorem noNumeral_iff {reason : Text.NumeralError} :
    NoNumeral field reason ↔ Text.readNumeral field = .error reason := by
  cases reason with
  | tooLarge => exact Text.readNumeral_eq_tooLarge_iff.symm
  | invalidDigit =>
    simp only [NoNumeral, denotes_iff, ← Text.readNumeral_eq_tooLarge_iff]
    cases Text.readNumeral field with
    | ok n => simp
    | error other => cases other <;> simp

theorem readNumber_eq_error_iff : readNumber line field = .error cause ↔
    ∃ reason, NoNumeral field reason ∧ cause = .badNumber line (.ofList field) reason := by
  simp only [noNumeral_iff, readNumber]
  cases Text.readNumeral field with
  | ok n => simp [Except.mapError]
  | error reason => simp [Except.mapError, eq_comm]

theorem readSymbol_eq_error_iff : readSymbol line field = .error cause ↔
    NoSymbol field ∧ cause = .badSymbol line (.ofList field) := by
  unfold readSymbol
  split
  · rename_i c
    exact iff_of_false nofun fun ⟨several, _⟩ => several c rfl
  · rename_i several
    simp only [Except.error.injEq, eq_comm (a := cause)]
    exact (and_iff_right fun symbol same => several symbol same).symm

theorem readFlag_eq_error_iff : readFlag line field = .error cause ↔
    (∀ accepting, field ≠ [flagOf accepting]) ∧ cause = .badFlag line (.ofList field) := by
  unfold readFlag
  split
  · exact iff_of_false nofun fun ⟨unknown, _⟩ => unknown true rfl
  · exact iff_of_false nofun fun ⟨unknown, _⟩ => unknown false rfl
  · rename_i notPlus notMinus
    simp only [Except.error.injEq, eq_comm (a := cause)]
    refine (and_iff_right fun accepting => ?_).symm
    cases accepting
    · exact notMinus
    · exact notPlus

theorem mapM_readSymbol_eq_error_iff : fields.mapM (readSymbol line) = .error cause ↔
    ∃ (symbols : List Symbol) (token : List Char) (rest : List (List Char)),
      fields = symbols.map ([·]) ++ token :: rest ∧ NoSymbol token ∧ cause = .badSymbol line (.ofList token) := by
  simp only [mapM_eq_error_iff, mapM_readSymbol_eq_ok_iff, readSymbol_eq_error_iff]
  constructor
  · rintro ⟨_, token, rest, rfl, ⟨symbols, rfl⟩, several, rfl⟩
    exact ⟨symbols, token, rest, rfl, several, rfl⟩
  · rintro ⟨symbols, token, rest, rfl, several, rfl⟩
    exact ⟨_, token, rest, rfl, ⟨symbols, rfl⟩, several, rfl⟩

/-- A header line is refused with what is wrong with its fields first. -/
theorem Header.ofLine_eq_error_iff {line : NumberedLine} (content : line.fields ≠ []) :
    Header.ofLine line = .error cause ↔ Header.Offends line.number line.fields cause := by
  obtain ⟨number, fields⟩ := line
  match fields with
  | [] => exact absurd rfl content
  | [count] =>
    simp only [Header.ofLine, bind_eq_error_iff, readNumber_eq_error_iff, readNumber_eq_ok_iff]
    constructor
    · rintro (⟨reason, unreadable, rfl⟩ | ⟨n, counts, failure⟩)
      · exact .count unreadable
      · cases failure
        exact .noEpsilon counts
    · rintro (unreadable | counts)
      · exact .inl ⟨_, unreadable, rfl⟩
      · exact .inr ⟨_, counts, rfl⟩
  | count :: epsilon :: declared =>
    simp only [Header.ofLine, bind_eq_error_iff, readNumber_eq_error_iff, readNumber_eq_ok_iff,
      readSymbol_eq_error_iff, readSymbol_eq_ok_iff, mapM_readSymbol_eq_error_iff]
    constructor
    · rintro (⟨reason, unreadable, rfl⟩ | ⟨n, counts, ⟨several, rfl⟩ | ⟨symbol, rfl, later⟩⟩)
      · exact .count unreadable
      · exact .epsilon counts several
      · rcases later with ⟨symbols, token, rest, rfl, several, rfl⟩ | ⟨symbols, -, failure⟩
        · exact .declared counts several
        · cases failure
    · rintro (unreadable | _ | ⟨counts, several⟩ | ⟨counts, several⟩)
      · exact .inl ⟨_, unreadable, rfl⟩
      · exact .inr ⟨_, counts, .inl ⟨several, rfl⟩⟩
      · exact .inr ⟨_, counts, .inr ⟨_, rfl, .inl ⟨_, _, _, rfl, several, rfl⟩⟩⟩

theorem EdgeLine.ofLine_eq_error_iff {line : NumberedLine} (content : line.fields ≠ []) :
    EdgeLine.ofLine line = .error cause ↔ EdgeLine.Offends line.number line.fields cause := by
  obtain ⟨number, fields⟩ := line
  match fields with
  | [] => exact absurd rfl content
  | [flag] =>
    simp only [EdgeLine.ofLine, bind_eq_error_iff, readFlag_eq_error_iff, readFlag_eq_ok_iff]
    constructor
    · rintro (⟨unknown, rfl⟩ | ⟨accepting, rfl, failure⟩)
      · exact .flag unknown
      · cases failure
        exact .noSource
    · rintro (unknown | _)
      · exact .inl ⟨unknown, rfl⟩
      · exact .inr ⟨_, rfl, rfl⟩
  | [flag, source] =>
    simp only [EdgeLine.ofLine, bind_eq_error_iff, readFlag_eq_error_iff, readFlag_eq_ok_iff]
    constructor
    · rintro (⟨unknown, rfl⟩ | ⟨accepting, rfl, failure⟩)
      · exact .flag unknown
      · cases failure
        exact .noDestination
    · rintro (unknown | _)
      · exact .inl ⟨unknown, rfl⟩
      · exact .inr ⟨_, rfl, rfl⟩
  | flag :: source :: destination :: symbols =>
    simp only [EdgeLine.ofLine, bind_eq_error_iff, readFlag_eq_error_iff, readFlag_eq_ok_iff,
      readNumber_eq_error_iff, readNumber_eq_ok_iff, mapM_readSymbol_eq_error_iff, mapM_readSymbol_eq_ok_iff]
    constructor
    · rintro (⟨unknown, rfl⟩ | ⟨accepting, rfl, ⟨reason, unreadable, rfl⟩ | ⟨n, begins, later⟩⟩)
      · exact .flag unknown
      · exact .source unreadable
      rcases later with ⟨reason, unreadable, rfl⟩ | ⟨m, ends, later⟩
      · exact .destination begins unreadable
      rcases later with ⟨read, token, rest, rfl, several, rfl⟩ | ⟨read, rfl, failure⟩
      · exact .symbol begins ends several
      split at failure
      · rename_i none
        obtain rfl := List.isEmpty_iff.mp none
        cases failure
        exact .noSymbol begins ends
      · cases failure
    · rintro (unknown | _ | _ | unreadable | ⟨begins, unreadable⟩ | ⟨begins, ends, several⟩ | ⟨begins, ends⟩)
      · exact .inl ⟨unknown, rfl⟩
      · exact .inr ⟨_, rfl, .inl ⟨_, unreadable, rfl⟩⟩
      · exact .inr ⟨_, rfl, .inr ⟨_, begins, .inl ⟨_, unreadable, rfl⟩⟩⟩
      · exact .inr ⟨_, rfl, .inr ⟨_, begins, .inr ⟨_, ends, .inl ⟨_, _, _, rfl, several, rfl⟩⟩⟩⟩
      · exact .inr ⟨_, rfl, .inr ⟨_, begins, .inr ⟨_, ends, .inr ⟨[], rfl, rfl⟩⟩⟩⟩

variable {listing : Listing} {text line : List Char} {number position : Nat}

/-- The header is still to come as long as nothing has been read. -/
theorem headerPending_iff :
    HeaderPending text position ↔ numbered 1 ((Text.lines text).take position) = [] :=
  numbered_eq_nil_iff.symm

/-- Lines that can be read: the first as a header and the others as edge lines. -/
def Readable : List NumberedLine → Prop
  | [] => True
  | first :: rest => (∃ header : Header, header.SpelledBy first.fields) ∧
      ∀ line ∈ rest, ∃ edge : EdgeLine, edge.SpelledBy line.fields

/-- One line more can be read if those before can and it is a header, if there are none, or an edge line. -/
theorem readable_concat_iff {front : List NumberedLine} {item : NumberedLine} :
    Readable (front ++ [item]) ↔ Readable front ∧
      (front = [] → ∃ header : Header, header.SpelledBy item.fields) ∧
      (front ≠ [] → ∃ edge : EdgeLine, edge.SpelledBy item.fields) := by
  cases front with
  | nil => simp [Readable]
  | cons first rest => simp [Readable, or_imp, forall_and, and_assoc]

/-- The lines before a position can be read exactly if nothing is wrong with any of them. -/
theorem readable_take_iff : Readable (numbered 1 ((Text.lines text).take position)) ↔
    ∀ earlier < position, SoundAt text earlier := by
  induction position with
  | zero => simp [Readable]
  | succ position ih =>
    rw [Nat.forall_lt_succ_right, ← ih, numbered_take_succ, SoundAt, headerPending_iff]
    cases read : (Text.lines text)[position]? with
    | none => simp
    | some line =>
      rw [Option.toList_some]
      cases content : Text.allBlank line with
      | true => simp [numbered_cons_of_blank, content]
      | false =>
        rw [numbered_cons_of_content _ content, numbered_nil, readable_concat_iff]
        simp only [Option.some.injEq, forall_eq', content, forall_const, ne_eq]

theorem exists_offendsAt_of_not_soundAt (unsound : ¬ SoundAt text position) :
    ∃ cause, OffendsAt text position cause := by
  simp only [SoundAt, not_forall, not_and_or] at unsound
  obtain ⟨line, read, content, ⟨pending, notHeader⟩ | ⟨behind, notEdge⟩⟩ := unsound
  · have inhabited := fields_ne_nil content
    cases reads : Header.ofLine { number := position + 1, fields := Text.fields line } with
    | ok header => exact absurd ⟨header, Header.ofLine_eq_ok_iff.mp reads⟩ notHeader
    | error cause =>
      exact ⟨cause, .header read content pending ((Header.ofLine_eq_error_iff inhabited).mp reads)⟩
  · have inhabited := fields_ne_nil content
    cases reads : EdgeLine.ofLine { number := position + 1, fields := Text.fields line } with
    | ok edge => exact absurd ⟨edge, EdgeLine.ofLine_eq_ok_iff.mp reads⟩ notEdge
    | error cause =>
      exact ⟨cause, .edgeLine read content behind ((EdgeLine.ofLine_eq_error_iff inhabited).mp reads)⟩

/-- A line that is not blank comes behind what is read of the lines before it. -/
theorem exists_contentLines_eq (read : (Text.lines text)[position]? = some line)
    (content : Text.allBlank line = false) :
    ∃ later, contentLines text = numbered 1 ((Text.lines text).take position) ++
      { number := position + 1, fields := Text.fields line } :: later := by
  obtain ⟨inside, here⟩ := List.getElem?_eq_some_iff.mp read
  refine ⟨numbered (position + 1 + 1) ((Text.lines text).drop (position + 1)), ?_⟩
  conv_lhs =>
    rw [contentLines_eq, ← List.take_append_drop position (Text.lines text), List.drop_eq_getElem_cons inside]
  rw [numbered_append, here, List.length_take_of_le (Nat.le_of_lt inside), Nat.add_comm 1,
    numbered_cons_of_content _ content]

/-- Edge lines can be read if every one of them spells an edge. -/
theorem exists_mapM_ofLine {rest : List NumberedLine}
    (spelled : ∀ line ∈ rest, ∃ edge : EdgeLine, edge.SpelledBy line.fields) :
    ∃ edgeLines, rest.mapM EdgeLine.ofLine = .ok edgeLines := by
  have each (line : NumberedLine) (member : line ∈ rest) :
      ∃ edge, EdgeLine.ofLine line = .ok edge ∧ edge.SpelledBy line.fields :=
    (spelled line member).imp fun edge spells => ⟨EdgeLine.ofLine_eq_ok_iff.mpr spells, spells⟩
  exact (mapM_eq_ok each).imp fun edgeLines success => success.1

/-- A text is refused with its first offence. -/
theorem FirstOffence.ofText_eq_error (offence : FirstOffence text position cause) :
    Listing.ofText text = .error cause := by
  obtain ⟨offends, first⟩ := offence
  have readable := readable_take_iff.mpr first
  cases offends with
  | header read content pending offends =>
    have inhabited := fields_ne_nil content
    obtain ⟨later, lines⟩ := exists_contentLines_eq read content
    rw [headerPending_iff.mp pending, List.nil_append] at lines
    rw [Listing.ofText, lines]
    exact bind_eq_error_iff.mpr (.inl ((Header.ofLine_eq_error_iff inhabited).mpr offends))
  | @edgeLine line read content behind offends =>
    have inhabited := fields_ne_nil content
    obtain ⟨later, lines⟩ := exists_contentLines_eq read content
    cases before : numbered 1 ((Text.lines text).take position) with
    | nil => exact absurd (headerPending_iff.mpr before) behind
    | cons head front =>
      rw [before] at readable lines
      obtain ⟨⟨header, spells⟩, edges⟩ := readable
      rw [Listing.ofText, lines]
      refine bind_eq_error_iff.mpr (.inr ⟨header, Header.ofLine_eq_ok_iff.mpr spells, ?_⟩)
      refine bind_eq_error_iff.mpr (.inl (mapM_eq_error_iff.mpr ?_))
      exact ⟨front, _, later, rfl, exists_mapM_ofLine edges, (EdgeLine.ofLine_eq_error_iff inhabited).mpr offends⟩

/-- A text where nothing is wrong with any line has no content or spells a listing. -/
theorem exists_spelledBy_of_soundAt (sound : ∀ position, SoundAt text position) :
    contentLines text = [] ∨ ∃ listing : Listing, listing.SpelledBy text := by
  have readable := (@readable_take_iff text (Text.lines text).length).mpr fun position _ => sound position
  rw [List.take_length, ← contentLines_eq] at readable
  cases content : contentLines text with
  | nil => exact .inl rfl
  | cons first rest =>
    rw [content] at readable
    obtain ⟨⟨header, spells⟩, edges⟩ := readable
    obtain ⟨edgeLines, success⟩ := exists_mapM_ofLine edges
    exact .inr ⟨⟨header, edgeLines⟩, Listing.spelledBy_iff.mpr
      ⟨first, rest, content, Header.ofLine_eq_ok_iff.mpr spells, success⟩⟩

/-- Where something is wrong with a line, something is wrong with a line first. -/
theorem exists_firstOffence (unsound : ¬ SoundAt text position) :
    ∃ position cause, FirstOffence text position cause := by
  classical
  have somewhere : ∃ position, ¬ SoundAt text position := ⟨position, unsound⟩
  obtain ⟨cause, offends⟩ := exists_offendsAt_of_not_soundAt (Nat.find_spec somewhere)
  exact ⟨Nat.find somewhere, cause, offends, fun earlier before => not_not.mp (Nat.find_min somewhere before)⟩

/-- A text has no content, or something is wrong with one of its lines, or it spells a listing. -/
theorem problem_cases (text : List Char) : contentLines text = [] ∨
    (∃ position cause, FirstOffence text position cause) ∨ ∃ listing : Listing, listing.SpelledBy text := by
  by_cases sound : ∀ position, SoundAt text position
  · exact (exists_spelledBy_of_soundAt sound).imp_right .inr
  · obtain ⟨position, unsound⟩ := not_forall.mp sound
    exact .inr (.inl (exists_firstOffence unsound))

theorem ofText_eq_missingHeader (blank : contentLines text = []) : Listing.ofText text = .error .missingHeader := by
  rw [Listing.ofText, blank]

/-- A text without content is refused for its missing header, one with an offence for the first one, and one that
spells a listing if its header does not allow for its states. -/
theorem Listing.ofText_eq_error_iff : Listing.ofText text = .error cause ↔
    (contentLines text = [] ∧ cause = .missingHeader) ∨ (∃ position, FirstOffence text position cause) ∨
      ∃ listing : Listing, listing.SpelledBy text ∧ listing.header.count < listing.stateNumbers.length ∧
        cause = .tooManyStates listing.header.count listing.stateNumbers.length := by
  constructor
  · intro failure
    rcases problem_cases text with blank | ⟨position, other, offence⟩ | ⟨listing, spelled⟩
    · cases (ofText_eq_missingHeader blank).symm.trans failure
      exact .inl ⟨blank, rfl⟩
    · cases offence.ofText_eq_error.symm.trans failure
      exact .inr (.inl ⟨position, offence⟩)
    · rw [spelled.ofText_eq] at failure
      split at failure
      · rename_i few
        cases failure
        exact .inr (.inr ⟨listing, spelled, few, rfl⟩)
      · cases failure
  · rintro (⟨blank, rfl⟩ | ⟨position, offence⟩ | ⟨listing, spelled, few, rfl⟩)
    · exact ofText_eq_missingHeader blank
    · exact offence.ofText_eq_error
    · rw [spelled.ofText_eq, if_pos few]

/-- A text is refused if its lines are. -/
theorem ofText_eq_error_iff {text : String} {failure : Error} : ofText text = .error failure ↔
    ∃ cause, Listing.ofText text.toList = .error cause ∧ failure = .description cause := by
  change ((Listing.ofText text.toList).mapError Error.description).bind (fun listing =>
    (ofListing listing).mapError Error.fault) = .error failure ↔ _
  cases Listing.ofText text.toList with
  | error cause => simp [Except.mapError, Except.bind, eq_comm]
  | ok listing =>
    obtain ⟨nfa, -, built⟩ := ofListing_eq_ok listing
    simp [Except.mapError, Except.bind, built]

theorem Header.Offends.line?_eq (offends : Header.Offends number fields cause) : cause.line? = some number := by
  cases offends <;> rfl

theorem EdgeLine.Offends.line?_eq (offends : EdgeLine.Offends number fields cause) : cause.line? = some number := by
  cases offends <;> rfl

theorem OffendsAt.line?_eq (offends : OffendsAt text position cause) : cause.line? = some (position + 1) := by
  cases offends with
  | header _ _ _ offends => exact offends.line?_eq
  | edgeLine _ _ _ offends => exact offends.line?_eq

/-- The first field of a line is never missing. -/
theorem OffendsAt.ne_missingField (offends : OffendsAt text position cause) {field : Field}
    (atFront : field = .stateCount ∨ field = .flag) : cause ≠ .missingField number field := by
  rintro rfl
  cases offends with
  | @header line _ _ _ offends =>
    generalize Text.fields line = fields at offends
    cases offends
    simp at atFront
  | @edgeLine line _ _ _ offends =>
    generalize Text.fields line = fields at offends
    cases offends
    all_goals simp at atFront

theorem Listing.ofText_ne_missingField {field : Field} (atFront : field = .stateCount ∨ field = .flag)
    (number : Nat) : Listing.ofText text ≠ .error (.missingField number field) := by
  intro failure
  rcases Listing.ofText_eq_error_iff.mp failure with ⟨-, same⟩ | ⟨position, offence⟩ | ⟨_, -, -, same⟩
  · cases same
  · exact offence.offends.ne_missingField atFront rfl
  · cases same

/-- What is first wrong with a text depends on the lines up to there only. -/
theorem FirstOffence.of_take_eq {other : List Char} (offence : FirstOffence text position cause)
    (same : (Text.lines other).take (position + 1) = (Text.lines text).take (position + 1)) :
    FirstOffence other position cause := by
  have read {earlier : Nat} (before : earlier ≤ position) :
      (Text.lines other)[earlier]? = (Text.lines text)[earlier]? := by
    have inside := Nat.lt_succ_of_le before
    rw [← List.getElem?_take_of_lt inside, same, List.getElem?_take_of_lt inside]
  have pending {earlier : Nat} (before : earlier ≤ position) :
      HeaderPending other earlier ↔ HeaderPending text earlier := by
    have shorter := congrArg (List.take earlier) same
    rw [List.take_take, List.take_take, Nat.min_eq_left (Nat.le_succ_of_le before)] at shorter
    rw [HeaderPending, HeaderPending, shorter]
  obtain ⟨offends, first⟩ := offence
  refine ⟨?_, fun earlier before => ?_⟩
  · cases offends with
    | header here content before offends =>
      exact .header (read le_rfl ▸ here) content ((pending le_rfl).mpr before) offends
    | edgeLine here content behind offends =>
      exact .edgeLine (read le_rfl ▸ here) content (mt (pending le_rfl).mp behind) offends
  · have sound := first earlier before
    rw [SoundAt, ← read before.le, ← pending before.le] at sound
    exact sound

/-- A text is read exactly if it spells a listing whose header allows for as many states as there are different
numbers on edge lines. One that is refused is refused for its missing header exactly if all of its lines are blank,
for too many states exactly if it spells a listing otherwise, and else for what is wrong first, told with the number
of the line, whatever comes behind this line. A missing state count is never reported. All of this holds as well
where the numbers of a line become states before the rest of it is read. -/
theorem ofText_reports_first_problem (text : String) :
    ofTextInOnePass text = ofText text ∧
    ((∃ read, ofText text = .ok read) ↔ ∃ listing : Listing, listing.SpelledBy text.toList ∧
      (listing.edgeLines.flatMap fun edge => [edge.source, edge.destination]).toFinset.card ≤
        listing.header.count) ∧
    (ofText text = .error (.description .missingHeader) ↔
      ∀ line ∈ Text.lines text.toList, Text.allBlank line = true) ∧
    (∀ declared found, ofText text = .error (.description (.tooManyStates declared found)) ↔
      ∃ listing : Listing, listing.SpelledBy text.toList ∧ declared = listing.header.count ∧
        found = (listing.edgeLines.flatMap fun edge => [edge.source, edge.destination]).toFinset.card ∧
        declared < found) ∧
    (∀ failure, ofText text = .error failure → failure = .description .missingHeader ∨
      (∃ position cause, FirstOffence text.toList position cause ∧ failure = .description cause) ∨
      ∃ declared found, failure = .description (.tooManyStates declared found)) ∧
    (∀ position cause, FirstOffence text.toList position cause → cause.line? = some (position + 1) ∧
      ∀ other : String,
        (Text.lines other.toList).take (position + 1) = (Text.lines text.toList).take (position + 1) →
        ofText other = .error (.description cause)) ∧
    ∀ number, ofText text ≠ .error (.description (.missingField number .stateCount)) := by
  have refused (cause : DescriptionError) : ofText text = .error (.description cause) ↔
      Listing.ofText text.toList = .error cause := by
    simp [ofText_eq_error_iff]
  refine ⟨ofTextInOnePass_eq text, ?_, ?_, fun declared found => ?_, fun failure fails => ?_,
    fun position cause offence => ?_, fun number fails => ?_⟩
  · simp only [← Listing.length_stateNumbers, ← Listing.ofText_eq_ok_iff, ofText_eq_ok_iff]
    constructor
    · rintro ⟨read, listing, lines, -⟩
      exact ⟨listing, lines⟩
    · rintro ⟨listing, lines⟩
      obtain ⟨nfa, -, built⟩ := ofListing_eq_ok listing
      exact ⟨_, listing, lines, built⟩
  · rw [refused, Listing.ofText_eq_error_iff, ← contentLines_eq_nil_iff]
    constructor
    · rintro (⟨blank, -⟩ | ⟨position, offence⟩ | ⟨_, -, -, same⟩)
      · exact blank
      · cases offence.offends.line?_eq
      · cases same
    · exact fun blank => .inl ⟨blank, rfl⟩
  · rw [refused, Listing.ofText_eq_error_iff]
    simp only [← Listing.length_stateNumbers]
    constructor
    · rintro (⟨-, same⟩ | ⟨position, offence⟩ | ⟨listing, spelled, few, same⟩)
      · cases same
      · cases offence.offends.line?_eq
      · cases same
        exact ⟨listing, spelled, rfl, rfl, few⟩
    · rintro ⟨listing, spelled, rfl, rfl, few⟩
      exact .inr (.inr ⟨listing, spelled, few, rfl⟩)
  · obtain ⟨cause, lines, rfl⟩ := ofText_eq_error_iff.mp fails
    rcases Listing.ofText_eq_error_iff.mp lines with ⟨-, rfl⟩ | ⟨position, offence⟩ | ⟨listing, -, -, rfl⟩
    · exact .inl rfl
    · exact .inr (.inl ⟨position, cause, offence, rfl⟩)
    · exact .inr (.inr ⟨_, _, rfl⟩)
  · refine ⟨offence.offends.line?_eq, fun other same => ?_⟩
    exact ofText_eq_error_iff.mpr ⟨cause, (offence.of_take_eq same).ofText_eq_error, rfl⟩
  · exact Listing.ofText_ne_missingField (.inl rfl) number ((refused _).mp fails)

/-- A line that has no numeral where its destination should be, and no symbol either, is reported for its numeral,
with the blank line counted, whatever is wrong behind it. -/
theorem ofText_reports_first_problem_of_many :
    FirstOffence "\n3 ~ a\n+ 0 1 a\n- 1 x\n+ y 2 ab\n".toList 3 (.badNumber 4 "x" .invalidDigit) ∧
      ofText "\n3 ~ a\n+ 0 1 a\n- 1 x\n*" = .error (.description (.badNumber 4 "x" .invalidDigit)) := by
  have fails : ofText "\n3 ~ a\n+ 0 1 a\n- 1 x\n+ y 2 ab\n" =
      .error (.description (.badNumber 4 "x" .invalidDigit)) := rfl
  obtain ⟨-, -, -, -, problems, later, -⟩ := ofText_reports_first_problem "\n3 ~ a\n+ 0 1 a\n- 1 x\n+ y 2 ab\n"
  rcases problems _ fails with missing | ⟨position, cause, offence, same⟩ | ⟨_, _, many⟩
  · cases missing
  · obtain rfl := Error.description.inj same
    obtain ⟨line, others⟩ := later position _ offence
    obtain rfl : 3 = position := Nat.succ.inj (Option.some.inj line)
    exact ⟨offence, others "\n3 ~ a\n+ 0 1 a\n- 1 x\n*" (by decide)⟩
  · cases many

end Description

end PatternAutomata
