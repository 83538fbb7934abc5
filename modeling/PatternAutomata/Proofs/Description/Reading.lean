import PatternAutomata.Description.Listing
import PatternAutomata.Description.Writer
import PatternAutomata.Proofs.Lists
import PatternAutomata.Proofs.Text.Line
import PatternAutomata.Proofs.Text.Numeral

/-! # Reading what was written as a listing

A listing whose symbols are not blank and whose numbers are below the bound of numerals is read back
from its text (`Listing.ofText_toText`). The conditions are necessary: whatever text is read, no symbol
of its listing is blank (`Listing.visible_of_ofText`), and a text that begins with a larger number is not
read (`Listing.lt_of_ofText`).
-/

namespace PatternAutomata.Description

/-- The lines that are not blank, with their numbers, which begin at a number. -/
def numbered (number : Nat) (lines : List (List Char)) : List NumberedLine :=
  (lines.zipIdx number).filterMap fun (line, number) =>
    if Text.allBlank line then none else some { number, fields := Text.fields line }

section Numbering

variable {text line : List Char} {lines : List (List Char)} {number : Nat}

theorem fields_ne_nil (content : Text.allBlank line = false) : Text.fields line ≠ [] :=
  mt Text.fields_eq_nil_iff.mp (Bool.eq_false_iff.mp content)

theorem contentLines_eq (text : List Char) : contentLines text = numbered 1 (Text.lines text) := rfl

@[simp] theorem numbered_nil (number : Nat) : numbered number [] = [] := rfl

theorem numbered_append (number : Nat) (front rest : List (List Char)) :
    numbered number (front ++ rest) = numbered number front ++ numbered (number + front.length) rest := by
  rw [numbered, List.zipIdx_append, List.filterMap_append]
  rfl

theorem numbered_cons_of_blank (number : Nat) (blank : Text.allBlank line = true) (rest : List (List Char)) :
    numbered number (line :: rest) = numbered (number + 1) rest := by
  simp [numbered, blank]

theorem numbered_cons_of_content (number : Nat) (content : Text.allBlank line = false) (rest : List (List Char)) :
    numbered number (line :: rest) =
      { number, fields := Text.fields line } :: numbered (number + 1) rest := by
  simp [numbered, content]

theorem numbered_eq_nil_iff : numbered number lines = [] ↔ ∀ line ∈ lines, Text.allBlank line = true := by
  induction lines generalizing number with
  | nil => simp
  | cons line rest ih =>
    cases blank : Text.allBlank line with
    | true => simp [numbered_cons_of_blank, blank, ih]
    | false => simp [numbered_cons_of_content, blank]

/-- Up to a position come the lines before it and then the line that is there. -/
theorem numbered_take_succ (lines : List (List Char)) (position : Nat) :
    numbered 1 (lines.take (position + 1)) =
      numbered 1 (lines.take position) ++ numbered (position + 1) lines[position]?.toList := by
  rw [List.take_add_one, numbered_append]
  cases read : lines[position]? with
  | none => rfl
  | some line =>
    rw [List.length_take_of_le (Nat.le_of_lt (List.getElem?_eq_some_iff.mp read).1), Nat.add_comm 1]

theorem contentLines_eq_nil_iff :
    contentLines text = [] ↔ ∀ line ∈ Text.lines text, Text.allBlank line = true :=
  numbered_eq_nil_iff

theorem map_fields_contentLines (text : List Char) : (contentLines text).map NumberedLine.fields =
    ((Text.lines text).map Text.fields).filter (· ≠ []) := by
  rw [contentLines_eq]
  generalize Text.lines text = lines, 1 = number
  induction lines generalizing number with
  | nil => rfl
  | cons line rest ih =>
    rw [List.map_cons, List.filter_cons, ← ih (number + 1)]
    cases blank : Text.allBlank line with
    | true => simp [numbered_cons_of_blank, blank, Text.fields_eq_nil_iff.mpr blank]
    | false => simp [numbered_cons_of_content, blank, fields_ne_nil blank]

end Numbering

def Header.toFields (header : Header) : List (List Char) :=
  Text.writeNumeral header.count :: [header.epsilon] :: header.declared.map ([·])

def EdgeLine.toFields (edge : EdgeLine) : List (List Char) :=
  [flagOf edge.accepting] :: Text.writeNumeral edge.source :: Text.writeNumeral edge.destination ::
    edge.symbols.map ([·])

def Listing.toText (listing : Listing) : List Char :=
  (listing.header.toFields :: listing.edgeLines.map EdgeLine.toFields).flatMap Text.writeLine

/-- The text of a listing begins with the number of states. -/
theorem Listing.exists_toText_eq (listing : Listing) :
    ∃ rest, listing.toText = Text.writeNumeral listing.header.count ++ ' ' :: rest := by
  simp only [toText, Header.toFields, List.flatMap_cons, Text.writeLine, List.intercalate_cons_cons,
    List.append_assoc, List.singleton_append]
  exact ⟨_, rfl⟩

/-- A header that is read back from its fields. -/
structure Header.Legible (header : Header) : Prop where
  count : header.count < Text.numeralBound
  epsilon : Text.isBlank header.epsilon = false
  declared : ∀ symbol ∈ header.declared, Text.isBlank symbol = false

structure EdgeLine.Legible (edge : EdgeLine) : Prop where
  source : edge.source < Text.numeralBound
  destination : edge.destination < Text.numeralBound
  inhabited : edge.symbols ≠ []
  symbols : ∀ symbol ∈ edge.symbols, Text.isBlank symbol = false

theorem readNumber_writeNumeral (line n : Nat) :
    (n < Text.numeralBound → readNumber line (Text.writeNumeral n) = .ok n) ∧
      (¬ n < Text.numeralBound → ∃ cause, readNumber line (Text.writeNumeral n) = .error cause) := by
  simp only [readNumber, Text.readNumeral_writeNumeral]
  constructor
  · intro bounded
    rw [if_pos bounded]
    rfl
  · intro large
    rw [if_neg large]
    exact ⟨_, rfl⟩

theorem mapM_readSymbol (line : Nat) (symbols : List Symbol) :
    (symbols.map ([·])).mapM (readSymbol line) = .ok symbols := by
  induction symbols with
  | nil => rfl
  | cons symbol rest ih =>
    rw [List.map_cons, List.mapM_cons, ih]
    rfl

theorem readFlag_flagOf (line : Nat) (accepting : Bool) :
    readFlag line [flagOf accepting] = .ok accepting := by
  cases accepting <;> rfl

theorem isField_writeNumeral (n : Nat) : Text.IsField (Text.writeNumeral n) where
  inhabited := Text.writeNumeral_ne_nil n
  visible _ member := Text.isBlank_of_isDigit (Text.isDigit_of_mem_writeNumeral member)

theorem isField_flagOf (accepting : Bool) : Text.IsField [flagOf accepting] := by
  cases accepting
  · exact Text.isField_singleton (by decide)
  · exact Text.isField_singleton (by decide)

theorem isField_of_mem_singletons {symbols : List Symbol}
    (visible : ∀ symbol ∈ symbols, Text.isBlank symbol = false) {field : List Char}
    (member : field ∈ symbols.map ([·])) : Text.IsField field := by
  obtain ⟨symbol, symbolMember, rfl⟩ := List.mem_map.mp member
  exact Text.isField_singleton (visible symbol symbolMember)

theorem Header.Legible.isField {header : Header} (legible : header.Legible) {field : List Char}
    (member : field ∈ header.toFields) : Text.IsField field := by
  rcases List.mem_cons.mp member with rfl | later
  · exact isField_writeNumeral _
  · rcases List.mem_cons.mp later with rfl | declared
    · exact Text.isField_singleton legible.epsilon
    · exact isField_of_mem_singletons legible.declared declared

theorem EdgeLine.Legible.isField {edge : EdgeLine} (legible : edge.Legible) {field : List Char}
    (member : field ∈ edge.toFields) : Text.IsField field := by
  rcases List.mem_cons.mp member with rfl | later
  · exact isField_flagOf _
  · rcases List.mem_cons.mp later with rfl | later
    · exact isField_writeNumeral _
    · rcases List.mem_cons.mp later with rfl | symbols
      · exact isField_writeNumeral _
      · exact isField_of_mem_singletons legible.symbols symbols

theorem Header.ofLine_toFields {header : Header} (legible : header.Legible) (number : Nat) :
    Header.ofLine { number, fields := header.toFields } = .ok header := by
  have count := (readNumber_writeNumeral number header.count).1 legible.count
  have epsilon : readSymbol number [header.epsilon] = .ok header.epsilon := rfl
  simp only [Header.ofLine, Header.toFields, count, epsilon, mapM_readSymbol, bind, Except.bind]

theorem EdgeLine.ofLine_toFields {edge : EdgeLine} (legible : edge.Legible) (number : Nat) :
    EdgeLine.ofLine { number, fields := edge.toFields } = .ok edge := by
  have source := (readNumber_writeNumeral number edge.source).1 legible.source
  have destination := (readNumber_writeNumeral number edge.destination).1 legible.destination
  have inhabited : edge.symbols.isEmpty = false := List.isEmpty_eq_false_iff.mpr legible.inhabited
  simp only [EdgeLine.ofLine, EdgeLine.toFields, readFlag_flagOf, source, destination, mapM_readSymbol,
    inhabited, Bool.false_eq_true, ↓reduceIte, bind, Except.bind]

theorem contentLines_flatMap_writeLine {items : List (List (List Char))}
    (all : ∀ line ∈ items, line ≠ [] ∧ ∀ field ∈ line, Text.IsField field) :
    contentLines (items.flatMap Text.writeLine) =
      (items.zipIdx 1).map fun (fields, number) => { number, fields } := by
  rw [contentLines, Text.lines_flatMap_writeLine fun line member => (all line member).2, List.zipIdx_map,
    List.filterMap_map, ← List.filterMap_eq_map]
  refine List.filterMap_congr fun ⟨line, number⟩ member => ?_
  have inside := List.fst_mem_of_mem_zipIdx member
  obtain ⟨inhabited, fields⟩ := all line inside
  have cut := Text.fields_intercalate fields
  have content : Text.allBlank ([' '].intercalate line) = false := by
    rw [Bool.eq_false_iff, ne_eq, ← Text.fields_eq_nil_iff, cut]
    exact inhabited
  simp [content, cut]

theorem mapM_ofLine {edges : List EdgeLine} (legible : ∀ edge ∈ edges, edge.Legible) (start : Nat) :
    (((edges.map EdgeLine.toFields).zipIdx start).map fun (fields, number) =>
      ({ number, fields } : NumberedLine)).mapM EdgeLine.ofLine = .ok edges := by
  induction edges generalizing start with
  | nil => rfl
  | cons edge rest ih =>
    have first := EdgeLine.ofLine_toFields (legible edge (List.mem_cons_self ..)) start
    have later := ih (fun other member => legible other (List.mem_cons_of_mem _ member)) (start + 1)
    simp only [List.map_cons, List.zipIdx_cons, List.mapM_cons, first, later, bind, Except.bind, pure,
      Except.pure]

/-- A listing is read back from its text. -/
theorem Listing.ofText_toText {listing : Listing} (header : listing.header.Legible)
    (edges : ∀ edge ∈ listing.edgeLines, edge.Legible)
    (enough : listing.stateNumbers.length ≤ listing.header.count) :
    Listing.ofText listing.toText = .ok listing := by
  have content : contentLines listing.toText = _ := contentLines_flatMap_writeLine (by
    intro line member
    rcases List.mem_cons.mp member with rfl | later
    · exact ⟨List.cons_ne_nil _ _, fun field => header.isField⟩
    · obtain ⟨edge, edgeMember, rfl⟩ := List.mem_map.mp later
      exact ⟨List.cons_ne_nil _ _, fun field => (edges edge edgeMember).isField⟩)
  rw [List.zipIdx_cons, List.map_cons] at content
  simp only [Listing.ofText, content, Header.ofLine_toFields header, mapM_ofLine edges, bind, Except.bind]
  rw [if_neg (Nat.not_lt.mpr enough)]

theorem contentLines_eq_nil {text : List Char} (blank : Text.allBlank text = true) : contentLines text = [] := by
  refine contentLines_eq_nil_iff.mpr fun line inside => ?_
  rw [Text.allBlank, List.all_eq_true]
  exact fun c inLine => List.all_eq_true.mp blank c (Text.mem_of_mem_lines inside inLine)

theorem Listing.allBlank_eq_false_of_ofText {text : List Char} {listing : Listing}
    (success : Listing.ofText text = .ok listing) : Text.allBlank text = false := by
  rw [Bool.eq_false_iff]
  intro blank
  rw [Listing.ofText, contentLines_eq_nil blank] at success
  cases success

theorem isField_of_mem_contentLines {text : List Char} {line : NumberedLine}
    (member : line ∈ contentLines text) {field : List Char} (fieldMember : field ∈ line.fields) :
    Text.IsField field := by
  obtain ⟨⟨chars, number⟩, -, found⟩ := List.mem_filterMap.mp member
  dsimp only at found
  split at found
  · cases found
  · cases found
    exact Text.isField_of_mem_fields fieldMember

theorem readSymbol_eq_ok {line : Nat} {field : List Char} {symbol : Symbol}
    (success : readSymbol line field = .ok symbol) : field = [symbol] := by
  unfold readSymbol at success
  split at success
  · cases success
    rfl
  · cases success

/-- The epsilon symbol of a header is a field of its line. -/
theorem Header.mem_of_ofLine {line : NumberedLine} {header : Header}
    (success : Header.ofLine line = .ok header) : [header.epsilon] ∈ line.fields := by
  unfold Header.ofLine at success
  split at success
  · cases success
  · rename_i count rest fields
    obtain ⟨n, -, success⟩ := bind_eq_ok_iff.mp success
    cases rest with
    | nil => cases success
    | cons epsilon declared =>
      obtain ⟨symbol, read, success⟩ := bind_eq_ok_iff.mp success
      obtain ⟨symbols, -, success⟩ := bind_eq_ok_iff.mp success
      cases success
      rw [fields, readSymbol_eq_ok read]
      simp

theorem EdgeLine.mem_of_ofLine {line : NumberedLine} {edge : EdgeLine}
    (success : EdgeLine.ofLine line = .ok edge) {symbol : Symbol} (member : symbol ∈ edge.symbols) :
    [symbol] ∈ line.fields := by
  unfold EdgeLine.ofLine at success
  split at success
  · cases success
  · rename_i flag rest fields
    obtain ⟨accepting, -, success⟩ := bind_eq_ok_iff.mp success
    split at success
    · cases success
    · cases success
    · rename_i source destination symbols
      obtain ⟨n, -, success⟩ := bind_eq_ok_iff.mp success
      obtain ⟨m, -, success⟩ := bind_eq_ok_iff.mp success
      obtain ⟨found, read, success⟩ := bind_eq_ok_iff.mp success
      split at success
      · cases success
      · cases success
        obtain ⟨field, fieldMember, same⟩ := exists_mem_of_mapM_eq_ok read member
        obtain rfl := readSymbol_eq_ok same
        rw [fields]
        simp [fieldMember]

namespace Listing

variable {text : List Char} {listing : Listing}

/-- What is read comes from the lines of the text, and its header allows for its states. -/
theorem exists_of_ofText (success : Listing.ofText text = .ok listing) :
    (∃ first rest, contentLines text = first :: rest ∧ Header.ofLine first = .ok listing.header ∧
      rest.mapM EdgeLine.ofLine = .ok listing.edgeLines) ∧
    listing.stateNumbers.length ≤ listing.header.count := by
  unfold Listing.ofText at success
  split at success
  · cases success
  · rename_i first rest content
    obtain ⟨header, headerSuccess, success⟩ := bind_eq_ok_iff.mp success
    obtain ⟨edges, edgesSuccess, success⟩ := bind_eq_ok_iff.mp success
    dsimp only at success
    split at success
    · cases success
    · rename_i enough
      cases success
      exact ⟨⟨first, rest, content, headerSuccess, edgesSuccess⟩, Nat.not_lt.mp enough⟩

/-- No symbol that is read is blank. -/
theorem visible_of_ofText (success : Listing.ofText text = .ok listing) :
    Text.isBlank listing.header.epsilon = false ∧
      ∀ edge ∈ listing.edgeLines, ∀ symbol ∈ edge.symbols, Text.isBlank symbol = false := by
  obtain ⟨⟨first, rest, content, header, edges⟩, -⟩ := exists_of_ofText success
  have visible (line : NumberedLine) (member : line ∈ first :: rest) (symbol : Symbol)
      (field : [symbol] ∈ line.fields) : Text.isBlank symbol = false :=
    (isField_of_mem_contentLines (content ▸ member) field).visible symbol (List.mem_singleton_self symbol)
  constructor
  · exact visible first (List.mem_cons_self ..) _ (Header.mem_of_ofLine header)
  · intro edge member symbol symbolMember
    obtain ⟨line, lineMember, read⟩ := exists_mem_of_mapM_eq_ok edges member
    exact visible line (List.mem_cons_of_mem _ lineMember) symbol (EdgeLine.mem_of_ofLine read symbolMember)

/-- A number that a text begins with is below the bound of numerals, if the text is read. -/
theorem lt_of_ofText {n : Nat} {rest : List Char}
    (success : Listing.ofText (Text.writeNumeral n ++ ' ' :: rest) = .ok listing) :
    n < Text.numeralBound := by
  obtain ⟨⟨first, others, content, header, -⟩, -⟩ := exists_of_ofText success
  have isField := isField_writeNumeral n
  obtain ⟨line, later, space⟩ := Text.exists_lines_cons_space rest
  have cut := Text.lines_append_of_cons (fun c member => isField.plain member) space
  have fields : Text.fields (Text.writeNumeral n ++ ' ' :: line) =
      Text.writeNumeral n :: Text.fields (' ' :: line) :=
    Text.fields_append isField rfl
  have visible : Text.allBlank (Text.writeNumeral n ++ ' ' :: line) = false := by
    rw [Bool.eq_false_iff, ne_eq, ← Text.fields_eq_nil_iff, fields]
    exact List.cons_ne_nil _ _
  rw [contentLines_eq, cut, numbered_cons_of_content 1 visible] at content
  obtain ⟨rfl, -⟩ := List.cons.inj content
  by_contra large
  obtain ⟨cause, failure⟩ := (readNumber_writeNumeral 1 n).2 large
  simp only [Header.ofLine, fields, failure, bind, Except.bind] at header
  cases header

end Listing

end PatternAutomata.Description
