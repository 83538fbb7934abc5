import Mathlib.Data.List.Forall2
import PatternAutomata.Description.Listing
import PatternAutomata.Description.Writer

/-! # What a text spells

The same fields can be laid out on lines in many ways: with any blank characters between, before and after them,
with line feeds alone or after carriage returns at the ends of lines, and with blank lines anywhere. A layout is
described by how it is put together, not by how a text is cut.

Every line of a description that is not blank spells a header or an edge line, field by field. The
reader is not part of this: a text spells a listing when its fields are those of the listing, with any
numeral for a number. The same description can be presented by other texts, with other layouts, other
numerals and other numbers for its states, which `Restates` relates without reading them.
-/

namespace PatternAutomata.Text

structure IsField (field : List Char) : Prop where
  inhabited : field ≠ []
  visible : ∀ c ∈ field, isBlank c = false

/-- The line has these fields and only blank characters otherwise, at least one of them between two fields. -/
inductive Spaced : List (List Char) → List Char → Prop
  | nil {gap : List Char} (blank : allBlank gap = true) : Spaced [] gap
  | cons {gap field line : List Char} {fields : List (List Char)} (blank : allBlank gap = true)
      (isField : IsField field) (ends : line.head?.all isBlank = true) (rest : Spaced fields line) :
      Spaced (field :: fields) (gap ++ (field ++ line))

/-- The text has these lines. Each of them is ended by a line feed, before which a carriage return may stand; the
last one need not be ended. -/
inductive Lined : List (List Char) → List Char → Prop
  | nil : Lined [] []
  | last {line : List Char} (within : '\n' ∉ line) : Lined [line] line
  | cons {line ending text : List Char} {lines : List (List Char)} (within : '\n' ∉ line)
      (ends : ending = ['\n'] ∨ ending = ['\r', '\n']) (below : Lined lines text) :
      Lined (line :: lines) (line ++ (ending ++ text))

/-- The text has lines with these fields, from top to bottom, and only blank lines otherwise. -/
def LaidOut (content : List (List (List Char))) (text : List Char) : Prop :=
  ∃ all lines, all.filter (· ≠ []) = content ∧ List.Forall₂ Spaced all lines ∧ Lined lines text

end PatternAutomata.Text

namespace PatternAutomata.Description

/-- A field that is a decimal numeral for a number below `2 ^ 64`; a plus sign may precede the digits. -/
def Denotes (field : List Char) (n : Nat) : Prop :=
  n < Text.numeralBound ∧ ∃ digits, (field = digits ∨ field = '+' :: digits) ∧
    Text.readNatural? digits = some n

/-- The fields are the number of states, the symbol that marks epsilon edges and the declared symbols. -/
def Header.SpelledBy (header : Header) (fields : List (List Char)) : Prop :=
  ∃ count, Denotes count header.count ∧ fields = count :: [header.epsilon] :: header.declared.map ([·])

/-- The fields are the flag, the source, the destination and at least one symbol. -/
def EdgeLine.SpelledBy (edge : EdgeLine) (fields : List (List Char)) : Prop :=
  edge.symbols ≠ [] ∧ ∃ source destination, Denotes source edge.source ∧
    Denotes destination edge.destination ∧
    fields = [flagOf edge.accepting] :: source :: destination :: edge.symbols.map ([·])

/-- The first line that is not blank spells the header, and the others spell the edge lines in order. -/
def Listing.SpelledBy (listing : Listing) (text : List Char) : Prop :=
  ∃ first rest, ((Text.lines text).map Text.fields).filter (· ≠ []) = first :: rest ∧
    listing.header.SpelledBy first ∧ List.Forall₂ EdgeLine.SpelledBy listing.edgeLines rest

abbrev StateNumber := Fin Text.numeralBound

/-- A numeral of a number: its decimal digits behind any number of zeros, and a plus sign in front or none. -/
def NumeralOf (n : Nat) (field : List Char) : Prop :=
  ∃ zeros, ∃ sign ∈ [[], ['+']], field = sign ++ (List.replicate zeros '0' ++ Text.writeNumeral n)

/-- The fields of a header line, with another numeral for the number of states. -/
inductive RestatesHeader : List (List Char) → List (List Char) → Prop
  | header {count : Nat} {numeral other : List Char} {symbols : List (List Char)} (spells : NumeralOf count numeral)
      (respells : NumeralOf count other) : RestatesHeader (numeral :: symbols) (other :: symbols)

/-- The fields of an edge line, with numerals for other numbers of its states. -/
inductive RestatesEdge (rename : StateNumber → StateNumber) : List (List Char) → List (List Char) → Prop
  | edge {source target : StateNumber} {flag first second other another : List Char} {symbols : List (List Char)}
      (spellsSource : NumeralOf source first) (spellsTarget : NumeralOf target second)
      (respellsSource : NumeralOf (rename source) other) (respellsTarget : NumeralOf (rename target) another) :
      RestatesEdge rename (flag :: first :: second :: symbols) (flag :: other :: another :: symbols)

/-- The other text says the same about states with other numbers: line by line it has the same fields, but for the
numerals. -/
def Restates (rename : StateNumber → StateNumber) (text other : List Char) : Prop :=
  ∃ header edges otherHeader otherEdges, Text.LaidOut (header :: edges) text ∧
    Text.LaidOut (otherHeader :: otherEdges) other ∧ RestatesHeader header otherHeader ∧
    List.Forall₂ (RestatesEdge rename) edges otherEdges

end PatternAutomata.Description
