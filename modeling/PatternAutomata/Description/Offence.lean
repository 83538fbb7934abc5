import PatternAutomata.Description.Spelling

/-! # What can be wrong with a description

A line that is not blank has to spell a header where only blank lines are before it, and an edge line elsewhere. The
relations `Header.Offends` and `EdgeLine.Offends` name the first thing that is wrong with the fields of such a line:
each case asks that what is looked at before is in order. `FirstOffence` names the first line of a text where
something is wrong. Like `SpelledBy` this is told without the reader.
-/

namespace PatternAutomata

def DescriptionError.line? : DescriptionError → Option Nat
  | missingField line _ => some line
  | badNumber line _ _ => some line
  | badFlag line _ => some line
  | badSymbol line _ => some line
  | missingHeader => none
  | tooManyStates _ _ => none
  | epsilonIsLetter _ => none

namespace Description

/-- The first digits of a field, behind a plus sign if there is one, are already worth too much for a numeral. -/
def Overflows (field : List Char) : Prop :=
  ∃ digits, (field = digits ∨ field = '+' :: digits) ∧ ∃ front rest n, digits = front ++ rest ∧
    Text.readNatural? front = some n ∧ Text.numeralBound ≤ n

def NoNumeral (field : List Char) : Text.NumeralError → Prop
  | .tooLarge => Overflows field
  | .invalidDigit => ¬ Overflows field ∧ ∀ n, ¬ Denotes field n

def NoSymbol (field : List Char) : Prop := ∀ symbol, field ≠ [symbol]

/-- What is wrong with the fields of the line with a number, which should spell a header. -/
inductive Header.Offends (line : Nat) : List (List Char) → DescriptionError → Prop
  | count {count : List Char} {rest : List (List Char)} {reason : Text.NumeralError}
      (unreadable : NoNumeral count reason) :
      Offends line (count :: rest) (.badNumber line (.ofList count) reason)
  | noEpsilon {count : List Char} {n : Nat} (counts : Denotes count n) :
      Offends line [count] (.missingField line .epsilonSymbol)
  | epsilon {count epsilon : List Char} {rest : List (List Char)} {n : Nat} (counts : Denotes count n)
      (unreadable : NoSymbol epsilon) :
      Offends line (count :: epsilon :: rest) (.badSymbol line (.ofList epsilon))
  | declared {count token : List Char} {epsilon : Symbol} {symbols : List Symbol} {rest : List (List Char)}
      {n : Nat} (counts : Denotes count n) (unreadable : NoSymbol token) :
      Offends line (count :: [epsilon] :: (symbols.map ([·]) ++ token :: rest)) (.badSymbol line (.ofList token))

/-- What is wrong with the fields of the line with a number, which should spell an edge line. -/
inductive EdgeLine.Offends (line : Nat) : List (List Char) → DescriptionError → Prop
  | flag {flag : List Char} {rest : List (List Char)} (unreadable : ∀ accepting, flag ≠ [flagOf accepting]) :
      Offends line (flag :: rest) (.badFlag line (.ofList flag))
  | noSource {accepting : Bool} : Offends line [[flagOf accepting]] (.missingField line .sourceState)
  | noDestination {accepting : Bool} {source : List Char} :
      Offends line [[flagOf accepting], source] (.missingField line .destinationState)
  | source {accepting : Bool} {source destination : List Char} {rest : List (List Char)}
      {reason : Text.NumeralError} (unreadable : NoNumeral source reason) :
      Offends line ([flagOf accepting] :: source :: destination :: rest) (.badNumber line (.ofList source) reason)
  | destination {accepting : Bool} {source destination : List Char} {rest : List (List Char)} {n : Nat}
      {reason : Text.NumeralError} (begins : Denotes source n) (unreadable : NoNumeral destination reason) :
      Offends line ([flagOf accepting] :: source :: destination :: rest)
        (.badNumber line (.ofList destination) reason)
  | symbol {accepting : Bool} {source destination token : List Char} {symbols : List Symbol}
      {rest : List (List Char)} {n m : Nat} (begins : Denotes source n) (ends : Denotes destination m)
      (unreadable : NoSymbol token) :
      Offends line ([flagOf accepting] :: source :: destination :: (symbols.map ([·]) ++ token :: rest))
        (.badSymbol line (.ofList token))
  | noSymbol {accepting : Bool} {source destination : List Char} {n m : Nat} (begins : Denotes source n)
      (ends : Denotes destination m) :
      Offends line [[flagOf accepting], source, destination] (.missingField line .edgeSymbol)

/-- Only blank lines are before a position, so the header is still to come. -/
def HeaderPending (text : List Char) (position : Nat) : Prop :=
  ∀ line ∈ (Text.lines text).take position, Text.allBlank line = true

/-- Nothing is wrong with the line at a position: it is blank or it spells what it has to. -/
def SoundAt (text : List Char) (position : Nat) : Prop :=
  ∀ line, (Text.lines text)[position]? = some line → Text.allBlank line = false →
    (HeaderPending text position → ∃ header : Header, header.SpelledBy (Text.fields line)) ∧
    (¬ HeaderPending text position → ∃ edge : EdgeLine, edge.SpelledBy (Text.fields line))

/-- What is wrong with the line at a position; lines are numbered from one, blank ones included. -/
inductive OffendsAt (text : List Char) (position : Nat) (cause : DescriptionError) : Prop
  | header {line : List Char} (read : (Text.lines text)[position]? = some line)
      (content : Text.allBlank line = false) (pending : HeaderPending text position)
      (offends : Header.Offends (position + 1) (Text.fields line) cause)
  | edgeLine {line : List Char} (read : (Text.lines text)[position]? = some line)
      (content : Text.allBlank line = false) (behind : ¬ HeaderPending text position)
      (offends : EdgeLine.Offends (position + 1) (Text.fields line) cause)

/-- The first line where something is wrong, and what that is. -/
structure FirstOffence (text : List Char) (position : Nat) (cause : DescriptionError) : Prop where
  offends : OffendsAt text position cause
  first : ∀ earlier < position, SoundAt text earlier

end Description

end PatternAutomata
