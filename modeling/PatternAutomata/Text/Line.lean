/-! # Lines, fields and numerals

A text is cut into lines at line feeds, which a carriage return may precede; a carriage return on
its own is part of its line. A line is cut into fields at runs of blank characters, those with the
Unicode property `White_Space`, and has none exactly when it is all blank (`fields_eq_nil_iff`). A
numeral is a field of decimal digits that a plus sign may precede; leading zeros are allowed, and its
value must be below `2 ^ 64`. Digits are read from the left, and the first thing that is wrong decides
how reading fails. A number is written without leading zeros.
-/

namespace PatternAutomata.Text

def isBlank (c : Char) : Bool :=
  ('\t' ≤ c && c ≤ '\r') || c == ' ' || c == '\u0085' || c == '\u00a0' || c == '\u1680' ||
    ('\u2000' ≤ c && c ≤ '\u200a') || c == '\u2028' || c == '\u2029' || c == '\u202f' ||
    c == '\u205f' || c == '\u3000'

/-- The lines of a text without their ends; the last line may lack its end. -/
def lines : List Char → List (List Char)
  | [] => []
  | '\r' :: '\n' :: rest => [] :: lines rest
  | '\n' :: rest => [] :: lines rest
  | c :: rest =>
    match lines rest with
    | [] => [[c]]
    | line :: later => (c :: line) :: later

def allBlank (text : List Char) : Bool := text.all isBlank

/-- The longest runs of characters that are not blank. -/
def fields : List Char → List (List Char)
  | [] => []
  | c :: rest =>
    if isBlank c then fields rest
    else if rest.head?.all isBlank then [c] :: fields rest
    else
      match fields rest with
      | [] => [[c]]
      | field :: later => (c :: field) :: later

/-- The line whose fields are separated by single spaces, with its end. -/
def writeLine (fields : List (List Char)) : List Char := [' '].intercalate fields ++ ['\n']

theorem fields_eq_nil_iff {line : List Char} : fields line = [] ↔ allBlank line = true := by
  induction line with
  | nil => simp [fields, allBlank]
  | cons c rest ih =>
    cases blank : isBlank c with
    | true => simpa [fields, allBlank, blank] using ih
    | false =>
      simp only [fields, blank, allBlank, List.all_cons, Bool.false_and, Bool.false_eq_true,
        ↓reduceIte, iff_false]
      split
      · simp
      · split <;> simp

/-- Why a numeral could not be read. -/
inductive NumeralError
  /-- Something other than a digit, or no digit at all. -/
  | invalidDigit
  /-- The digits so far already exceed the largest number. -/
  | tooLarge
deriving DecidableEq, Repr

def NumeralError.message : NumeralError → String
  | invalidDigit => "invalid digit found in string"
  | tooLarge => "number too large to fit in target type"

/-- Numerals denote numbers below this one. -/
def numeralBound : Nat := Nat.pow 2 64

def digit? (c : Char) : Option Nat := if c.isDigit then some (c.toNat - '0'.toNat) else none

/-- Reads on after digits that are worth `value`. -/
def readDigits (value : Nat) : List Char → Except NumeralError Nat
  | [] => .ok value
  | c :: rest =>
    match digit? c with
    | none => .error .invalidDigit
    | some d =>
      if value * 10 + d < numeralBound then readDigits (value * 10 + d) rest
      else .error .tooLarge

def readNumeral (field : List Char) : Except NumeralError Nat :=
  let digits := if field.head? = some '+' then field.tail else field
  if digits.isEmpty then .error .invalidDigit else readDigits 0 digits

/-- Reads digits as a number of any size. -/
def readNatural? (field : List Char) : Option Nat :=
  if field.isEmpty then none
  else field.foldlM (fun value c => (digit? c).map (value * 10 + ·)) 0

def writeNumeral (n : Nat) : List Char := Nat.toDigits 10 n

end PatternAutomata.Text
