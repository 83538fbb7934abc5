import PatternAutomata.State
import PatternAutomata.Symbol
import PatternAutomata.Text.Line

/-! # What can be wrong with a pattern or a description

Each cause of failure is a constructor that carries where it arose: patterns count characters from
zero, descriptions count lines from one. `message` words every cause.
-/

namespace PatternAutomata

inductive PatternError
  /-- No group is open where one is closed. -/
  | unmatchedClose (offset : Nat)
  /-- The group opened at `offset` is never closed. -/
  | unmatchedOpen (offset : Nat)
  /-- There is nothing that a quantifier could apply to. -/
  | strayQuantifier (quantifier : Quantifier) (offset : Nat)
deriving DecidableEq, Repr

def PatternError.message : PatternError → String
  | unmatchedClose offset => s!"found `)` with no matching `(` at offset {offset}"
  | unmatchedOpen offset => s!"found `(` with no matching `)` (opened at offset {offset})"
  | strayQuantifier quantifier offset =>
    s!"unexpected `{quantifier.toChar}` at offset {offset}"

/-- The fields that a line of a description must have. -/
inductive Field
  | stateCount
  | epsilonSymbol
  | flag
  | sourceState
  | destinationState
  | edgeSymbol
deriving DecidableEq, Repr

def Field.name : Field → String
  | stateCount => "state count"
  | epsilonSymbol => "epsilon symbol"
  | flag => "flag"
  | sourceState => "source state"
  | destinationState => "destination state"
  | edgeSymbol => "edge symbol"

/-- What is wrong with a description, or keeps one from being written. -/
inductive DescriptionError
  | missingHeader
  | missingField (line : Nat) (field : Field)
  | badNumber (line : Nat) (token : String) (reason : Text.NumeralError)
  | badFlag (line : Nat) (token : String)
  | badSymbol (line : Nat) (token : String)
  /-- The header announces fewer states than the edges mention. -/
  | tooManyStates (declared found : Nat)
  /-- The symbol that is to mark epsilon edges labels a transition. -/
  | epsilonIsLetter (symbol : Symbol)
deriving DecidableEq, Repr

def DescriptionError.message : DescriptionError → String
  | missingHeader => "missing header line"
  | missingField line field => s!"line {line}: missing {field.name}"
  | badNumber line token _ => s!"line {line}: `{token}` is not a state number"
  | badFlag line token => s!"line {line}: expected `+` or `-`, found `{token}`"
  | badSymbol line token => s!"line {line}: `{token}` is not a single symbol"
  | tooManyStates declared found =>
    s!"header declares {declared} states but the transitions use {found}"
  | epsilonIsLetter symbol => s!"epsilon symbol `{symbol}` is also used as a letter"

/-- Why no automaton was built or written. -/
inductive Error
  | pattern (cause : PatternError)
  | description (cause : DescriptionError)
  | fault (cause : Fault)
deriving DecidableEq, Repr

def Error.message : Error → String
  | pattern cause => cause.message
  | description cause => cause.message
  | fault cause => cause.message

instance : MonadLift (Except Fault) (Except Error) := ⟨Except.mapError Error.fault⟩

instance : MonadLift (Except PatternError) (Except Error) := ⟨Except.mapError Error.pattern⟩

instance : MonadLift (Except DescriptionError) (Except Error) :=
  ⟨Except.mapError Error.description⟩

end PatternAutomata
