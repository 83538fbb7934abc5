import PatternAutomata.Dfa.Matching
import PatternAutomata.Description.Writer

/-! # Reading a transition table

A table is an automaton of its own: its first row is the start, and the entries of a row, in the
order of the columns, tell where the column symbols lead. Reading takes the text apart line by line
and field by field. A run over the rows needs nothing else, and neither does making an automaton of them.
-/

namespace PatternAutomata

structure TableRow where
  accepting : Bool
  id : StateId
  entries : List (Option StateId)
deriving DecidableEq, Repr, Inhabited

namespace TableRow

def readFlag? : List Char → Option Bool
  | ['+'] => some true
  | ['-'] => some false
  | _ => none

def readEntry? (field : List Char) : Option (Option StateId) :=
  if field = Dfa.noTransitionMark then some none else (Text.readNatural? field).map some

def ofLine? (line : List Char) : Option TableRow :=
  match Text.fields line with
  | flag :: id :: entries => do
    some { accepting := ← readFlag? flag, id := ← Text.readNatural? id,
           entries := ← entries.mapM readEntry? }
  | _ => none

/-- Where a row says that a symbol leads: what the entry in the symbol's column says, and nowhere
if it has no column. -/
def next? (columns : List Symbol) (row : TableRow) (symbol : Symbol) : Option StateId :=
  (row.entries[columns.idxOf symbol]?).join

/-- Records where an entry says that the symbol of its column leads. -/
def record (transitions : SortedMap Symbol StateId) : Symbol × Option StateId → SortedMap Symbol StateId
  | (symbol, some target) => transitions.insert symbol target
  | (_, none) => transitions

def toState (columns : List Symbol) (row : TableRow) : DfaState where
  accepting := row.accepting
  transitions := (columns.zip row.entries).foldl record ∅

end TableRow

def readTable? (text : String) : Option (List TableRow) :=
  (Text.lines text.toList).mapM TableRow.ofLine?

/-- The automaton that a table describes. -/
def Dfa.ofTable? (columns : List Symbol) (text : String) : Option Dfa := do
  some ⟨((← readTable? text).map (TableRow.toState columns)).toArray⟩

/-- Runs over the rows of a table from one of them, after `offset` symbols. -/
def walkTable? (columns : List Symbol) (rows : List TableRow) (id : StateId) (offset : Nat) :
    List Symbol → Option Outcome
  | [] => do some (if (← rows[id]?).accepting then .matched else .endOfInput offset)
  | symbol :: rest => do
    match (← rows[id]?).next? columns symbol with
    | some target => walkTable? columns rows target (offset + 1) rest
    | none => some (.noTransition offset)

end PatternAutomata
