import PatternAutomata.Compile
import PatternAutomata.Description.Writer
import PatternAutomata.Text.Quoted

/-! # The program

Without arguments the program answers patterns in a session, one to a line; given an input file, an
output file and any number of inputs it runs a batch, which tabulates a description and tries its
automaton on every input; a single argument is not understood. A run fails because its input is wrong,
because a file cannot be read or written, or because there is nothing in the input.

The program is written against what any machine can do, a `Host`, so the same text runs on a real
machine and on one that a proof can look into. A batch reads its input before it empties its output,
and it empties its output before it looks at what it read.
-/

namespace PatternAutomata.CommandLine

/-- Why the machine refused to read or write. -/
inductive HostError
  | noSuchFile
  | notADirectory
  | isADirectory
  | nameTooLong
  /-- What was read is not a text. -/
  | notText
  /-- Any other reason, with the number the system gives it. -/
  | other (code : Nat) (reason : String)
deriving DecidableEq, Repr

def HostError.message : HostError → String
  | noSuchFile => "No such file or directory (os error 2)"
  | notADirectory => "Not a directory (os error 20)"
  | isADirectory => "Is a directory (os error 21)"
  | nameTooLong => "File name too long (os error 36)"
  | notText => "stream did not contain valid UTF-8"
  | other code reason => s!"{reason} (os error {code})"

inductive Failure
  | build (cause : Error)
  | host (cause : HostError)
  | emptyInput
deriving DecidableEq, Repr

namespace Failure

def message : Failure → String
  | build cause => cause.message
  | host cause => cause.message
  | emptyInput => "input file is empty"

/-- What the program says of a failure; a wrong pattern is followed by a remark of its own. -/
def report (failure : Failure) : String :=
  let remark := match failure with
    | build (.pattern _) => "Terminating parser\n"
    | _ => ""
  s!"error: {failure.message}\n{remark}"

end Failure

instance : MonadLift (Except Error) (Except Failure) := ⟨Except.mapError Failure.build⟩

instance : MonadLift (Except HostError) (Except Failure) := ⟨Except.mapError Failure.host⟩

namespace Session

def prompt : String := "Enter a regular expression: "

/-- A line without the line feed that ends it and the carriage return before that. -/
def withoutEnd (line : List Char) : List Char :=
  match line.reverse with
  | '\n' :: '\r' :: rest => rest.reverse
  | '\n' :: rest => rest.reverse
  | _ => line

/-- The answer to a line of input, which must be a text. -/
def answerLine (line : ByteArray) : Except Failure String := do
  match String.fromUTF8? line with
  | none => .error (.host .notText)
  | some text => answer (.ofList (withoutEnd text.toList))

end Session

structure BatchReport where
  table : String
  verdicts : String
deriving DecidableEq, Repr

namespace Batch

def verdict (input : String) (outcome : Outcome) : String :=
  s!"{Text.quote input}: {outcome.message}\n"

def columns (description : Description) : List Symbol :=
  description.alphabet.columns description.declared

/-- Tabulates a description and tries its automaton. -/
def report (text : String) (inputs : List String) : Except Failure BatchReport := do
  if Text.allBlank text.toList then .error .emptyInput
  else
    let description ← Description.ofText text
    let build : Except Error BatchReport := do
      let dfa ← automaton description
      let verdicts ← inputs.mapM fun input => do .ok (verdict input (← dfa.run input))
      .ok { table := dfa.table (columns description), verdicts := String.join verdicts }
    build

end Batch

/-- What the program asks of the machine it runs on. -/
class Host (m : Type → Type) where
  readFile (path : String) : m (Except HostError ByteArray)
  /-- Makes an empty file, or empties the one that is there. -/
  createFile (path : String) : m (Except HostError Unit)
  /-- Puts a text into a file that has been made. -/
  writeFile (path text : String) : m (Except HostError Unit)
  print (text : String) : m Unit
  printError (text : String) : m Unit
  /-- Consumes the lines of the standard input, with their ends, until there are no more or one of
  them fails. -/
  consumeLines (consume : ByteArray → m (Except Failure Unit)) : m (Except Failure Unit)

inductive Mode
  | session
  | batch (input output : String) (tests : List String)
deriving DecidableEq, Repr

def Mode.ofArguments? : List String → Option Mode
  | [] => some .session
  | [_] => none
  | input :: output :: tests => some (.batch input output tests)

def usage : String := "usage: regex-dfa [<descriptionFile> <outputFile> [testString...]]"

variable {m : Type → Type} [Monad m] [Host m]

/-- Goes on only if the machine did what it was asked. -/
def granted {α : Type} (action : m (Except HostError α)) : ExceptT Failure m α :=
  .mk do return (← action).mapError Failure.host

def checked {α : Type} (result : Except Failure α) : ExceptT Failure m α := .mk (return result)

/-- Reads a file that must be a text. -/
def readText (path : String) : ExceptT Failure m String := do
  match String.fromUTF8? (← granted (Host.readFile path)) with
  | some text => return text
  | none => throw (.host .notText)

/-- Writes the table of a described automaton to a file and prints a verdict for each test. The
output file is made before the description is read. -/
def runBatch (input output : String) (tests : List String) : ExceptT Failure m Unit := do
  let text ← readText input
  granted (Host.createFile output)
  let report ← checked (Batch.report text tests)
  granted (Host.writeFile output report.table)
  ExceptT.lift (Host.print report.verdicts)

/-- Prompts for a line and answers it, until the input ends. -/
def runSession : ExceptT Failure m Unit := do
  ExceptT.lift (Host.print Session.prompt)
  .mk (Host.consumeLines fun line =>
    ExceptT.run do
      let answer ← checked (Session.answerLine line)
      ExceptT.lift (Host.print (answer ++ Session.prompt)))

def Mode.run : Mode → ExceptT Failure m Unit
  | session => runSession
  | batch input output tests => runBatch input output tests

/-- Runs the program and answers its exit code. -/
def run (arguments : List String) : m UInt32 := do
  match Mode.ofArguments? arguments with
  | none =>
    Host.printError (usage ++ "\n")
    return 2
  | some mode =>
    match ← ExceptT.run mode.run with
    | .ok () => return 0
    | .error failure =>
      Host.printError failure.report
      return 1

end PatternAutomata.CommandLine
