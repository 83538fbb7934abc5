import PatternAutomata.CommandLine.Program

/-! # Running the program on a real machine

The only part that touches files and streams. What it does is said by `CommandLine.run`; here is how
a real machine does what that asks for.
-/

namespace PatternAutomata.CommandLine

def HostError.ofSystem : IO.Error → HostError
  | .noFileOrDirectory .. => .noSuchFile
  | .inappropriateType _ code reason | .otherError code reason | .resourceBusy code reason
  | .resourceVanished code reason | .unsupportedOperation code reason | .hardwareFault code reason
  | .unsatisfiedConstraints code reason | .illegalOperation code reason
  | .protocolError code reason | .timeExpired code reason | .interrupted _ code reason
  | .invalidArgument _ code reason | .permissionDenied _ code reason
  | .resourceExhausted _ code reason | .noSuchThing _ code reason
  | .alreadyExists _ code reason =>
    if code = 20 then .notADirectory
    else if code = 21 then .isADirectory
    else if code = 36 then .nameTooLong
    else .other code.toNat reason
  | .unexpectedEof => .other 0 "unexpected end of file"
  | .userError reason => .other 0 reason

/-- Does something, keeping a refusal as a value. -/
def attempt {α : Type} (action : IO α) : IO (Except HostError α) := do
  try
    return .ok (← action)
  catch refusal =>
    return .error (.ofSystem refusal)

/-- Consumes the lines of a stream, of which `pending` has been read, until one fails. -/
partial def consumeStream (stream : IO.FS.Stream) (pending : ByteArray)
    (consume : ByteArray → IO (Except Failure Unit)) : IO (Except Failure Unit) := do
  match pending.findIdx? (· == 10) with
  | some index =>
    match ← consume (pending.extract 0 (index + 1)) with
    | .ok () => consumeStream stream (pending.extract (index + 1) pending.size) consume
    | .error failure => return .error failure
  | none =>
    match ← attempt (stream.read 4096) with
    | .error cause => return .error (.host cause)
    | .ok more =>
      if !more.isEmpty then consumeStream stream (pending ++ more) consume
      else if pending.isEmpty then return .ok ()
      else consume pending

instance : Host IO where
  readFile path := attempt (IO.FS.readBinFile path)
  createFile path := attempt (IO.FS.writeFile path "")
  writeFile path text := attempt (IO.FS.writeFile path text)
  print text := do
    let stdout ← IO.getStdout
    stdout.putStr text
    stdout.flush
  printError text := IO.eprint text
  consumeLines consume := do consumeStream (← IO.getStdin) .empty consume

end PatternAutomata.CommandLine

def main (arguments : List String) : IO UInt32 := PatternAutomata.CommandLine.run arguments
