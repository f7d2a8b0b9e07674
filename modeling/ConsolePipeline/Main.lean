import ConsolePipeline.CommandLine.Session

/-!
# The program

A session on a real machine.
-/

namespace ConsolePipeline.CommandLine

/-- The number and the meaning of an error. -/
def fileError : IO.Error → FileError
  | .alreadyExists _ code meaning | .otherError code meaning | .resourceBusy code meaning
  | .resourceVanished code meaning | .unsupportedOperation code meaning
  | .hardwareFault code meaning | .unsatisfiedConstraints code meaning
  | .illegalOperation code meaning | .protocolError code meaning | .timeExpired code meaning
  | .interrupted _ code meaning | .noFileOrDirectory _ code meaning
  | .invalidArgument _ code meaning | .permissionDenied _ code meaning
  | .resourceExhausted _ code meaning | .inappropriateType _ code meaning
  | .noSuchThing _ code meaning => ⟨code.toNat, meaning⟩
  | .unexpectedEof => ⟨0, "end of file"⟩
  | .userError meaning => ⟨0, meaning⟩

/-- Put bytes into a file that is opened for it. -/
def putBytes (mode : IO.FS.Mode) (path : String) (bytes : ByteArray) :
    IO (Except FileError Unit) :=
  try
    let file ← IO.FS.Handle.mk path mode
    file.write bytes
    file.flush
    return .ok ()
  catch e => return .error (fileError e)

/-- Write a text and a line break at once. -/
def putLine (output : IO.FS.Stream) (text : String) : IO Unit := do
  output.putStr (text ++ "\n")
  output.flush

/-- Milliseconds as seconds with two places. -/
def secondsText (ms : Nat) : String :=
  let hundredths := toString (ms / 10 % 100)
  toString (ms / 1000) ++ "." ++ (if hundredths.length < 2 then "0" else "") ++ hundredths

/-- The files, outputs and clock of the machine. -/
def realWorld (start : Nat) : World IO where
  read? path :=
    try
      return some (← IO.FS.readBinFile path)
    catch _ => return none
  write := putBytes .write
  append := putBytes .append
  print text := do putLine (← IO.getStdout) text
  complain text := do putLine (← IO.getStderr) text
  seconds := return secondsText ((← IO.monoMsNow) - start)

end ConsolePipeline.CommandLine

open ConsolePipeline.CommandLine in
/-- Run a session, and say why if it fails. -/
def main (args : List String) : IO UInt32 := do
  let outcome ← run (realWorld (← IO.monoMsNow)) args
  if let some message := outcome.message then
    IO.eprintln ("Error: " ++ message)
  return UInt32.ofNat outcome.exitCode
