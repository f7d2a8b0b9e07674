namespace ConsolePipeline.CommandLine

/-!
# The surroundings of a session

A session reaches files, outputs and the clock only through a `World`, so it runs the same against a
real machine and against a model of one.
-/

/-- Why something cannot be done with a file: a number that the system gives it, and what it
    means. -/
structure FileError where
  code : Nat
  meaning : String
  deriving DecidableEq, Repr, Inhabited

namespace FileError

def notFound : FileError := ⟨2, "No such file or directory"⟩

def notDirectory : FileError := ⟨20, "Not a directory"⟩

def isDirectory : FileError := ⟨21, "Is a directory"⟩

def noSpace : FileError := ⟨28, "No space left on device"⟩

def nameTooLong : FileError := ⟨36, "File name too long"⟩

/-- The text of an error, with its number. -/
def text (e : FileError) : String :=
  s!"{e.meaning} (os error {e.code})"

end FileError

/-- The surroundings of a session. -/
structure World (m : Type → Type) where
  /-- The bytes of a file, if it can be read. -/
  read? : String → m (Option ByteArray)
  /-- Replace a file; no bytes at all make it an empty one. -/
  write : String → ByteArray → m (Except FileError Unit)
  /-- Append to a file, which is made if it is not there yet. -/
  append : String → ByteArray → m (Except FileError Unit)
  /-- Print a text and a line break. -/
  print : String → m Unit
  /-- The same to the error output. -/
  complain : String → m Unit
  /-- The seconds since the start, in words. -/
  seconds : m String

end ConsolePipeline.CommandLine
