import ConsolePipeline.Config.Format
import ConsolePipeline.Json.Parser
import ConsolePipeline.Json.Printer
import ConsolePipeline.Log.Entry

namespace ConsolePipeline

/-!
# Configuration files

* `Config.text` — the contents of a saved file.
* `Config.load` — the configuration that a file holds.
* `Config.loadOrDefault` — the same, with the defaults in place of a file that is missing or no
  good.
-/

/-- Why no configuration was loaded. -/
inductive LoadError
  /-- There is no such file, or its bytes are no text. -/
  | unreadable
  /-- The text is no configuration. -/
  | malformed
  | invalid (reason : ConfigError)
  deriving DecidableEq, Repr, Inhabited

def LoadError.message : LoadError → String
  | unreadable => "failed to read config: no readable text"
  | malformed => "failed to parse config: not a configuration"
  | invalid reason => reason.message

namespace Config

/-- The contents of a saved file. -/
def text (c : Config) : String :=
  (codec.write c).pretty

/-- The configuration that a text stands for, if a pipeline can be built from it. -/
def ofText (s : String) : Except LoadError Config :=
  match (Json.parse? s).bind codec.read? with
  | none => throw .malformed
  | some c => match c.check with
    | .ok () => return c
    | .error reason => throw (.invalid reason)

/-- The configuration in a file, given the file's bytes if there is one. -/
def load (bytes : Option ByteArray) : Except LoadError Config :=
  match bytes.bind String.fromUTF8? with
  | some s => ofText s
  | none => throw .unreadable

/-- The configuration in a file, or the defaults. A file that is there and no good is reported under
    its path. -/
def loadOrDefault (path : String) (bytes : Option ByteArray) : Config × List Log.Entry :=
  match load bytes with
  | .ok c => (c, [])
  | .error .unreadable => ({}, [])
  | .error e => ({}, [⟨.scheduler, .warn, s!"{path}: {e.message}. Using defaults."⟩])

end Config

end ConsolePipeline
