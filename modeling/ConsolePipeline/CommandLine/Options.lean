namespace ConsolePipeline.CommandLine

/-!
# Options

Options are written `--name value` or `--name=value`, flags `--name`. Each may occur once, except
where an option collects values. A value that stands alone must not look like an option; there are
no other arguments.

* `Options` — what can be asked for.
* `switches` — the options there are.
* `Options.ofArgs` — what a list of arguments asks for.
-/

/-- What can be asked for on the command line. -/
structure Options where
  frames : UInt64 := 600
  config : Option String := none
  saveConfig : Option String := none
  frameskip : Option String := none
  adaptive : Bool := false
  strategy : Option String := none
  region : Option String := none
  volume : Option UInt8 := none
  threaded : Bool := false
  realtime : Bool := false
  renderUs : UInt32 := 4000
  melody : Bool := false
  wav : Option String := none
  statsJson : Option String := none
  logLevel : String := "warn"
  /-- Levels of single categories, in the order given. -/
  logOverrides : List String := []
  logFile : Option String := none
  dumpState : Bool := false
  quiet : Bool := false
  deriving DecidableEq, Repr, Inhabited

/-- The number that a run of digits stands for; there must be one. -/
def digits? (cs : List Char) : Option Nat :=
  if cs ≠ [] ∧ cs.all Char.isDigit then
    some (cs.foldl (fun n c => n * 10 + (c.toNat - '0'.toNat)) 0)
  else
    none

/-- A natural number, possibly with a plus in front. -/
def natural? (s : String) : Option Nat :=
  match s.toList with
  | '+' :: cs => digits? cs
  | cs => digits? cs

/-- A natural number, possibly with a sign in front; a minus is good for zero only. -/
def unsigned? (s : String) : Option Nat :=
  match s.toList with
  | '-' :: cs => (digits? cs).filter (· == 0)
  | _ => natural? s

/-- What an option does with its value, if it takes one and the value is good. -/
inductive Effect
  | flag (set : Options → Options)
  | value (set : String → Options → Option Options)

/-- An option. -/
structure Switch where
  name : String
  effect : Effect
  /-- Whether it may occur more than once. -/
  repeatable : Bool := false

namespace Effect

/-- An option with any text for a value. -/
def text (set : String → Options → Options) : Effect :=
  value fun s o => some (set s o)

/-- An option with a path for a value, which must not be empty. -/
def path (set : String → Options → Options) : Effect :=
  value fun s o => if s.isEmpty then none else some (set s o)

/-- An option with a number below a bound for a value. -/
def number (read? : String → Option Nat) (bound : Nat) (set : Nat → Options → Options) : Effect :=
  value fun s o => (read? s).bind fun n => if n < bound then some (set n o) else none

end Effect

/-- The options there are. -/
def switches : List Switch :=
  [⟨"frames", .number natural? UInt64.size fun n o => { o with frames := UInt64.ofNat n }, false⟩,
   ⟨"config", .path fun s o => { o with config := s }, false⟩,
   ⟨"save-config", .path fun s o => { o with saveConfig := s }, false⟩,
   ⟨"frameskip", .text fun s o => { o with frameskip := s }, false⟩,
   ⟨"adaptive", .flag fun o => { o with adaptive := true }, false⟩,
   ⟨"strategy", .text fun s o => { o with strategy := s }, false⟩,
   ⟨"region", .text fun s o => { o with region := s }, false⟩,
   ⟨"volume", .number unsigned? UInt8.size fun n o => { o with volume := UInt8.ofNat n }, false⟩,
   ⟨"threaded", .flag fun o => { o with threaded := true }, false⟩,
   ⟨"realtime", .flag fun o => { o with realtime := true }, false⟩,
   ⟨"render-us",
    .number unsigned? UInt32.size fun n o => { o with renderUs := UInt32.ofNat n }, false⟩,
   ⟨"melody", .flag fun o => { o with melody := true }, false⟩,
   ⟨"wav", .path fun s o => { o with wav := s }, false⟩,
   ⟨"stats-json", .path fun s o => { o with statsJson := s }, false⟩,
   ⟨"log-level", .text fun s o => { o with logLevel := s }, false⟩,
   ⟨"log", .text fun s o => { o with logOverrides := o.logOverrides ++ [s] }, true⟩,
   ⟨"log-file", .path fun s o => { o with logFile := s }, false⟩,
   ⟨"dump-state", .flag fun o => { o with dumpState := true }, false⟩,
   ⟨"quiet", .flag fun o => { o with quiet := true }, false⟩]

/-- What the arguments ask for. -/
inductive Request
  | run (o : Options)
  | help
  /-- They are no good. -/
  | rejected
  deriving DecidableEq, Repr, Inhabited

/-- Split `--name=value` into name and value. -/
def splitOption? (arg : String) : Option (String × Option String) :=
  match arg.toList with
  | '-' :: '-' :: cs =>
    let name := String.ofList (cs.takeWhile (· != '='))
    match cs.dropWhile (· != '=') with
    | [] => some (name, none)
    | _ :: value => some (name, some (String.ofList value))
  | _ => none

/-- Whether an argument can be the value of the option before it. -/
def isValue (arg : String) : Bool :=
  match arg.toList with
  | '-' :: _ :: _ => false
  | _ => true

/-- Whether the choices exclude each other: a fixed level and the adaptive policy. -/
def Options.conflict (o : Options) : Bool :=
  o.frameskip.isSome && o.adaptive

/-- What complete arguments ask for. -/
def Options.request (o : Options) : Request :=
  if o.conflict then .rejected else .run o

/-- Read arguments from left to right; `seen` holds the names of the options so far. -/
def readArgs (args seen : List String) (o : Options) : Request :=
  match args with
  | [] => o.request
  | arg :: rest =>
    if arg = "--" then (if rest = [] then o.request else .rejected)
    else if arg = "--help" ∨ arg = "-h" then .help
    else match splitOption? arg with
      | none => .rejected
      | some (name, given) =>
        match switches.find? (·.name == name) with
        | none => .rejected
        | some s =>
          if name ∈ seen ∧ !s.repeatable then .rejected
          else match s.effect, given with
            | .flag set, none => readArgs rest (name :: seen) (set o)
            | .flag _, some _ => .rejected
            | .value set, some v => match set v o with
              | some o => readArgs rest (name :: seen) o
              | none => .rejected
            | .value set, none => match rest with
              | [] => .rejected
              | v :: rest =>
                if isValue v then match set v o with
                  | some o => readArgs rest (name :: seen) o
                  | none => .rejected
                else .rejected

/-- **What a list of arguments asks for.** -/
def Options.ofArgs (args : List String) : Request :=
  readArgs args [] {}

end ConsolePipeline.CommandLine
