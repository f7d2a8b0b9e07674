import ConsolePipeline.Bench.Assembly
import ConsolePipeline.CommandLine.Options
import ConsolePipeline.CommandLine.World
import ConsolePipeline.Config.File
import ConsolePipeline.Json.Sorted
import ConsolePipeline.Log.Journal
import ConsolePipeline.Machine.Threads
import ConsolePipeline.Report.Pipeline
import ConsolePipeline.Stereo.WavFile

namespace ConsolePipeline.CommandLine

open FrameSkip Machine Playback

/-!
# A session

What the program does for its options: load a configuration, run so many frames on the test bench,
report.

* `Options.applyTo` — the configuration that the options ask for.
* `simulate` — the run.
* `session` — everything, from the levels of the log to the last report.
* `run` — a session for a list of arguments.
-/

/-- The log of a session. -/
structure Logbook where
  journal : Log.Journal := {}
  /-- The file that log lines go to, instead of the error output. -/
  file : Option String := none

/-- A computation of a session. It may stop with a message; what was written stays. -/
abbrev Session (m : Type → Type) := ExceptT String (StateT Logbook m)

/-- The value of a choice, or a message about one that is unknown. -/
def known {α : Type} (what text : String) : Option α → Except String α
  | some a => .ok a
  | none => .error s!"unknown {what}: {text}"

/-- The category and level that an override names. -/
def override? (s : String) : Option (Log.Category × Log.Level) :=
  match s.toList.dropWhile (· != '=') with
  | [] => none
  | _ :: level => do
    let c ← Log.Category.ofText? (String.ofList (s.toList.takeWhile (· != '=')))
    let l ← Log.Level.ofText? (String.ofList level)
    return (c, l)

/-- Set the levels of single categories. -/
def setOverrides : List String → Log.Journal → Except String Log.Journal
  | [], j => .ok j
  | s :: rest, j => match override? s with
    | some (c, l) => setOverrides rest (j.setLevel c l)
    | none => .error s!"bad --log override: {s}"

namespace Options

/-- The levels that the options ask for. -/
def journal (o : Options) : Except String Log.Journal := do
  let overall ← known "log level" o.logLevel (Log.Level.ofText? o.logLevel)
  setOverrides o.logOverrides { overall }

/-- The policy for skipping frames, where the options choose one. An adaptive policy that is
    configured already keeps its tuning. -/
def skipPolicy (o : Options) (configured : Selection) : Except String Selection := do
  match o.frameskip with
  | some s => return .pattern (← known "frameskip level" s (Level.ofText? s))
  | none =>
    match o.adaptive, configured with
    | true, .pattern _ => return .adaptive {}
    | _, configured => return configured

/-- The playback strategy, where the options choose one. -/
def strategyFor (o : Options) (configured : Strategy) : Except String Strategy :=
  match o.strategy with
  | some s => known "buffer strategy" s (Strategy.ofText? s)
  | none => .ok configured

/-- The region, where the options choose one; it is typed in letters of any case. -/
def regionFor (o : Options) (configured : Region) : Except String Region :=
  match o.region with
  | some s => match Text.lower s with
    | "ntsc" => .ok .ntsc
    | "pal" => .ok .pal
    | other => .error s!"unknown region: {other}"
  | none => .ok configured

/-- **The configuration that the options ask for,** over a configured one. -/
def applyTo (o : Options) (c : Config) : Except String Config := do
  let skipPolicy ← o.skipPolicy c.skipPolicy
  let strategy ← o.strategyFor c.strategy
  let region ← o.regionFor c.region
  let audio := match o.volume with
    | some volume => { c.audio with volume }
    | none => c.audio
  let pacing := if o.realtime then .realTime else c.pacing
  let c := { c with skipPolicy, strategy, region, audio, pacing }
  c.check.mapError (·.message)
  return c

end Options

/-- What a run leaves behind. -/
structure BenchRun where
  /-- The counters at its end, or why it broke down. -/
  outcome : Except String PipelineStats
  /-- Pictures drawn by the test card. -/
  renders : Nat
  played : Array Stereo.Word
  entries : Array Log.Entry

/-- What a pipeline on the test bench leaves behind. -/
def runOf (p : Pipeline Bench.StandIns Video.TestCard Unit)
    (outcome : Except String PipelineStats) : BenchRun where
  outcome := outcome
  renders := p.emulation.renderer.counts.renders
  played := p.audio.desk.player.played
  entries := p.notices

/-- **Run the test bench,** on one thread or on two. There is no run if no pipeline can be built. -/
def simulate (o : Options) (c : Config) : Except String BenchRun := do
  let bench : Bench.Options := { render := { base := o.renderUs }, melody := o.melody }
  let p ← (Pipeline.build c (Bench.parts c bench) (fun _ seen => seen) ()).mapError (·.message)
  if o.threaded then
    let t := p.runThreaded o.frames.toNat
    return runOf t.pipeline ((t.outcome.map (·.2)).mapError (·.message))
  else
    match Pipeline.run o.frames.toNat #[] p with
    | .ok _ p => return runOf p (.ok p.stats)
    | .error e p => return runOf p (.error (e.message.getD "the run broke down"))

/-- The line that sums up a run. -/
def statsLine (s : PipelineStats) : String :=
  s!"{s.frames} frames: {s.skip.rendered} rendered, {s.skip.skipped} skipped " ++
    s!"(policy {s.skipPolicy}), {s.buffers.commits} commits, {s.buffers.underruns} underruns, " ++
    s!"{s.buffers.overruns} overruns"

/-- The line that tells that a run is over. -/
def doneLine (seconds : String) (renders : Nat) : String :=
  s!"done in {seconds}s, {renders} frames rendered by the test card"

section

variable {m : Type → Type} [Monad m] (world : World m)

/-- Do something with a file, or stop with a message about why that does not work. -/
def require (act : m (Except FileError Unit)) (message : FileError → String) : Session m Unit := do
  match ← (liftM act : Session m (Except FileError Unit)) with
  | .ok () => return
  | .error e => throw (message e)

/-- Begin a file that a path names; the message of a failure names it too. -/
def create (path : String) : Session m Unit :=
  require (world.write path .empty) fun _ => s!"creating {path}"

/-- Print a text. -/
def print (text : String) : Session m Unit :=
  liftM (world.print text)

/-- Offer entries to the journal and put its lines where they belong. Lines that a file cannot take
    are lost. -/
def log (entries : Array Log.Entry) : Session m Unit := do
  let l ← get
  let (journal, lines) := l.journal.writeAll entries
  set { l with journal }
  match l.file with
  | none => lines.forM fun line => liftM (world.complain line)
  | some path =>
    let text := lines.foldl (fun text line => text ++ line ++ "\n") ""
    discard (liftM (world.append path text.toUTF8) : Session m (Except FileError Unit))

/-- Set up the log. -/
def openLog (o : Options) : Session m Unit := do
  let journal ← (liftExcept o.journal : Session m Log.Journal)
  modify fun l => { l with journal }
  if let some path := o.logFile then
    require (world.append path .empty) fun _ => s!"opening log file {path}"
    modify fun l => { l with file := some path }
where
  liftExcept {α : Type} : Except String α → Session m α
    | .ok a => pure a
    | .error e => throw e

/-- The configuration of a session. -/
def configure (o : Options) : Session m Config := do
  let c ← match o.config with
    | none => pure {}
    | some path => do
      let (c, entries) := Config.loadOrDefault path (← liftM (world.read? path))
      log world entries.toArray
      pure c
  match o.applyTo c with
  | .ok c => return c
  | .error e => throw e

/-- Fill the sound file, if one was asked for. What it cannot take is lost. -/
def saveSound (o : Options) (c : Config) (words : Array Stereo.Word) : Session m Unit := do
  if let some path := o.wav then
    let file := Stereo.wavFile c.sampleRate words
    discard (liftM (world.write path file) : Session m (Except FileError Unit))

/-- Print the counters, and write them to a file if one was asked for. -/
def report (o : Options) (renders : Nat) (stats : PipelineStats) : Session m Unit := do
  if o.dumpState ∧ !o.threaded then
    print world stats.toValue.sorted.pretty
  print world (doneLine (← liftM world.seconds) renders)
  print world (statsLine stats)
  if let some path := o.statsJson then
    create world path
    require (world.write path stats.toValue.pretty.toUTF8) (·.text)

/-- Run the test bench and report. The sound file is begun before the run and filled after it, also
    after one that broke down. -/
def runAndReport (o : Options) (c : Config) : Session m Unit := do
  if let some path := o.wav then
    create world path
  match simulate o c with
  | .error e =>
    saveSound world o c #[]
    throw e
  | .ok run =>
    log world run.entries
    saveSound world o c run.played
    match run.outcome with
    | .ok stats => report world o run.renders stats
    | .error e => throw e

/-- **Everything that the options ask for.** A configuration to be saved is all that is asked
    for. -/
def session (o : Options) : Session m Unit := do
  openLog world o
  let c ← configure world o
  match o.saveConfig with
  | some path =>
    require (world.write path c.text.toUTF8) fun e => s!"failed to read config: {e.text}"
  | none => runAndReport world o c

end

/-- How a program ends. -/
structure Outcome where
  exitCode : Nat
  /-- Why it failed. -/
  message : Option String := none
  deriving DecidableEq, Repr, Inhabited

/-- The text that tells how to use the program. -/
def usage : List String :=
  ["Run the console pipeline headless on the test bench.", "", "Options:"] ++
    switches.map fun s => "  --" ++ s.name

/-- **A session for a list of arguments.** -/
def run {m : Type → Type} [Monad m] (world : World m) (args : List String) : m Outcome := do
  match Options.ofArgs args with
  | .rejected => return { exitCode := 2 }
  | .help =>
    usage.forM world.print
    return { exitCode := 0 }
  | .run o =>
    match ← ((session world o).run.run' {}) with
    | .ok () => return { exitCode := 0 }
    | .error message => return { exitCode := 1, message }

end ConsolePipeline.CommandLine
