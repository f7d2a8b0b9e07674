import ConsolePipeline.Config.Basic
import ConsolePipeline.Machine.AudioCore
import ConsolePipeline.Machine.Emulation

namespace ConsolePipeline.Machine

open FrameSkip Handoff Mixing Playback Sound Video

/-!
# The pipeline

Both sides with the exchange between them.

* `Pipeline.build` — a pipeline from a configuration and the parts that it drives.
* `Pipeline.step` — one frame in lockstep: emulated, then mixed.
* `Pipeline.reset` — back to the start.
* `PipelineStats` — the counters of all parts.
-/

/-- What a pipeline drives. Its registers are made from the configuration if none are given. -/
structure Parts (P R : Type) where
  processors : P
  fm : Chip
  psg : Chip
  renderer : R
  registers : Option Registers

/-- Why there is no pipeline, or no outcome of its run. -/
inductive PipelineError
  | config (reason : ConfigError)
  | claim (reason : ClaimError)
  /-- The emulation side broke down. -/
  | emulationFailed
  /-- The audio side broke down. -/
  | audioFailed
  deriving DecidableEq, Repr, Inhabited

def PipelineError.message : PipelineError → String
  | config reason => s!"invalid configuration: {reason.message}"
  | claim reason => s!"audio DMA setup failed: {reason.message}"
  | emulationFailed => "emu-core thread panicked"
  | audioFailed => "audio-core thread panicked"

/-- The registers that a configuration asks for. -/
def registersFor (c : Config) : Registers :=
  (Registers.ofRegion c.region).set 12 (if c.h40 then 0x81 else 0)

/-- The playback strategy that a configuration asks for, on an engine of its own. -/
def playerFor (c : Config) : Except ClaimError Player :=
  Player.new c.strategy {} (c.channels.1.toNat, c.channels.2.toNat) c.frameLength
    c.mixer.fadePole.toNat c.ring

/-- Both sides and the exchange between them. -/
structure Pipeline (P R κ : Type) where
  emulation : Emulation P R
  exchange : Exchange := {}
  audio : AudioCore κ
  /-- Log entries since they were last collected. -/
  notices : Array Log.Entry := #[]

/-- The counters of all parts. -/
structure PipelineStats where
  frames : Nat
  skipPolicy : String
  skip : FrameSkip.Stats
  skipState : FrameSkip.State
  framesPublished : Nat
  audio : AudioStats
  mixer : MixerStats
  buffers : Playback.Stats
  lastProfile : Option FrameProfile
  deriving DecidableEq, Repr, Inhabited

namespace Pipeline

variable {P R κ : Type}

/-- The log entry about a new pipeline. -/
def readyEntry (c : Config) : Log.Entry :=
  ⟨.scheduler, .info, s!"pipeline ready: {c.region.name} {c.strategy.label} strategy, " ++
    s!"{c.skipPolicy.start.name} policy, {c.pacing.label} pacing"⟩

/-- The emulation side that a configuration asks for. -/
def emulationFor (c : Config) (parts : Parts P R) : Emulation P R where
  processors := parts.processors
  board :=
    { registers := parts.registers.getD (registersFor c)
      bus := { fm := parts.fm, psg := parts.psg } }
  renderer := parts.renderer
  loop :=
    { skip := .new c.skipPolicy c.maxConsecutiveSkips.toNat
      profiler := { interval := c.profileInterval.toNat }
      flushCycle := c.frameLength * cyclesPerSample }

/-- The audio side that a configuration asks for. -/
def audioFor (c : Config) (player : Player) (look : FrameAudio → κ → κ) (seen : κ) :
    AudioCore κ where
  desk := { mixer := { config := c.mixer }, player }
  controls := c.audio.ofSettings
  pacing := c.pacing
  look := look
  seen := seen

/-- **A pipeline for a valid configuration.** `look` observes each frame that is mixed. -/
def build (c : Config) (parts : Parts P R) (look : FrameAudio → κ → κ) (seen : κ) :
    Except PipelineError (Pipeline P R κ) := do
  c.check.mapError .config
  let player ← (playerFor c).mapError .claim
  return {
    emulation := emulationFor c parts
    audio := audioFor c player look seen
    notices := #[readyEntry c] }

/-- Run a computation on the emulation side and collect the entries it leaves. -/
def onEmulation {α : Type} : Run (Emulation P R × Exchange) α → Run (Pipeline P R κ) α :=
  Run.within fun ⟨emulation, exchange, audio, notices⟩ =>
    ((emulation, exchange), fun (emulation, exchange) =>
      match emulation.takeNotices with
      | (more, emulation) => ⟨emulation, exchange, audio, notices ++ more⟩)

/-- Run a computation on the audio side and collect the entries it leaves. -/
def onAudio {α : Type} : Run (AudioCore κ × Exchange) α → Run (Pipeline P R κ) α :=
  Run.within fun ⟨emulation, exchange, audio, notices⟩ =>
    ((audio, exchange), fun (audio, exchange) =>
      match audio.takeNotices with
      | (more, audio) => ⟨emulation, exchange, audio, notices ++ more⟩)

/-- Note an entry. -/
def note (entry : Log.Entry) : Pipeline P R κ → Pipeline P R κ
  | ⟨emulation, exchange, audio, notices⟩ => ⟨emulation, exchange, audio, notices.push entry⟩

/-- The log entry about a frame that never reached the audio side. -/
def unpublishedEntry (frame : Nat) : Log.Entry :=
  ⟨.handoff, .error, s!"frame {frame} was not published"⟩

/-- **One frame in lockstep.** -/
def step [Processors P] [Renderer R] : Run (Pipeline P R κ) FrameReport := do
  let report ← onEmulation Emulation.runFrame
  let mixed ← onAudio AudioCore.service
  unless mixed do
    modify (note (unpublishedEntry report.frame))
  return report

/-- Any number of frames in lockstep. The answer holds their reports in order, after `done`. -/
def run [Processors P] [Renderer R] :
    (frames : Nat) → (done : Array FrameReport) → Run (Pipeline P R κ) (Array FrameReport)
  | 0, done => return done
  | n + 1, done => do
    let report ← step
    run n (done.push report)

/-- **Back to the start.** A frame still under way is mixed first. -/
def reset [Processors P] : Run (Pipeline P R κ) Unit := do
  discard (onAudio AudioCore.service)
  onEmulation Emulation.reset
  onAudio (AudioCore.alone (modify AudioCore.reset))
  modify (note ⟨.scheduler, .info, "pipeline reset"⟩)

/-- The counters of all parts. -/
def statsOf (e : Emulation P R) (a : AudioCore κ) : PipelineStats where
  frames := e.loop.frame
  skipPolicy := e.loop.skip.policy.name
  skip := e.loop.skip.stats
  skipState := e.loop.skip.state
  framesPublished := e.sender.published
  audio := a.stats
  mixer := a.desk.mixer.stats
  buffers := a.desk.player.stats
  lastProfile := e.loop.profiler.last

/-- The counters of all parts. -/
def stats (p : Pipeline P R κ) : PipelineStats :=
  statsOf p.emulation p.audio

end Pipeline

end ConsolePipeline.Machine
