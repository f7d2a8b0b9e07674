import ConsolePipeline.FrameSkip.Controller
import ConsolePipeline.Handoff.Outlet
import ConsolePipeline.Machine.Scanlines
import ConsolePipeline.Profile

namespace ConsolePipeline.Machine

open FrameSkip Handoff Sound Video

/-!
# The emulation side

One frame at a time: sample the video mode, decide whether to render, run the scanlines, flush the
sound chips to a fixed cycle, render if so decided, hand the audio over. Emulation and audio always
run; only drawing is optional.

* `Emulation.produce` — everything up to the handover.
* `Emulation.fetch`, `ship` — the handover.
* `Emulation.conclude` — everything after it.
* `Emulation.runFrame` — a frame as a whole.
-/

/-- What one frame did. -/
structure FrameReport where
  frame : Nat
  mode : Mode
  modeChanged : Bool
  decision : Decision
  times : PhaseTimes
  backlogUs : UInt32
  /-- Sample counts of both chips as published. -/
  samples : Int × Int
  lineInterrupts : Nat
  vblankRaised : Bool
  deriving DecidableEq, Repr, Inhabited

/-- What the frame loop remembers from frame to frame. -/
structure Loop where
  skip : Controller
  profiler : Profiler
  /-- The cycle to which the sound chips run at the end of each frame. -/
  flushCycle : Nat
  /-- The number of the frame to come. -/
  frame : Nat := 0
  /-- The mode of the last frame. -/
  lastMode : Option Mode := none
  /-- The line interrupt counter. -/
  hint : Int := 0
  deriving DecidableEq, Repr, Inhabited

/-- The emulation side. -/
structure Emulation (P R : Type) where
  processors : P
  board : Board
  renderer : R
  loop : Loop
  sender : Sender := {}
  /-- Log entries since they were last collected. -/
  notices : Array Log.Entry := #[]

/-- What is known about a frame that was not handed over yet. -/
structure Draft where
  mode : Mode
  modeChanged : Bool
  decision : Decision
  /-- The time at which the frame began. -/
  start : Instant
  times : PhaseTimes
  samples : Int × Int
  lineInterrupts : Nat
  vblankRaised : Bool
  /-- The time from the start to the handover. -/
  workUs : UInt32
  deriving DecidableEq, Repr, Inhabited

namespace Emulation

variable {P R : Type} [Processors P] [Renderer R]

/-- Note an entry. -/
def note (entry : Log.Entry) : Emulation P R → Emulation P R
  | ⟨processors, board, renderer, loop, sender, notices⟩ =>
    ⟨processors, board, renderer, loop, sender, notices.push entry⟩

/-- Change what the loop remembers. -/
def mapLoop (f : Loop → Loop) : Emulation P R → Emulation P R
  | ⟨processors, board, renderer, loop, sender, notices⟩ =>
    ⟨processors, board, renderer, f loop, sender, notices⟩

/-- Change the sound bus. -/
def mapBus (f : Bus → Bus) : Emulation P R → Emulation P R
  | ⟨processors, ⟨now, registers, bus⟩, renderer, loop, sender, notices⟩ =>
    ⟨processors, ⟨now, registers, f bus⟩, renderer, loop, sender, notices⟩

/-- Change the video registers. -/
def mapRegisters (f : Registers → Registers) : Emulation P R → Emulation P R
  | ⟨processors, ⟨now, registers, bus⟩, renderer, loop, sender, notices⟩ =>
    ⟨processors, ⟨now, f registers, bus⟩, renderer, loop, sender, notices⟩

/-- Give the renderer its dimensions. -/
def configureRenderer (width height : Nat) : Emulation P R → Emulation P R
  | ⟨processors, board, renderer, loop, sender, notices⟩ =>
    ⟨processors, board, Renderer.configure width height renderer, loop, sender, notices⟩

/-- The log entry about a new video mode. -/
def modeEntry (frame : Nat) (mode : Mode) : Log.Entry :=
  ⟨.scheduler, .info, s!"frame {frame}: video mode {mode.region.name} " ++
    s!"{mode.width}x{mode.height} {mode.linesPerFrame} lines"⟩

/-- Take the mode of the frame to come. A new mode is noted, and the renderer is told if its
    dimensions are new. The answer says whether the mode is new. -/
def enterMode (mode : Mode) (e : Emulation P R) : Bool × Emulation P R :=
  let last := e.loop.lastMode
  if last = some mode then (false, e)
  else
    let entry := modeEntry e.loop.frame mode
    let e := if last.map Mode.dimensions = some mode.dimensions then e
      else e.configureRenderer mode.width mode.height
    (true, (e.note entry).mapLoop fun l => { l with lastMode := some mode })

/-- Decide whether to render the frame to come; a new mode forces it. -/
def decide (force : Bool) (e : Emulation P R) : Decision × Emulation P R :=
  let frame := e.loop.frame
  let (d, skip) := e.loop.skip.decide frame force
  let entry := skip.decisionEntry frame d
  (d, (e.mapLoop fun l => { l with skip }).note entry)

/-- Run all scanlines of a frame. The answer holds what the sweep counted and measured. -/
def sweep (mode : Mode) : Emulation P R → PhaseTimes × Nat × Bool × Emulation P R
  | ⟨processors, board, renderer, loop, sender, notices⟩ =>
    let reload := board.registers.lineReload.toNat
    match Sweep.lines mode reload mode.linesPerFrame 0
        { machine := (processors, board), hint := loop.hint } with
    | ⟨(processors, board), hint, m68kUs, z80Us, lineInterrupts, vblankRaised⟩ =>
      ({ m68kUs, z80Us }, lineInterrupts, vblankRaised,
        ⟨processors, board, renderer, { loop with hint }, sender, notices⟩)

/-- Run the sound chips to the end of the frame, which takes no time. -/
def flush (e : Emulation P R) : Emulation P R :=
  let cycle := e.loop.flushCycle
  e.mapBus (·.flush cycle)

/-- Run a computation on the renderer and the clock. -/
def onRenderer {α : Type} : Run (R × Instant) α → Run (Emulation P R) α :=
  Run.within fun ⟨processors, ⟨now, registers, bus⟩, renderer, loop, sender, notices⟩ =>
    ((renderer, now), fun (renderer, now) =>
      ⟨processors, ⟨now, registers, bus⟩, renderer, loop, sender, notices⟩)

/-- Draw all lines of a frame. The answer is the time it takes. -/
def render (mode : Mode) : Run (Emulation P R) UInt32 := do
  let start := (← get).board.now
  onRenderer (renderLines mode.height 0)
  let us := elapsedUs start (← get).board.now
  modify (mapLoop fun l => { l with skip := l.skip.recordRender us })
  return us

/-- **Everything up to the handover.** -/
def produce : Run (Emulation P R) Draft := do
  let start := (← get).board.now
  let mode := Mode.sample (← get).board.registers
  let modeChanged ← modifyGet (enterMode mode)
  let decision ← modifyGet (decide modeChanged)
  modify (mapBus (·.beginFrame))
  let (times, lineInterrupts, vblankRaised) ← modifyGet fun e =>
    match sweep mode e with
    | (times, lineInterrupts, vblankRaised, e) => ((times, lineInterrupts, vblankRaised), e)
  modify flush
  let renderUs ← if decision.render then render mode else pure 0
  let e ← get
  return {
    mode, modeChanged, decision, start, lineInterrupts, vblankRaised
    times := { times with renderUs }
    samples := e.board.bus.sampleCounts
    workUs := elapsedUs start e.board.now }

/-- Run a computation on the end from which frames are sent. -/
def onOutlet {α : Type} : Run Outlet α → Run (Emulation P R × Exchange) α :=
  Run.within fun (⟨processors, ⟨now, registers, bus⟩, renderer, loop, sender, notices⟩, exchange) =>
    (⟨bus, sender, exchange⟩, fun ⟨bus, sender, exchange⟩ =>
      (⟨processors, ⟨now, registers, bus⟩, renderer, loop, sender, notices⟩, exchange))

/-- Run a computation on the emulation alone. -/
def alone {α : Type} : Run (Emulation P R) α → Run (Emulation P R × Exchange) α :=
  Run.within fun (e, x) => (e, fun e => (e, x))

/-- Get buffers for the next frame and take the finished frame's audio off the bus. -/
def fetch : Run (Emulation P R × Exchange) FrameAudio := do
  let frame := (← get).1.loop.frame
  let fresh ← onOutlet Outlet.freshBuffers
  onOutlet (modifyGet (Outlet.load frame fresh))

/-- Send the frame's audio off. -/
def ship (a : FrameAudio) : Run (Emulation P R × Exchange) Unit := do
  let entry ← onOutlet (Outlet.ship a)
  alone (modify (note entry))

/-- Take a frame of which all is known into the profile. -/
def profile (times : PhaseTimes) (rendered : Bool) (e : Emulation P R) : Emulation P R :=
  let (done, profiler) := e.loop.profiler.onFrame times rendered
  let e := e.mapLoop fun l => { l with profiler }
  match done with
  | some p => e.note p.entry
  | none => e

/-- Take the cycles of a frame off both processors. -/
def rebase (cycles : Nat) : Emulation P R → Emulation P R
  | ⟨processors, board, renderer, loop, sender, notices⟩ =>
    ⟨Processors.endFrame .z80 cycles (Processors.endFrame .m68k cycles processors), board, renderer,
      loop, sender, notices⟩

/-- **Everything after the handover,** for which the frame had to wait `waitUs`. -/
def conclude (d : Draft) (waitUs : UInt32) (e : Emulation P R) : FrameReport × Emulation P R :=
  let timing : FrameSkip.Timing := ⟨d.workUs, waitUs, UInt32.ofNat d.mode.budgetUs⟩
  let e := (e.mapLoop fun l => { l with skip := l.skip.finishFrame timing }).rebase
    (d.mode.linesPerFrame * cyclesPerLine)
  let times := { d.times with
    audioWaitUs := waitUs
    frameUs := elapsedUs d.start e.board.now }
  let e := e.profile times d.decision.render
  let report : FrameReport :=
    { frame := e.loop.frame
      mode := d.mode
      modeChanged := d.modeChanged
      decision := d.decision
      times
      backlogUs := e.loop.skip.state.backlogUs
      samples := d.samples
      lineInterrupts := d.lineInterrupts
      vblankRaised := d.vblankRaised }
  (report, e.mapLoop fun l => { l with frame := l.frame + 1 })

/-- **One frame.** Waiting takes no modelled time. -/
def runFrame : Run (Emulation P R × Exchange) FrameReport := do
  let d ← alone produce
  let a ← fetch
  ship a
  alone (modifyGet (conclude d 0))

/-- Wait until no frame is under way. -/
def drain : Run (Emulation P R × Exchange) Unit :=
  onOutlet Outlet.drain

/-- Everything but the frame under way back to the state at power-on. The renderer keeps its
    dimensions until the first frame, whose mode counts as new. -/
def restart : Emulation P R → Emulation P R
  | ⟨processors, ⟨now, registers, bus⟩, renderer, loop, sender, notices⟩ =>
    ⟨Processors.reset .z80 (Processors.reset .m68k processors),
      ⟨now, registers.acknowledgeVint, bus.reset⟩, renderer,
      { loop with
        skip := loop.skip.reset, profiler := loop.profiler.reset, frame := 0, lastMode := none
        hint := 0 },
      sender, notices⟩

/-- Back to the state at power-on, once the frame under way is back. -/
def reset : Run (Emulation P R × Exchange) Unit := do
  drain
  alone (modify restart)

/-- Log entries since they were last collected, and the rest. -/
def takeNotices : Emulation P R → Array Log.Entry × Emulation P R
  | ⟨processors, board, renderer, loop, sender, notices⟩ =>
    (notices, ⟨processors, board, renderer, loop, sender, #[]⟩)

end Emulation

end ConsolePipeline.Machine
