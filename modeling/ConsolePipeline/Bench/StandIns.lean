import ConsolePipeline.Bench.Program
import ConsolePipeline.Machine.Scanlines
import ConsolePipeline.Video.TestCard

namespace ConsolePipeline.Bench

open Machine Video

/-!
# Stand-ins for processors and renderer

A stand-in processor lets cycles pass, runs its program at the start of each slice and charges the
clock a fixed cost for it. A recording one only notes what the frame loop asks of it.

* `StandIns` — two stand-in processors and what was counted and noted.
* The instances `Processors StandIns` and `Renderer TestCard`.
-/

/-- How a stand-in passes its time. -/
inductive Manner
  /-- In steps of so many cycles, each slice costing so many microseconds. -/
  | stepping (step : Nat) (costUs : UInt32)
  /-- In one go to so many cycles past the target, noting every interrupt. -/
  | recording (overshoot : Nat)
  deriving DecidableEq, Repr, Inhabited

/-- A stand-in processor. -/
structure StandIn where
  manner : Manner
  program : Program := .idle
  cycles : Nat := 0
  deriving DecidableEq, Repr, Inhabited

/-- Interrupts that stepping processors have taken. -/
structure IrqCounts where
  line : Nat := 0
  vblank : Nat := 0
  z80Asserted : Nat := 0
  z80Released : Nat := 0
  deriving DecidableEq, Repr, Inhabited

/-- An interrupt level set on a recording processor, and the line it had come to. -/
structure IrqEvent where
  cpu : Cpu
  line : Nat
  level : Nat
  deriving DecidableEq, Repr, Inhabited

/-- Two stand-in processors. -/
structure StandIns where
  m68k : StandIn
  z80 : StandIn
  wiring : Wiring := none
  /-- Whether the first processor acknowledges vertical interrupts. -/
  acknowledges : Bool := true
  counts : IrqCounts := {}
  events : Array IrqEvent := #[]
  deriving Inhabited

/-- Cycles at the end of a slice of whole steps that comes to the target or past it. -/
def stepTo (step target cycles : Nat) : Nat :=
  if target ≤ cycles then cycles else cycles + (target - cycles + step - 1) / step * step

/-- Pass one slice. -/
def StandIn.execute (target : Nat) (p : StandIn) (m : Wiring × Board) :
    StandIn × Wiring × Board :=
  match p with
  | ⟨manner, program, cycles⟩ =>
    match program.begin cycles m with
    | (program, m) =>
      match manner with
      | .stepping step costUs =>
        (⟨manner, program, stepTo step target cycles⟩, spend costUs.toUInt64 m)
      | .recording overshoot => (⟨manner, program, target + overshoot⟩, m)

namespace StandIns

/-- One of the processors. -/
def get (p : StandIns) : Cpu → StandIn
  | .m68k => p.m68k
  | .z80 => p.z80

/-- Change one of the processors. -/
def map (cpu : Cpu) (f : StandIn → StandIn) (p : StandIns) : StandIns :=
  match cpu with
  | .m68k => { p with m68k := f p.m68k }
  | .z80 => { p with z80 := f p.z80 }

/-- Pass one slice on one of the processors. -/
def execute (cpu : Cpu) (target : Nat) : StandIns × Board → StandIns × Board
  | (⟨m68k, z80, wiring, acknowledges, counts, events⟩, board) =>
    match cpu with
    | .m68k => match m68k.execute target (wiring, board) with
      | (m68k, wiring, board) => (⟨m68k, z80, wiring, acknowledges, counts, events⟩, board)
    | .z80 => match z80.execute target (wiring, board) with
      | (z80, wiring, board) => (⟨m68k, z80, wiring, acknowledges, counts, events⟩, board)

/-- Count an interrupt that a stepping processor takes. -/
def count (cpu : Cpu) (level : Nat) (c : IrqCounts) : IrqCounts :=
  match cpu with
  | .m68k =>
    if level = lineIrq then { c with line := c.line + 1 }
    else if level = vblankIrq then { c with vblank := c.vblank + 1 }
    else c
  | .z80 =>
    if level = 0 then { c with z80Released := c.z80Released + 1 }
    else { c with z80Asserted := c.z80Asserted + 1 }

/-- Note an interrupt that a recording processor is sent. -/
def noteEvent (cpu : Cpu) (level : Nat) (p : StandIns) : StandIns :=
  let event : IrqEvent := ⟨cpu, (p.get cpu).cycles / cyclesPerLine, level⟩
  match p with
  | ⟨m68k, z80, wiring, acknowledges, counts, events⟩ =>
    ⟨m68k, z80, wiring, acknowledges, counts, events.push event⟩

/-- Acknowledge a vertical interrupt on the registers the processors are wired to. -/
def acknowledge : StandIns × Board → StandIns × Board
  | (⟨m68k, z80, wiring, acknowledges, counts, events⟩, board) =>
    match mapWired Registers.acknowledgeVint (wiring, board) with
    | (wiring, board) => (⟨m68k, z80, wiring, acknowledges, counts, events⟩, board)

/-- Set an interrupt level. -/
def setIrq (cpu : Cpu) (level : Nat) (m : StandIns × Board) : StandIns × Board :=
  match (m.1.get cpu).manner with
  | .recording _ => (m.1.noteEvent cpu level, m.2)
  | .stepping _ _ =>
    let taken := cpu = .m68k ∧ level = vblankIrq ∧ m.1.acknowledges
    let m := match m with
      | (p, board) => ({ p with counts := count cpu level p.counts }, board)
    if taken then acknowledge m else m

/-- The interrupts noted since this was last asked, and the processors without them. -/
def takeEvents : StandIns → Array IrqEvent × StandIns
  | ⟨m68k, z80, wiring, acknowledges, counts, events⟩ =>
    (events, ⟨m68k, z80, wiring, acknowledges, counts, #[]⟩)

end StandIns

instance : Processors StandIns where
  cycles p cpu := (p.get cpu).cycles
  execute := StandIns.execute
  setIrq := StandIns.setIrq
  endFrame cpu cycles := StandIns.map cpu fun p => { p with cycles := p.cycles - cycles }
  reset cpu := StandIns.map cpu fun p => { p with cycles := 0 }

instance : Renderer TestCard where
  configure width height t := t.configure width height
  renderLine line := fun (t, now) =>
    if line = 0 ∧ t.fails then .error .renderer (t, now)
    else .ok () (t.renderLine line now)

end ConsolePipeline.Bench
