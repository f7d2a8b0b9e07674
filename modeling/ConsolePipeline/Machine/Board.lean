import ConsolePipeline.Clock
import ConsolePipeline.Fault
import ConsolePipeline.Sound.Bus
import ConsolePipeline.Video.Registers

namespace ConsolePipeline.Machine

open Sound Video

/-!
# What the frame loop drives

The frame loop knows its processors and its renderer only by what it can ask of them. The processors
share a board: the clock, the video registers and the sound bus.

* `Board` — the parts that processors can touch while they run.
* `Processors` — the two processors of a console, with whatever state they share.
* `Renderer` — draws one line at a time and may break down.
-/

/-- One of the two processors. -/
inductive Cpu
  | m68k
  | z80
  deriving DecidableEq, Repr, Inhabited

def Cpu.name : Cpu → String
  | m68k => "m68k"
  | z80 => "z80"

/-- The parts of a console that processors share with the frame loop. -/
structure Board where
  now : Instant := 0
  registers : Registers
  bus : Bus
  deriving Inhabited

/-- Two processors whose joint state is a `P`. Cycles are master cycles since the frame began. -/
class Processors (P : Type) where
  /-- How far a processor has come. -/
  cycles : P → Cpu → Nat
  /-- Run a processor until it has come to `target` or past it. -/
  execute : Cpu → (target : Nat) → P × Board → P × Board
  /-- Set the interrupt level of a processor. The second one knows 0 and everything else. -/
  setIrq : Cpu → (level : Nat) → P × Board → P × Board
  /-- Take the cycles of a finished frame off a processor's count. -/
  endFrame : Cpu → (cycles : Nat) → P → P
  /-- Back to the state at power-on. -/
  reset : Cpu → P → P

/-- Run a processor to a cycle, unless it is there already. -/
def runTo {P : Type} [Processors P] (cpu : Cpu) (target : Nat) (m : P × Board) : P × Board :=
  if target ≤ Processors.cycles m.1 cpu then m else Processors.execute cpu target m

/-- A renderer whose state is an `R`. Drawing may take time. -/
class Renderer (R : Type) where
  /-- Take new dimensions. -/
  configure : (width height : Nat) → R → R
  /-- Draw one line. -/
  renderLine : (line : Nat) → Run (R × Instant) Unit

/-- Draw `n` lines from a given one on. -/
def renderLines {R : Type} [Renderer R] : (n line : Nat) → Run (R × Instant) Unit
  | 0, _ => pure ()
  | n + 1, line => do
    Renderer.renderLine line
    renderLines n (line + 1)

end ConsolePipeline.Machine
