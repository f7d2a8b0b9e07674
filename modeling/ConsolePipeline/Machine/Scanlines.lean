import ConsolePipeline.Machine.Board
import ConsolePipeline.Timing

namespace ConsolePipeline.Machine

open Video

/-!
# The scanlines of a frame

Both processors run one line at a time. After each line come the interrupts that belong there: line
interrupts whenever a counter runs out, the vertical interrupt as the last visible line ends, and
one line's worth of interrupt for the second processor.

* `Sweep.line` — one line.
* `Sweep.lines` — any number of lines.
-/

/-- Interrupt level of the line interrupt. -/
def lineIrq : Nat := 4

/-- Interrupt level of the vertical interrupt. -/
def vblankIrq : Nat := 6

/-- What changes from line to line. -/
structure Sweep (P : Type) where
  machine : P × Board
  /-- The line interrupt counter. -/
  hint : Int
  m68kUs : UInt32 := 0
  z80Us : UInt32 := 0
  /-- Line interrupts so far. -/
  lineInterrupts : Nat := 0
  vblankRaised : Bool := false

namespace Sweep

variable {P : Type} [Processors P]

/-- The registers as they are now. -/
def registers (s : Sweep P) : Registers :=
  s.machine.2.registers

/-- Set an interrupt level. -/
def setIrq (cpu : Cpu) (level : Nat) : Sweep P → Sweep P
  | ⟨machine, hint, m68kUs, z80Us, lineInterrupts, vblankRaised⟩ =>
    ⟨Processors.setIrq cpu level machine, hint, m68kUs, z80Us, lineInterrupts, vblankRaised⟩

/-- Mark the vertical interrupt as pending. -/
def raiseVint : Sweep P → Sweep P
  | ⟨(p, ⟨now, registers, bus⟩), hint, m68kUs, z80Us, lineInterrupts, vblankRaised⟩ =>
    ⟨(p, ⟨now, registers.raiseVint, bus⟩), hint, m68kUs, z80Us, lineInterrupts, vblankRaised⟩

/-- Run both processors to the end of a line and measure the time they take. -/
def execute (line : Nat) : Sweep P → Sweep P
  | ⟨machine, hint, m68kUs, z80Us, lineInterrupts, vblankRaised⟩ =>
    let target := (line + 1) * cyclesPerLine
    let start := machine.2.now
    let machine := runTo .m68k target machine
    let between := machine.2.now
    let machine := runTo .z80 target machine
    let done := machine.2.now
    ⟨machine, hint, m68kUs + elapsedLowUs start between, z80Us + elapsedUs between done,
      lineInterrupts, vblankRaised⟩

/-- Whether a line interrupt is due when the counter runs out at the end of a line. -/
def lineIrqDue (mode : Mode) (line : Nat) (s : Sweep P) : Bool :=
  s.registers.lineInterruptEnabled && line ≤ mode.height && !s.registers.vintPending

/-- Count a line interrupt and raise it. -/
def raiseLineIrq (s : Sweep P) : Sweep P :=
  match s.setIrq .m68k lineIrq with
  | ⟨machine, hint, m68kUs, z80Us, lineInterrupts, vblankRaised⟩ =>
    ⟨machine, hint, m68kUs, z80Us, lineInterrupts + 1, vblankRaised⟩

/-- Set the line interrupt counter. -/
def setHint (hint : Int) : Sweep P → Sweep P
  | ⟨machine, _, m68kUs, z80Us, lineInterrupts, vblankRaised⟩ =>
    ⟨machine, hint, m68kUs, z80Us, lineInterrupts, vblankRaised⟩

/-- Count a line. The counter starts over at the first line, on all lines past the visible ones, and
    when it has run out. -/
def countLine (mode : Mode) (reload line : Nat) (s : Sweep P) : Sweep P :=
  let counter := (if line = 0 ∨ mode.height < line then (reload : Int) else s.hint) - 1
  if counter < 0 then
    (if s.lineIrqDue mode line then s.raiseLineIrq else s).setHint reload
  else
    s.setHint counter

/-- Mark that the vertical interrupt was raised. -/
def markVblank : Sweep P → Sweep P
  | ⟨machine, hint, m68kUs, z80Us, lineInterrupts, _⟩ =>
    ⟨machine, hint, m68kUs, z80Us, lineInterrupts, true⟩

/-- Raise the vertical interrupt if it is enabled. -/
def raiseVblank (s : Sweep P) : Sweep P :=
  if s.registers.vblankInterruptEnabled then (s.raiseVint.setIrq .m68k vblankIrq).markVblank else s

/-- What happens as the visible lines end, and one line later. -/
def leaveLine (mode : Mode) (line : Nat) (s : Sweep P) : Sweep P :=
  if line + 1 = mode.height then s.raiseVblank.setIrq .z80 1
  else if line = mode.height then s.setIrq .z80 0
  else s

/-- One line: both processors run, then come the interrupts. -/
def line (mode : Mode) (reload line : Nat) (s : Sweep P) : Sweep P :=
  ((s.execute line).countLine mode reload line).leaveLine mode line

/-- Any number of lines from a given one on. -/
def lines (mode : Mode) (reload : Nat) : (n line : Nat) → Sweep P → Sweep P
  | 0, _, s => s
  | n + 1, l, s => lines mode reload n (l + 1) (s.line mode reload l)

end Sweep

end ConsolePipeline.Machine
