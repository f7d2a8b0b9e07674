import ConsolePipeline.Proofs.Run
import ConsolePipeline.Machine.Emulation

namespace ConsolePipeline.Machine

open FrameSkip Sound Video

/-!
# Machines that a frame cannot tell apart

The scanlines of a frame see the processors and the board through a few operations only. A relation
that each of these keeps is kept by the whole frame, and what the frame counts is the same on both
sides. What it measures need not be: the clocks may differ.

* `Indistinct` — a relation that the operations keep.
* `Sweep.Alike` — two sweeps that have come equally far; `Sweep.Alike.lines` — they go on alike.
* `Emulation.prepare`, `draw` — a frame up to the drawing, and the drawing; `produce_eq` — together
  they make a frame.
* `Emulation.Alike` — two emulation sides before the same frame; `Alike.prepare` — they prepare it
  alike.
-/

/-- Change the registers on a board. -/
def Board.mapRegisters (f : Registers → Registers) : Board → Board
  | ⟨now, registers, bus⟩ => ⟨now, f registers, bus⟩

/-- Change the bus on a board. -/
def Board.mapBus (f : Bus → Bus) : Board → Board
  | ⟨now, registers, bus⟩ => ⟨now, registers, f bus⟩

/-- Each mode has lines to draw. -/
theorem sample_height_pos (r : Registers) : 0 < (Mode.sample r).height := by
  show 0 < if r.pal && r.isV30 then 240 else 224
  split <;> decide

/-- **A relation between machines that a frame keeps,** and that shows it the same on both sides. -/
structure Indistinct {P : Type} [Processors P] (R : P × Board → P × Board → Prop) : Prop where
  cycles : ∀ {m m'}, R m m' → ∀ cpu, Processors.cycles m'.1 cpu = Processors.cycles m.1 cpu
  registers : ∀ {m m'}, R m m' → m'.2.registers = m.2.registers
  samples : ∀ {m m'}, R m m' → m'.2.bus.sampleCounts = m.2.bus.sampleCounts
  execute : ∀ {m m'}, R m m' → ∀ cpu target,
    R (Processors.execute cpu target m) (Processors.execute cpu target m')
  setIrq : ∀ {m m'}, R m m' → ∀ cpu level,
    R (Processors.setIrq cpu level m) (Processors.setIrq cpu level m')
  raiseVint : ∀ {m m'}, R m m' →
    R (m.1, m.2.mapRegisters (·.raiseVint)) (m'.1, m'.2.mapRegisters (·.raiseVint))
  flush : ∀ {m m'}, R m m' → ∀ cycle,
    R (m.1, m.2.mapBus (·.flush cycle)) (m'.1, m'.2.mapBus (·.flush cycle))

section

variable {P : Type} {R : P × Board → P × Board → Prop}

/-- Two sweeps that have counted the same. -/
structure Sweep.Alike (R : P × Board → P × Board → Prop) (s s' : Sweep P) : Prop where
  machine : R s.machine s'.machine
  hint : s'.hint = s.hint
  lineInterrupts : s'.lineInterrupts = s.lineInterrupts
  vblankRaised : s'.vblankRaised = s.vblankRaised

theorem Sweep.Alike.setHint {s s' : Sweep P} (h : Alike R s s') (hint : Int) :
    Alike R (s.setHint hint) (s'.setHint hint) :=
  ⟨h.machine, rfl, h.lineInterrupts, h.vblankRaised⟩

theorem Sweep.Alike.markVblank {s s' : Sweep P} (h : Alike R s s') :
    Alike R s.markVblank s'.markVblank :=
  ⟨h.machine, h.hint, h.lineInterrupts, rfl⟩

/-- A new mode is for the renderer and the loop only. -/
theorem Emulation.enterMode_eq {Q : Type} [Renderer Q] (mode : Mode) (e : Emulation P Q) :
    ∃ renderer lastMode notices, (e.enterMode mode).2 =
      ⟨e.processors, e.board, renderer, { e.loop with lastMode }, e.sender, notices⟩ := by
  simp only [enterMode]
  split
  · exact ⟨_, _, _, rfl⟩
  · split <;> exact ⟨_, _, _, rfl⟩

variable [Processors P]

theorem Indistinct.runTo (hR : Indistinct R) {m m' : P × Board} (h : R m m') (cpu : Cpu)
    (target : Nat) : R (runTo cpu target m) (runTo cpu target m') := by
  simp only [Machine.runTo, hR.cycles h cpu]
  split
  · exact h
  · exact hR.execute h cpu target

/-! ### Scanlines -/

namespace Sweep

variable {s s' : Sweep P}

namespace Alike

theorem registers (hR : Indistinct R) (h : Alike R s s') : s'.registers = s.registers :=
  hR.registers h.machine

theorem setIrq (hR : Indistinct R) (h : Alike R s s') (cpu : Cpu) (level : Nat) :
    Alike R (s.setIrq cpu level) (s'.setIrq cpu level) :=
  ⟨hR.setIrq h.machine cpu level, h.hint, h.lineInterrupts, h.vblankRaised⟩

theorem raiseVint (hR : Indistinct R) (h : Alike R s s') : Alike R s.raiseVint s'.raiseVint :=
  ⟨hR.raiseVint h.machine, h.hint, h.lineInterrupts, h.vblankRaised⟩

/-- Both processors run; only what is measured may differ. -/
theorem execute (hR : Indistinct R) (h : Alike R s s') (line : Nat) :
    Alike R (s.execute line) (s'.execute line) :=
  ⟨hR.runTo (hR.runTo h.machine .m68k _) .z80 _, h.hint, h.lineInterrupts, h.vblankRaised⟩

theorem raiseLineIrq (hR : Indistinct R) (h : Alike R s s') :
    Alike R s.raiseLineIrq s'.raiseLineIrq := by
  have hset := h.setIrq hR .m68k lineIrq
  exact ⟨hset.machine, hset.hint, congrArg (· + 1) hset.lineInterrupts, hset.vblankRaised⟩

theorem countLine (hR : Indistinct R) (h : Alike R s s') (mode : Mode) (reload line : Nat) :
    Alike R (s.countLine mode reload line) (s'.countLine mode reload line) := by
  have hdue : s'.lineIrqDue mode line = s.lineIrqDue mode line := by
    rw [lineIrqDue, lineIrqDue, h.registers hR]
  have hcount : s'.countLine mode reload line =
      let counter := (if line = 0 ∨ mode.height < line then (reload : Int) else s.hint) - 1
      if counter < 0 then
        (if s.lineIrqDue mode line then s'.raiseLineIrq else s').setHint reload
      else s'.setHint counter := by
    rw [Sweep.countLine, hdue, h.hint]
  rw [hcount, Sweep.countLine]
  generalize (if line = 0 ∨ mode.height < line then (reload : Int) else s.hint) - 1 = counter
  dsimp only
  -- The counter has run out or not.
  by_cases hout : counter < 0
  · rw [if_pos hout, if_pos hout]
    apply setHint
    split
    · exact h.raiseLineIrq hR
    · exact h
  · rw [if_neg hout, if_neg hout]
    exact h.setHint counter

theorem raiseVblank (hR : Indistinct R) (h : Alike R s s') :
    Alike R s.raiseVblank s'.raiseVblank := by
  simp only [Sweep.raiseVblank, h.registers hR]
  split
  · exact ((h.raiseVint hR).setIrq hR .m68k vblankIrq).markVblank
  · exact h

theorem leaveLine (hR : Indistinct R) (h : Alike R s s') (mode : Mode) (line : Nat) :
    Alike R (s.leaveLine mode line) (s'.leaveLine mode line) := by
  simp only [Sweep.leaveLine]
  split
  · exact (h.raiseVblank hR).setIrq hR .z80 1
  · split
    · exact h.setIrq hR .z80 0
    · exact h

/-- **One line keeps two sweeps alike.** -/
theorem line (hR : Indistinct R) (h : Alike R s s') (mode : Mode) (reload line : Nat) :
    Alike R (s.line mode reload line) (s'.line mode reload line) :=
  ((h.execute hR line).countLine hR mode reload line).leaveLine hR mode line

/-- **And so does any number of lines.** -/
theorem lines (hR : Indistinct R) (h : Alike R s s') (mode : Mode) (reload n line : Nat) :
    Alike R (s.lines mode reload n line) (s'.lines mode reload n line) := by
  induction n generalizing line s s' with
  | zero => exact h
  | succ n ih => exact ih (h.line hR mode reload line) (line + 1)

end Alike

end Sweep

/-! ### A frame up to the handover -/

namespace Emulation

variable {Q : Type} [Renderer Q]

/-- A frame up to the drawing: mode and decision, then the scanlines and the rest of the samples. -/
def prepare (e : Emulation P Q) : Draft × Emulation P Q :=
  let mode := Mode.sample e.board.registers
  let entered := enterMode mode e
  let decided := decide entered.1 entered.2
  let swept := sweep mode (decided.2.mapBus (·.beginFrame))
  let flushed := swept.2.2.2.flush
  ({ mode
     modeChanged := entered.1
     decision := decided.1
     start := e.board.now
     times := swept.1
     samples := flushed.board.bus.sampleCounts
     lineInterrupts := swept.2.1
     vblankRaised := swept.2.2.1
     workUs := elapsedUs e.board.now flushed.board.now }, flushed)

/-- The sweep of a frame, from its first line to its last. -/
def swept (e : Emulation P Q) : Sweep P :=
  let mode := Mode.sample e.board.registers
  Sweep.lines mode e.board.registers.lineReload.toNat mode.linesPerFrame 0
    { machine := (e.processors, e.board.mapBus (·.beginFrame)), hint := e.loop.hint }

/-- What is measured up to the drawing is what the sweep measures. -/
theorem prepare_measured (e : Emulation P Q) :
    e.prepare.1.times = { m68kUs := e.swept.m68kUs, z80Us := e.swept.z80Us } ∧
      e.prepare.2.board.now = e.swept.machine.2.now := by
  obtain ⟨renderer, lastMode, notices, hentered⟩ :=
    enterMode_eq (Mode.sample e.board.registers) e
  simp only [prepare, hentered]
  exact ⟨rfl, rfl⟩

/-- The decision on a frame is that of the skip controller, which takes it into account. -/
theorem prepare_decided (e : Emulation P Q) :
    (e.prepare.1.decision, e.prepare.2.loop.skip) =
        e.loop.skip.decide e.loop.frame e.prepare.1.modeChanged ∧
      e.prepare.2.loop.profiler = e.loop.profiler := by
  obtain ⟨renderer, lastMode, notices, hentered⟩ :=
    enterMode_eq (Mode.sample e.board.registers) e
  simp only [prepare, hentered]
  exact ⟨rfl, rfl⟩

/-- Draw a frame that was prepared, if that has been decided. -/
def draw (d : Draft) : Run (Emulation P Q) Draft := do
  let renderUs ← if d.decision.render then render d.mode else pure 0
  let e ← get
  return { d with
    times := { d.times with renderUs }
    samples := e.board.bus.sampleCounts
    workUs := elapsedUs d.start e.board.now }

/-- **To make a frame is to prepare it and to draw it.** -/
theorem produce_eq (e : Emulation P Q) : produce e = draw e.prepare.1 e.prepare.2 := rfl

end Emulation

end

section

variable {P : Type} {R : P × Board → P × Board → Prop}

/-- Two loops before the same frame. What they know of the time, and of the frames skipped, has no
    part in it. -/
structure Loop.Alike (l l' : Loop) : Prop where
  flushCycle : l'.flushCycle = l.flushCycle
  frame : l'.frame = l.frame
  lastMode : l'.lastMode = l.lastMode
  hint : l'.hint = l.hint

/-- Two drafts of the same frame. -/
structure Draft.Alike (d d' : Draft) : Prop where
  mode : d'.mode = d.mode
  modeChanged : d'.modeChanged = d.modeChanged
  samples : d'.samples = d.samples
  lineInterrupts : d'.lineInterrupts = d.lineInterrupts
  vblankRaised : d'.vblankRaised = d.vblankRaised

namespace Emulation

variable {Q : Type} {e e' : Emulation P Q}

/-- The processors and their board. -/
def machine (e : Emulation P Q) : P × Board :=
  (e.processors, e.board)

/-- **Two emulation sides before the same frame.** -/
structure Alike (R : P × Board → P × Board → Prop) (e e' : Emulation P Q) : Prop where
  machine : R e.machine e'.machine
  loop : e.loop.Alike e'.loop

section

variable [Renderer Q]

/-- A mode is new on both sides or on neither. -/
theorem Alike.enterMode (h : Alike R e e') (mode : Mode) :
    (enterMode mode e').1 = (enterMode mode e).1 ∧
      Alike R (enterMode mode e).2 (enterMode mode e').2 := by
  simp only [Emulation.enterMode, h.loop.lastMode]
  by_cases hlast : e.loop.lastMode = some mode
  · rw [if_pos hlast, if_pos hlast]
    exact ⟨rfl, h⟩
  · rw [if_neg hlast, if_neg hlast]
    -- Whether the renderer is told changes neither the machine nor the loop.
    refine ⟨rfl, ?_, ?_⟩
    · split <;> exact h.machine
    · split <;> exact ⟨h.loop.flushCycle, h.loop.frame, rfl, h.loop.hint⟩

end

theorem Alike.decide (h : Alike R e e') (force force' : Bool) :
    Alike R (decide force e).2 (decide force' e').2 :=
  ⟨h.machine, h.loop.flushCycle, h.loop.frame, h.loop.lastMode, h.loop.hint⟩

variable [Processors P]

/-- The scanlines of a frame, from a machine that has begun it. -/
theorem Alike.sweep (hR : Indistinct R) (h : Alike R e e') (mode : Mode) :
    (sweep mode e').2.1 = (sweep mode e).2.1 ∧ (sweep mode e').2.2.1 = (sweep mode e).2.2.1 ∧
      Alike R (sweep mode e).2.2.2 (sweep mode e').2.2.2 := by
  have hregisters : e'.board.registers = e.board.registers := hR.registers h.machine
  have hstart : Sweep.Alike R { machine := e.machine, hint := e.loop.hint }
      { machine := e'.machine, hint := e'.loop.hint } :=
    ⟨h.machine, h.loop.hint, rfl, rfl⟩
  have hlines := hstart.lines hR mode e.board.registers.lineReload.toNat mode.linesPerFrame 0
  rw [Emulation.sweep, Emulation.sweep, hregisters]
  exact ⟨hlines.lineInterrupts, hlines.vblankRaised, hlines.machine, h.loop.flushCycle,
    h.loop.frame, h.loop.lastMode, hlines.hint⟩

theorem Alike.flush (hR : Indistinct R) (h : Alike R e e') : Alike R e.flush e'.flush := by
  refine ⟨?_, h.loop⟩
  have hflush := hR.flush h.machine e.loop.flushCycle
  rw [Emulation.flush, Emulation.flush, h.loop.flushCycle]
  exact hflush

/-- **Two emulation sides prepare a frame alike,** once the machines that have begun it cannot be
    told apart. -/
theorem Alike.prepare [Renderer Q] {B : P × Board → P × Board → Prop} (hR : Indistinct R)
    (hregisters : ∀ {m m'}, B m m' → m'.2.registers = m.2.registers)
    (hbegin : ∀ {m m'}, B m m' →
      R (m.1, m.2.mapBus (·.beginFrame)) (m'.1, m'.2.mapBus (·.beginFrame)))
    (h : Alike B e e') :
    e.prepare.1.Alike e'.prepare.1 ∧ Alike R e.prepare.2 e'.prepare.2 := by
  have hmode : Mode.sample e'.board.registers = Mode.sample e.board.registers :=
    congrArg Mode.sample (hregisters h.machine)
  obtain ⟨hchanged, hentered⟩ := h.enterMode (Mode.sample e.board.registers)
  have hdecided := hentered.decide (Emulation.enterMode (Mode.sample e.board.registers) e).1
    (Emulation.enterMode (Mode.sample e.board.registers) e').1
  have hbegun : Alike R
      ((Emulation.decide (Emulation.enterMode (Mode.sample e.board.registers) e).1
        (Emulation.enterMode (Mode.sample e.board.registers) e).2).2.mapBus (·.beginFrame))
      ((Emulation.decide (Emulation.enterMode (Mode.sample e.board.registers) e').1
        (Emulation.enterMode (Mode.sample e.board.registers) e').2).2.mapBus (·.beginFrame)) :=
    ⟨hbegin hdecided.machine, hdecided.loop⟩
  obtain ⟨hlines, hvblank, hswept⟩ := hbegun.sweep hR (Mode.sample e.board.registers)
  have hflushed := hswept.flush hR
  simp only [Emulation.prepare, hmode]
  exact ⟨⟨rfl, hchanged, hR.samples hflushed.machine, hlines, hvblank⟩, hflushed⟩

end Emulation

end

end ConsolePipeline.Machine
