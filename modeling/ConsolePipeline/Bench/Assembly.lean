import ConsolePipeline.Bench.StandIns
import ConsolePipeline.Machine.Pipeline

namespace ConsolePipeline.Bench

open Machine Sound Video

/-!
# The test bench

Parts for a pipeline, made of stand-ins.

* `Options` — what can be chosen about them.
* `parts` — the parts for a configuration.
-/

/-- Master cycles of a step of each stand-in processor. -/
def stepCycles : Cpu → Nat
  | .m68k => 28
  | .z80 => 45

/-- What can be chosen about the stand-ins. -/
structure Options where
  /-- Cost of each slice of the first processor. -/
  m68kUs : UInt32 := 20
  /-- Cost of each slice of the second processor. -/
  z80Us : UInt32 := 10
  render : RenderCost := {}
  /-- Play a melody on a PSG instead of a test tone. -/
  melody : Bool := false
  fmAmplitude : Int16 := 6000
  psgAmplitude : Int16 := 3000
  /-- Whether the first processor acknowledges vertical interrupts. -/
  acknowledgeVint : Bool := true
  /-- Scripts in place of what the processors would do. -/
  m68kScript : Option (List Cue) := none
  z80Script : Option (List Cue) := none
  /-- Recording processors, with so many cycles of overshoot. -/
  recording : Option Nat := none
  /-- Chips in place of the test tones. -/
  fm : Option Chip := none
  psg : Option Chip := none
  /-- Leave it to the pipeline to make its registers; the processors have others. -/
  ownRegisters : Bool := false
  /-- The picture at which the renderer breaks down. -/
  failAt : Option Nat := none
  deriving Inhabited

/-- The registers of the stand-ins' console: as the configuration asks, with the vertical interrupt
    enabled. -/
def consoleRegisters (c : Config) : Registers :=
  let r := registersFor c
  r.set 1 (r.get 1 ||| 0x20)

/-- One stand-in processor. -/
def standIn (o : Options) (cpu : Cpu) : StandIn :=
  let script := match cpu with
    | .m68k => o.m68kScript
    | .z80 => o.z80Script
  let program := match script with
    | some cues => .script cues 0
    | none => if o.melody ∧ cpu = .z80 ∧ o.recording.isNone then .melody 0 else .idle
  match o.recording with
  | some overshoot => { manner := .recording overshoot, program }
  | none =>
    let costUs := match cpu with
      | .m68k => o.m68kUs
      | .z80 => o.z80Us
    { manner := .stepping (stepCycles cpu) costUs, program }

/-- The parts of a pipeline, made of stand-ins. -/
def parts (c : Config) (o : Options) : Parts StandIns TestCard where
  processors :=
    { m68k := standIn o .m68k
      z80 := standIn o .z80
      wiring := if o.ownRegisters then some (consoleRegisters c) else none
      acknowledges := o.acknowledgeVint }
  fm := o.fm.getD (.waveform (.triangle o.fmAmplitude c.frameLength))
  psg := o.psg.getD
    (if o.melody then .psg {} else .waveform (.triangle o.psgAmplitude c.frameLength))
  renderer := { cost := some o.render, failAt := o.failAt }
  registers := if o.ownRegisters then none else some (consoleRegisters c)

end ConsolePipeline.Bench
