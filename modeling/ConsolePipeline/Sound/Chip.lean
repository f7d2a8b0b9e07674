import ConsolePipeline.Sound.Psg
import ConsolePipeline.Sound.Waveform

namespace ConsolePipeline.Sound

/-!
# Sound chips

What the rest of the pipeline asks of a sound chip. A register write takes effect at a cycle of the
frame: the chip first catches up to that cycle, then the write applies.
-/

/-- A chip that leaves mono samples in a buffer as its clock advances. -/
inductive Chip
  | psg (chip : Psg)
  | waveform (chip : Waveform)
  deriving DecidableEq, Inhabited

namespace Chip

/-- Leave every sample due up to a cycle of the frame. -/
def runTo (c : Chip) (target : Nat) (out : SampleBuffer) : Chip × SampleBuffer :=
  match c with
  | psg p => match p.runTo target out with
    | (p, out) => (psg p, out)
  | waveform w => match w.runTo target out with
    | (w, out) => (waveform w, out)

/-- Apply a register write without letting time pass. -/
def write (c : Chip) (value : UInt8) : Chip :=
  match c with
  | psg p => psg (p.write value)
  | waveform w => waveform (w.write value)

/-- Catch up to a cycle, then apply the write. -/
def writeAt (c : Chip) (value : UInt8) (cycle : Nat) (out : SampleBuffer) : Chip × SampleBuffer :=
  match c.runTo cycle out with
  | (c, out) => (c.write value, out)

/-- Begin a new frame. -/
def beginFrame : Chip → Chip
  | psg p => psg p.beginFrame
  | waveform w => waveform w.beginFrame

/-- Samples of the frame so far, as the chip reports them. The count is signed because a reader on
    the other side must not trust it. -/
def sampleCount : Chip → Int
  | psg p => p.produced
  | waveform w => w.produced

/-- Back to the state at power-on. -/
def reset : Chip → Chip
  | psg _ => psg {}
  | waveform w => waveform w.reset

def name : Chip → String
  | psg _ => "SN76489"
  | waveform _ => "pattern"

end Chip

end ConsolePipeline.Sound
