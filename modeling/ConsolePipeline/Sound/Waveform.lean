import ConsolePipeline.Sound.SampleBuffer
import ConsolePipeline.Timing

namespace ConsolePipeline.Sound

/-!
# Stand-in chip that repeats a waveform

A chip for running the pipeline without a sound core. It repeats fixed samples, scaled by a gain,
and stamps the last sample of every frame with the frame's number, so a listener can tell whether a
frame arrived whole and in order.

* `stamp` — the sample that marks a frame.
* `Waveform.runTo` — every sample due up to a cycle of the frame, as long as the buffer has room.
* `Waveform.triangle` — a tone of about one kilohertz.
-/

/-- The sample that marks the end of a frame: the low 15 bits of its number. -/
def stamp (frame : Nat) : Int16 :=
  Int16.ofNat (frame % 0x8000)

/-- A waveform chip. -/
structure Waveform where
  pattern : Array Int16
  /-- The next place of the pattern. -/
  phase : Nat := 0
  /-- The frame's last sample, counted from 1, carries the stamp. -/
  samplesPerFrame : Nat
  /-- Samples left in the buffer since the frame began. -/
  produced : Nat := 0
  /-- The number of the frame being played. -/
  frame : Nat := 0
  /-- The number the next frame will have. -/
  nextFrame : Nat := 0
  /-- Loudness, from 0 to 15. -/
  gain : Nat := 15
  deriving DecidableEq, Repr, Inhabited

namespace Waveform

/-- Repeat the given samples; with none given, silence. -/
def ofPattern (pattern : Array Int16) (samplesPerFrame : Nat) : Waveform :=
  { pattern := if pattern.isEmpty then #[0] else pattern, samplesPerFrame }

/-- The period of the test tone in samples. -/
def trianglePeriod : Nat := 53

/-- The test tone's value at a place of its period: up to the amplitude, down past zero to its
    negative, and up again. -/
def triangleAt (amplitude : Int) (i : Nat) : Int :=
  let up := ((i : Int) * 4 * amplitude).tdiv trianglePeriod
  if up ≤ amplitude then up
  else if up ≤ 3 * amplitude then 2 * amplitude - up
  else up - 4 * amplitude

/-- A triangle wave of about one kilohertz. -/
def triangle (amplitude : Int16) (samplesPerFrame : Nat) : Waveform :=
  let pattern := (Array.range trianglePeriod).map fun i =>
    Int16.ofInt (triangleAt amplitude.toInt i)
  ofPattern pattern samplesPerFrame

/-- The sample due now: the stamp at the end of a frame, the scaled pattern before and after. -/
def output (w : Waveform) : Int16 :=
  if w.produced + 1 = w.samplesPerFrame then
    stamp w.frame
  else
    Int16.ofInt (((w.pattern.getD w.phase 0).toInt * w.gain).tdiv 15)

/-- One sample further along the pattern. -/
def advance (w : Waveform) : Waveform :=
  { w with phase := (w.phase + 1) % w.pattern.size, produced := w.produced + 1 }

/-- Leave up to `n` samples, stopping where the buffer is full. -/
def take : Nat → Waveform → SampleBuffer → Waveform × SampleBuffer
  | 0, w, out => (w, out)
  | n + 1, w, out =>
    if out.isFull then (w, out)
    else
      let s := w.output
      take n w.advance (out.push s)

/-- Leave every sample due up to a cycle of the frame. -/
def runTo (w : Waveform) (target : Nat) (out : SampleBuffer) : Waveform × SampleBuffer :=
  take (target / cyclesPerSample - w.produced) w out

/-- Any register sets the gain from the low four bits. -/
def write (w : Waveform) (value : UInt8) : Waveform :=
  { w with gain := (value &&& 0x0F).toNat }

/-- Begin the next frame; the pattern runs on. -/
def beginFrame (w : Waveform) : Waveform :=
  { w with frame := w.nextFrame, nextFrame := w.nextFrame + 1, produced := 0 }

/-- Back to the first frame and full gain. -/
def reset (w : Waveform) : Waveform :=
  { w with phase := 0, produced := 0, frame := 0, nextFrame := 0, gain := 15 }

end Waveform

end ConsolePipeline.Sound
