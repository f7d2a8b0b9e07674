import ConsolePipeline.Sound.SampleBuffer
import ConsolePipeline.Timing

namespace ConsolePipeline.Sound

/-!
# The programmable sound generator

An SN76489: three square-wave tones and one noise channel, each with a 4-bit attenuation. Its
counters step once every 240 master cycles; a sample is taken every `cyclesPerSample` cycles.

* `Tone.tick`, `Noise.tick` — one step of a channel's counter.
* `Psg.write` — the latch and data bytes of the chip's single port.
* `Psg.runTo` — every sample due up to a cycle of the frame.
-/

/-- Master cycles of one counter step. -/
def cyclesPerTick : Nat := 240

/-- Amplitude of a channel for each attenuation; four channels at full volume still fit a sample. -/
def amplitudes : Array Nat :=
  #[8191, 6506, 5168, 4105, 3261, 2590, 2057, 1634, 1298, 1031, 819, 650, 517, 410, 326, 0]

/-- The amplitude at an attenuation from 0, the loudest, to 15, which is silent. -/
def amplitude (attenuation : Nat) : Nat :=
  amplitudes.getD attenuation 0

/-- One square wave. -/
structure Tone where
  /-- Counter steps between two toggles; a tone of period 0 does not toggle. -/
  period : Nat := 0
  counter : Nat := 0
  /-- The side of the wave that is heard now. -/
  high : Bool := false
  attenuation : Nat := 15
  deriving DecidableEq, Repr, Inhabited

namespace Tone

/-- Count down, or reload and toggle at zero. -/
def tick (t : Tone) : Tone :=
  if 0 < t.counter then
    { t with counter := t.counter - 1 }
  else
    { t with counter := t.period, high := if 0 < t.period then !t.high else t.high }

/-- The contribution to the mix: the amplitude on one side of zero or the other. -/
def level (t : Tone) : Int :=
  if t.high then amplitude t.attenuation else -amplitude t.attenuation

end Tone

/-- What reloads the noise counter. -/
inductive NoiseRate
  | every (steps : Nat)
  /-- The period of the third tone. -/
  | thirdTone
  deriving DecidableEq, Repr, Inhabited

/-- The noise channel: a 16-bit shift register, stepped whenever its counter runs out. -/
structure Noise where
  rate : NoiseRate := .every 0x10
  /-- White noise taps two bits of the register; periodic noise feeds its lowest bit back. -/
  white : Bool := false
  register : UInt16 := 0x8000
  counter : Nat := 0
  high : Bool := false
  attenuation : Nat := 15
  deriving DecidableEq, Repr, Inhabited

namespace Noise

/-- The bit that enters the register at the top. -/
def feedback (n : Noise) : Bool :=
  if n.white then
    (n.register ^^^ (n.register >>> 3)) &&& 1 != 0
  else
    n.register &&& 1 != 0

/-- The register after one shift. -/
def shifted (n : Noise) : UInt16 :=
  if n.feedback then (n.register >>> 1) ||| 0x8000 else n.register >>> 1

/-- The value the counter is reloaded with, given the period of the third tone. -/
def reload (n : Noise) (thirdPeriod : Nat) : Nat :=
  match n.rate with
  | .every steps => steps
  | .thirdTone => thirdPeriod

/-- Count down, or reload and shift at zero. -/
def tick (n : Noise) (thirdPeriod : Nat) : Noise :=
  if 0 < n.counter then
    { n with counter := n.counter - 1 }
  else
    let register := n.shifted
    { n with counter := n.reload thirdPeriod, register, high := register &&& 1 != 0 }

/-- The contribution to the mix. -/
def level (n : Noise) : Int :=
  if n.high then amplitude n.attenuation else -amplitude n.attenuation

/-- Take a new mode from the three low bits of a data byte; the register starts over. -/
def setMode (n : Noise) (data : UInt8) : Noise :=
  let rate := match (data &&& 0x03).toNat with
    | 0 => .every 0x10
    | 1 => .every 0x20
    | 2 => .every 0x40
    | _ => .thirdTone
  { n with rate, white := data &&& 0x04 != 0, register := 0x8000 }

end Noise

/-- The whole chip. -/
structure Psg where
  tones : Vector Tone 3 := Vector.replicate 3 {}
  noise : Noise := {}
  /-- The channel that data bytes go to: a tone below 3, the noise at 3. -/
  latched : Nat := 0
  /-- Master cycles of the samples taken since the frame began. -/
  clock : Nat := 0
  /-- Master cycles not yet turned into counter steps; they carry over from frame to frame. -/
  remainder : Nat := 0
  /-- Samples taken since the frame began. -/
  produced : Nat := 0
  deriving DecidableEq, Repr, Inhabited

namespace Psg

/-- Change the tone of a channel; a number past the tones changes nothing. -/
def modifyTone (p : Psg) (channel : Nat) (f : Tone → Tone) : Psg :=
  if h : channel < 3 then
    { p with tones := p.tones.set channel (f p.tones[channel]) }
  else
    p

/-- Set the attenuation of a channel, the noise being channel 3. -/
def setAttenuation (p : Psg) (channel attenuation : Nat) : Psg :=
  if channel = 3 then
    { p with noise := { p.noise with attenuation } }
  else
    p.modifyTone channel fun t => { t with attenuation }

/-- **The port.** A byte with its top bit set latches a channel and carries an attenuation, a noise
    mode or the low four bits of a period; any other byte carries the high six bits of the latched
    tone's period. -/
def write (p : Psg) (data : UInt8) : Psg :=
  if data &&& 0x80 != 0 then
    let channel := ((data >>> 5) &&& 0x03).toNat
    let low := (data &&& 0x0F).toNat
    let p := { p with latched := channel }
    if data &&& 0x10 != 0 then
      p.setAttenuation channel low
    else if channel = 3 then
      { p with noise := p.noise.setMode data }
    else
      p.modifyTone channel fun t => { t with period := t.period / 16 % 64 * 16 + low }
  else
    let high := (data &&& 0x3F).toNat
    p.modifyTone p.latched fun t => { t with period := high * 16 + t.period % 16 }

/-- One step of every counter. The noise sees the third tone's period, which no step changes. -/
def tick (p : Psg) : Psg :=
  { p with tones := p.tones.map Tone.tick, noise := p.noise.tick p.tones[2].period }

/-- `n` steps of every counter. -/
def ticks : Nat → Psg → Psg
  | 0, p => p
  | n + 1, p => ticks n p.tick

/-- The channels' contributions added up, before they are held to the range of a sample. -/
def mix (p : Psg) : Int :=
  p.tones[0].level + p.tones[1].level + p.tones[2].level + p.noise.level

/-- The sample heard now. -/
def output (p : Psg) : Int16 :=
  Int16.ofInt (max (-32768) (min 32767 p.mix))

/-- Let the time of one sample pass. -/
def nextSample (p : Psg) : Psg :=
  let owed := p.remainder + cyclesPerSample
  let p := ticks (owed / cyclesPerTick) { p with remainder := 0 }
  { p with
    remainder := owed % cyclesPerTick
    clock := p.clock + cyclesPerSample
    produced := p.produced + 1 }

/-- Take `n` samples. -/
def take : Nat → Psg → SampleBuffer → Psg × SampleBuffer
  | 0, p, out => (p, out)
  | n + 1, p, out =>
    let p := p.nextSample
    take n p (out.push p.output)

/-- Take every sample due up to a cycle of the frame; none if the chip is already there. -/
def runTo (p : Psg) (target : Nat) (out : SampleBuffer) : Psg × SampleBuffer :=
  take ((target - p.clock) / cyclesPerSample) p out

/-- Begin a frame: time and sample count start at zero, the channels run on. -/
def beginFrame (p : Psg) : Psg :=
  { p with clock := 0, produced := 0 }

end Psg

end ConsolePipeline.Sound
