import ConsolePipeline.Log.Entry
import ConsolePipeline.Mixing.Controls
import ConsolePipeline.Sound.FrameAudio
import ConsolePipeline.Stereo.Decay

namespace ConsolePipeline.Mixing

open Sound Stereo

/-!
# The mixer

One frame of two chips becomes exactly one slot of stereo words, whatever arrived. Missing or
disabled audio is replaced by the decay of the last sample. The first samples of a frame are ramped
from where the last frame ended, so that no discontinuity turns into a click.

* `Blend` — the samples of one frame on its way to the slot: `raw`, `scaled`, `target`, `emitted`.
* `Mixer.mix` — the words of one slot, from whatever is there.
-/

/-- How frames are mixed. -/
structure MixerConfig where
  /-- Stereo words of a frame. -/
  samplesPerFrame : UInt64 := 888
  /-- Samples ramped from the last frame's last value. -/
  crossfadeLen : UInt64 := 32
  /-- Decay of each sample while audio is missing, out of 256. -/
  fadePole : UInt32 := 16
  deriving DecidableEq, Repr, Inhabited

/-- Counters of a mixer. -/
structure MixerStats where
  frames : Nat := 0
  /-- Frames replaced by a decay. -/
  fadedFrames : Nat := 0
  /-- Frames that never arrived. -/
  missingFrames : Nat := 0
  /-- Negative or oversized sample counts. -/
  invalidCounts : Nat := 0
  /-- Frames with fewer samples than the slot has words. -/
  shortFrames : Nat := 0
  clippedSamples : Nat := 0
  deriving DecidableEq, Repr, Inhabited

/-- Hold a value to the range of a sample. -/
def clampSample (v : Int) : Int :=
  max (-32768) (min 32767 v)

/-- Two chips' samples, blended into what follows the sample `last`. -/
structure Blend where
  /-- The samples of each chip that count. -/
  fm : Array Int16
  psg : Array Int16
  volume : Nat
  /-- The last sample of the frame before. -/
  last : Int16
  /-- Samples of the frame, at least one. -/
  available : Nat
  /-- Samples to ramp, if the frame has as many. -/
  crossfade : Nat

namespace Blend

/-- The chips' samples added up; a chip with too few is silent. -/
def raw (b : Blend) (i : Nat) : Int :=
  (b.fm.getD i 0).toInt + (b.psg.getD i 0).toInt

/-- The sum at the volume, rounded down. -/
def scaled (b : Blend) (i : Nat) : Int :=
  (b.raw i * b.volume) / 128

/-- The value a sample would have without the ramp. -/
def target (b : Blend) (i : Nat) : Int :=
  clampSample (b.scaled i)

/-- Samples ramped. -/
def ramp (b : Blend) : Nat :=
  min b.crossfade b.available

/-- Steps from the last frame's sample to the first one off the ramp. A frame that ends on the ramp
    still ends on its own last sample, because that value pads the rest of the slot. -/
def rampSteps (b : Blend) : Nat :=
  if b.ramp = b.available then b.ramp else b.ramp + 1

/-- The value of a sample: on the ramp, that share of the way from the last frame's sample. -/
def emitted (b : Blend) (i : Nat) : Int :=
  if i < b.ramp then
    b.last.toInt + ((b.target i - b.last.toInt) * (i + 1)).tdiv b.rampSteps
  else
    b.target i

/-- The word of a sample. -/
def word (b : Blend) (i : Nat) : Word :=
  mono (sample (b.emitted i))

/-- The words of the frame. -/
def words (b : Blend) : Array Word :=
  (Array.range b.available).map b.word

/-- Samples that did not fit their range. -/
def clipped (b : Blend) : Nat :=
  (List.range b.available).countP fun i => b.target i != b.scaled i

end Blend

/-- The mixer. -/
structure Mixer where
  config : MixerConfig
  /-- The last sample written, from which the next ramp or decay starts. -/
  last : Int16 := 0
  stats : MixerStats := {}
  deriving DecidableEq, Repr, Inhabited

/-- The outcome of mixing one slot. -/
structure Mixed where
  mixer : Mixer
  /-- All words of the slot. -/
  words : Array Word
  /-- How many of them came from chip samples. -/
  used : Nat
  notices : List Log.Entry

namespace Mixer

/-- Counters and last sample as at the start. -/
def reset (m : Mixer) : Mixer :=
  { m with last := 0, stats := {} }

/-- Replace a slot by the decay of the last sample. -/
def fadeOut (m : Mixer) (length : Nat) (notices : List Log.Entry) : Mixed :=
  let words := fade m.last m.config.fadePole.toNat length
  let mixer :=
    { m with
      last := (words.back?.map left).getD m.last
      stats := { m.stats with fadedFrames := m.stats.fadedFrames + 1 } }
  ⟨mixer, words, 0, notices⟩

/-- Whether a count can be one of samples in a buffer. -/
def isValidCount (count : Int) (buffer : SampleBuffer) : Bool :=
  0 ≤ count && count.toNat ≤ buffer.capacity

/-- The note about a count that cannot be right. -/
def invalidCountEntry (count : Int) : Log.Entry :=
  ⟨.mixer, .warn, s!"discarding invalid sample count {count}"⟩

/-- The samples of a chip that count: none if it is disabled or its count cannot be right. -/
def trusted (enabled : Bool) (count : Int) (buffer : SampleBuffer) :
    Array Int16 × List Log.Entry :=
  if !enabled then (#[], [])
  else if isValidCount count buffer then (buffer.storage.extract 0 count.toNat, [])
  else (#[], [invalidCountEntry count])

/-- Mix two chips' samples into a slot, padded with its last sample. -/
def blendInto (m : Mixer) (b : Blend) (length : Nat) (notices : List Log.Entry) : Mixed :=
  let words := b.words
  let hold := words.back?.getD silence
  let stats :=
    { m.stats with
      shortFrames := m.stats.shortFrames + if b.available < length then 1 else 0
      clippedSamples := m.stats.clippedSamples + b.clipped }
  ⟨{ m with last := left hold, stats }, words ++ Array.replicate (length - b.available) hold,
    b.available, notices⟩

/-- Mix a frame of which both buffers arrived. -/
def mixChips (m : Mixer) (frame : FrameAudio) (fm psg : SampleBuffer) (controls : Controls)
    (length : Nat) : Mixed :=
  let (fmSamples, fmNotes) := trusted controls.fmEnabled frame.fmCount fm
  let (psgSamples, psgNotes) := trusted controls.psgEnabled frame.psgCount psg
  let notices := fmNotes ++ psgNotes
  let m :=
    { m with stats :=
      { m.stats with invalidCounts := m.stats.invalidCounts + notices.length } }
  let available := min (max fmSamples.size psgSamples.size) length
  if !controls.enabled || available = 0 then
    m.fadeOut length notices
  else
    m.blendInto
      { fm := fmSamples, psg := psgSamples, volume := controls.volume.toNat, last := m.last
        available, crossfade := m.config.crossfadeLen.toNat }
      length notices

/-- **All words of a slot,** from a frame that may be missing in part or as a whole. -/
def mix (m : Mixer) (frame : Option FrameAudio) (controls : Controls) (length : Nat) : Mixed :=
  let m := { m with stats := { m.stats with frames := m.stats.frames + 1 } }
  match frame with
  | none =>
    let stats := { m.stats with missingFrames := m.stats.missingFrames + 1 }
    { m with stats }.fadeOut length []
  | some frame =>
    match frame.fm, frame.psg with
    | some fm, some psg => m.mixChips frame fm psg controls length
    | _, _ => m.fadeOut length []

end Mixer

end ConsolePipeline.Mixing
