import ConsolePipeline.FrameSkip.Controller
import ConsolePipeline.Mixing.Mixer
import ConsolePipeline.Playback.Ring
import ConsolePipeline.Playback.Strategy
import ConsolePipeline.Timing

namespace ConsolePipeline

open FrameSkip Mixing Playback

/-!
# Configurations

* `Config` — everything that can be chosen about a pipeline.
* `Config.check` — the first reason why a configuration cannot be built, if there is one.
* `ConfigError.message` — that reason in words.
-/

/-- The choices that make up a pipeline. Numbers have the widths of their fields in a configuration
    file, and sums of them wrap accordingly. -/
structure Config where
  region : Region := .ntsc
  /-- 40 cells, 320 pixels wide. -/
  h40 : Bool := true
  /-- Stereo words played in a second. -/
  sampleRate : UInt32 := 53280
  skipPolicy : Selection := .pattern .high
  maxConsecutiveSkips : UInt32 := 4
  strategy : Strategy := .ring
  pacing : Pacing := .lockstep
  /-- Transfer channels; strategies with one channel use the first. -/
  channels : UInt64 × UInt64 := (2, 3)
  mixer : MixerConfig := {}
  ring : RingConfig := {}
  /-- The audio controls at the start. -/
  audio : Controls := {}
  /-- Frames of a profile; 0 switches profiles off. -/
  profileInterval : UInt32 := 300
  deriving DecidableEq, Repr, Inhabited

/-- Why a configuration cannot be built. -/
inductive ConfigError
  | emptyFrame
  | frameTooLarge (frame : UInt64)
  | sampleRate
  | fadePole (pole : UInt32)
  | volume (volume : UInt8)
  | noSuchChannel (channel : UInt64)
  | sharedChannel
  | ringNotPowerOfTwo (size : UInt64)
  | ringTooSmall (size frame margin : UInt64)
  deriving DecidableEq, Repr, Inhabited

def ConfigError.message : ConfigError → String
  | emptyFrame => "samples per frame must be non-zero"
  | frameTooLarge n => s!"{n} samples per frame exceeds chip buffer capacity {Sound.bufferCapacity}"
  | sampleRate => "sample rate must be non-zero"
  | fadePole n => s!"fade pole {n} must be between 1 and 256"
  | volume n => s!"volume {n} is outside 0..=128"
  | noSuchChannel n => s!"DMA channel {n} does not exist"
  | sharedChannel => "chained playback needs two distinct DMA channels"
  | ringNotPowerOfTwo n => s!"ring size {n} is not a power of two"
  | ringTooSmall size frame margin =>
    s!"ring of {size} words cannot hold two {frame}-word frames plus {margin} margin"

/-- Whether a number has exactly one bit set. -/
def isPowerOfTwo (n : UInt64) : Bool :=
  n != 0 && n &&& (n - 1) == 0

namespace Config

/-- Words of a mixed frame. -/
def frameLength (c : Config) : Nat :=
  c.mixer.samplesPerFrame.toNat

/-- Check the frame and the numbers that every strategy uses. -/
def checkAudio (c : Config) : Except ConfigError Unit :=
  if c.mixer.samplesPerFrame = 0 then throw .emptyFrame
  else if Sound.bufferCapacity < c.frameLength then throw (.frameTooLarge c.mixer.samplesPerFrame)
  else if c.sampleRate = 0 then throw .sampleRate
  else if c.mixer.fadePole = 0 ∨ 256 < c.mixer.fadePole then throw (.fadePole c.mixer.fadePole)
  else if unityVolume < c.audio.volume then throw (.volume c.audio.volume)
  else pure ()

/-- Check the channels. -/
def checkChannels (c : Config) : Except ConfigError Unit :=
  if channelCount ≤ c.channels.1.toNat then throw (.noSuchChannel c.channels.1)
  else if channelCount ≤ c.channels.2.toNat then throw (.noSuchChannel c.channels.2)
  else if c.strategy = .chained ∧ c.channels.1 = c.channels.2 then throw .sharedChannel
  else pure ()

/-- Check the ring, which must hold two frames and its margin; other strategies need none. -/
def checkRing (c : Config) : Except ConfigError Unit :=
  let frame := c.mixer.samplesPerFrame
  if c.strategy ≠ .ring then pure ()
  else if !isPowerOfTwo c.ring.size then throw (.ringNotPowerOfTwo c.ring.size)
  else if c.ring.size < 2 * frame + c.ring.margin then
    throw (.ringTooSmall c.ring.size frame c.ring.margin)
  else pure ()

/-- Find the first reason why a pipeline cannot be built. -/
def check (c : Config) : Except ConfigError Unit := do
  c.checkAudio
  c.checkChannels
  c.checkRing

end Config

end ConsolePipeline
