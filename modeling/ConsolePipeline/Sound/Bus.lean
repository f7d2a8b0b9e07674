import ConsolePipeline.Sound.Chip
import ConsolePipeline.Sound.FrameAudio

namespace ConsolePipeline.Sound

/-!
# The sound bus

Both processors reach both chips through one bus, which also holds the buffers that the chips write
during the current frame.
-/

/-- The two chips and the buffers they write. -/
structure Bus where
  fm : Chip
  psg : Chip
  buffers : Buffers := .empty
  deriving DecidableEq, Inhabited

namespace Bus

/-- Register write to the FM chip at a cycle of the frame. -/
def writeFm : Bus → UInt8 → Nat → Bus
  | ⟨fm, psg, ⟨fmOut, psgOut⟩⟩, value, cycle =>
    match fm.writeAt value cycle fmOut with
    | (fm, fmOut) => ⟨fm, psg, ⟨fmOut, psgOut⟩⟩

/-- Port write to the PSG at a cycle of the frame. -/
def writePsg : Bus → UInt8 → Nat → Bus
  | ⟨fm, psg, ⟨fmOut, psgOut⟩⟩, value, cycle =>
    match psg.writeAt value cycle psgOut with
    | (psg, psgOut) => ⟨fm, psg, ⟨fmOut, psgOut⟩⟩

/-- Begin a frame on both chips, with empty buffers. -/
def beginFrame (b : Bus) : Bus :=
  ⟨b.fm.beginFrame, b.psg.beginFrame, ⟨b.buffers.fm.clear, b.buffers.psg.clear⟩⟩

/-- Run both chips to a cycle, which leaves the rest of the frame's samples. -/
def flush : Bus → Nat → Bus
  | ⟨fm, psg, ⟨fmOut, psgOut⟩⟩, target =>
    match fm.runTo target fmOut with
    | (fm, fmOut) => match psg.runTo target psgOut with
      | (psg, psgOut) => ⟨fm, psg, ⟨fmOut, psgOut⟩⟩

/-- The counts that the chips report. -/
def sampleCounts (b : Bus) : Int × Int :=
  (b.fm.sampleCount, b.psg.sampleCount)

/-- The filled buffers, and the bus with fresh ones in their place. -/
def swapBuffers (b : Bus) (fresh : Buffers) : Buffers × Bus :=
  (b.buffers, { b with buffers := fresh })

/-- Both chips at power-on, both buffers rewound. -/
def reset (b : Bus) : Bus :=
  ⟨b.fm.reset, b.psg.reset, ⟨b.buffers.fm.clear, b.buffers.psg.clear⟩⟩

end Bus

end ConsolePipeline.Sound
