import ConsolePipeline.Sound.Waveform

namespace ConsolePipeline.Sound

/-!
# One frame of chip output

The two chips' buffers travel together, and with them the counts that the chips reported. The counts
are not trusted: a reader holds them against the buffers before it uses them.
-/

/-- The two chips' buffers. -/
structure Buffers where
  fm : SampleBuffer
  psg : SampleBuffer
  deriving DecidableEq

/-- Two empty buffers of the usual capacity. -/
def Buffers.empty : Buffers :=
  ⟨.empty, .empty⟩

instance : Inhabited Buffers := ⟨.empty⟩

/-- What one frame left for the audio side. -/
structure FrameAudio where
  frame : Nat
  fm : Option SampleBuffer
  psg : Option SampleBuffer
  fmCount : Int
  psgCount : Int
  deriving DecidableEq

instance : Inhabited FrameAudio := ⟨0, none, none, 0, 0⟩

namespace FrameAudio

/-- The buffers for reuse; a missing one is replaced. -/
def buffers (a : FrameAudio) : Buffers :=
  ⟨a.fm.getD .empty, a.psg.getD .empty⟩

/-- Whether the sample at the end of a counted buffer is `s`; never for an absent buffer or a count
    below one. -/
def endsWith (s : Int16) (buffer : Option SampleBuffer) (count : Int) : Bool :=
  match buffer with
  | some b => 0 < count && b.storage[count.toNat - 1]? == some s
  | none => false

/-- Whether both chips' samples end with the frame's stamp. -/
def isStamped (a : FrameAudio) : Bool :=
  endsWith (stamp a.frame) a.fm a.fmCount && endsWith (stamp a.frame) a.psg a.psgCount

end FrameAudio

end ConsolePipeline.Sound
