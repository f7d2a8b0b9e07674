import ConsolePipeline.Log.Entry

namespace ConsolePipeline

/-!
# Profiles

Where the time of frames goes, added up over an interval of frames.

* `FrameProfile.record` — one frame more.
* `Profiler.onFrame` — a profile is published at the end of each interval.
-/

/-- Where one frame's time went, in microseconds. -/
structure PhaseTimes where
  m68kUs : UInt32 := 0
  z80Us : UInt32 := 0
  soundUs : UInt32 := 0
  renderUs : UInt32 := 0
  audioWaitUs : UInt32 := 0
  frameUs : UInt32 := 0
  deriving DecidableEq, Repr, Inhabited

/-- A frame that took longer is slow. -/
def slowFrameUs : UInt32 := 17000

/-- A frame that took less is fast. -/
def fastFrameUs : UInt32 := 16000

/-- Times added up over frames. -/
structure FrameProfile where
  frames : Nat := 0
  rendered : Nat := 0
  m68kUs : Nat := 0
  z80Us : Nat := 0
  soundUs : Nat := 0
  renderUs : Nat := 0
  audioWaitUs : Nat := 0
  frameUs : Nat := 0
  /-- Of no frame at all, the largest 32-bit number. -/
  minFrameUs : UInt32 := 4294967295
  maxFrameUs : UInt32 := 0
  slowFrames : Nat := 0
  fastFrames : Nat := 0
  deriving DecidableEq, Repr, Inhabited

namespace FrameProfile

/-- Take one more frame into a profile. -/
def record (p : FrameProfile) (t : PhaseTimes) (rendered : Bool) : FrameProfile where
  frames := p.frames + 1
  rendered := p.rendered + if rendered then 1 else 0
  m68kUs := p.m68kUs + t.m68kUs.toNat
  z80Us := p.z80Us + t.z80Us.toNat
  soundUs := p.soundUs + t.soundUs.toNat
  renderUs := p.renderUs + t.renderUs.toNat
  audioWaitUs := p.audioWaitUs + t.audioWaitUs.toNat
  frameUs := p.frameUs + t.frameUs.toNat
  minFrameUs := min p.minFrameUs t.frameUs
  maxFrameUs := max p.maxFrameUs t.frameUs
  slowFrames := p.slowFrames + if slowFrameUs < t.frameUs then 1 else 0
  fastFrames := p.fastFrames + if t.frameUs < fastFrameUs then 1 else 0

/-- The share of one frame in a total, rounded down. -/
def average (p : FrameProfile) (total : Nat) : Nat :=
  total / max p.frames 1

/-- The profile in one line. -/
def summary (p : FrameProfile) : String :=
  let least := if p.frames = 0 then 0 else p.minFrameUs
  s!"{p.frames} frames ({p.rendered} rendered) avg us: m68k={p.average p.m68kUs} " ++
    s!"z80={p.average p.z80Us} sound={p.average p.soundUs} render={p.average p.renderUs} " ++
    s!"wait={p.average p.audioWaitUs} frame={p.average p.frameUs} " ++
    s!"[min={least} max={p.maxFrameUs}] slow={p.slowFrames} fast={p.fastFrames}"

/-- The log entry that publishes a profile. -/
def entry (p : FrameProfile) : Log.Entry :=
  ⟨.profile, .info, p.summary⟩

end FrameProfile

/-- Adds frames up and publishes a profile every `interval` of them; never, if that is 0. -/
structure Profiler where
  interval : Nat
  current : FrameProfile := {}
  /-- The profile of the last complete interval. -/
  last : Option FrameProfile := none
  deriving DecidableEq, Repr, Inhabited

namespace Profiler

/-- Take one more frame into account; the answer is the profile that it completes. -/
def onFrame (p : Profiler) (t : PhaseTimes) (rendered : Bool) : Option FrameProfile × Profiler :=
  if p.interval = 0 then (none, p)
  else
    let current := p.current.record t rendered
    if current.frames < p.interval then (none, { p with current })
    else (some current, { p with current := {}, last := some current })

/-- Start over. -/
def reset (p : Profiler) : Profiler :=
  { p with current := {}, last := none }

end Profiler

end ConsolePipeline
