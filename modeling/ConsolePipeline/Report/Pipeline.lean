import ConsolePipeline.Machine.Pipeline
import ConsolePipeline.Report.Counters

namespace ConsolePipeline

open Json Machine

/-!
# Reports as JSON

What one frame did, and the counters of a whole pipeline.
-/

def Video.Mode.toValue (m : Mode) : Value :=
  .record
    [("timing", .ofString m.region.name),
     ("lines_per_frame", .ofNat m.linesPerFrame),
     ("width", .ofNat m.width),
     ("height", .ofNat m.height),
     ("budget_us", .ofNat m.budgetUs)]

namespace Machine

def AudioStats.toValue (s : AudioStats) : Value :=
  .record
    [("frames_mixed", .ofNat s.framesMixed),
     ("last_frame", .ofOption .ofNat s.lastFrame),
     ("sequence_gaps", .ofNat s.sequenceGaps)]

def PipelineStats.toValue (s : PipelineStats) : Value :=
  .record
    [("frames", .ofNat s.frames),
     ("skip_policy", .ofString s.skipPolicy),
     ("skip", s.skip.toValue),
     ("skip_state", s.skipState.toValue),
     ("frames_published", .ofNat s.framesPublished),
     ("audio", s.audio.toValue),
     ("mixer", s.mixer.toValue),
     ("buffers", s.buffers.toValue),
     ("last_profile", .ofOption FrameProfile.toValue s.lastProfile)]

def FrameReport.toValue (r : FrameReport) : Value :=
  .record
    [("frame", .ofNat r.frame),
     ("mode", r.mode.toValue),
     ("mode_changed", .bool r.modeChanged),
     ("decision", r.decision.toValue),
     ("times", r.times.toValue),
     ("backlog_us", .ofNat r.backlogUs.toNat),
     ("samples", .array [.ofInt r.samples.1, .ofInt r.samples.2]),
     ("line_interrupts", .ofNat r.lineInterrupts),
     ("vblank_raised", .bool r.vblankRaised)]

end Machine

end ConsolePipeline
