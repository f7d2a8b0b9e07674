import ConsolePipeline.FrameSkip.Controller
import ConsolePipeline.Json.Value
import ConsolePipeline.Mixing.Mixer
import ConsolePipeline.Playback.Deck
import ConsolePipeline.Profile

namespace ConsolePipeline

open Json

/-!
# Counters as JSON

Each part's counters are an object with one member for each of them, in the order of their
declaration.
-/

def FrameSkip.State.toValue (s : State) : Value :=
  .record
    [("consecutive_skipped", .ofNat s.consecutiveSkipped),
     ("backlog_us", .ofNat s.backlogUs.toNat),
     ("render_cost_ema_us", .ofNat s.renderCostUs.toNat)]

def FrameSkip.Stats.toValue (s : Stats) : Value :=
  .record
    [("rendered", .ofNat s.rendered),
     ("skipped", .ofNat s.skipped),
     ("forced", .ofNat s.forced),
     ("limit_renders", .ofNat s.limitRenders),
     ("longest_skip_run", .ofNat s.longestSkipRun)]

def FrameSkip.Decision.toValue (d : Decision) : Value :=
  .record [("render", .bool d.render), ("reason", .ofString d.reason.name)]

def Mixing.MixerStats.toValue (s : MixerStats) : Value :=
  .record
    [("frames", .ofNat s.frames),
     ("faded_frames", .ofNat s.fadedFrames),
     ("missing_frames", .ofNat s.missingFrames),
     ("invalid_counts", .ofNat s.invalidCounts),
     ("short_frames", .ofNat s.shortFrames),
     ("clipped_samples", .ofNat s.clippedSamples)]

def Playback.Stats.toValue (s : Stats) : Value :=
  .record
    [("commits", .ofNat s.commits),
     ("samples_committed", .ofNat s.samplesCommitted),
     ("underruns", .ofNat s.underruns),
     ("overruns", .ofNat s.overruns),
     ("irqs", .ofNat s.irqs),
     ("wait_spins", .ofNat s.waitSpins),
     ("hardware_words", .ofNat s.hardwareWords),
     ("idle_words", .ofNat s.idleWords),
     ("tag_mismatches", .ofNat s.tagMismatches)]

def PhaseTimes.toValue (t : PhaseTimes) : Value :=
  .record
    [("m68k_us", .ofNat t.m68kUs.toNat),
     ("z80_us", .ofNat t.z80Us.toNat),
     ("sound_us", .ofNat t.soundUs.toNat),
     ("render_us", .ofNat t.renderUs.toNat),
     ("audio_wait_us", .ofNat t.audioWaitUs.toNat),
     ("frame_us", .ofNat t.frameUs.toNat)]

def FrameProfile.toValue (p : FrameProfile) : Value :=
  .record
    [("frames", .ofNat p.frames),
     ("rendered", .ofNat p.rendered),
     ("m68k_us", .ofNat p.m68kUs),
     ("z80_us", .ofNat p.z80Us),
     ("sound_us", .ofNat p.soundUs),
     ("render_us", .ofNat p.renderUs),
     ("audio_wait_us", .ofNat p.audioWaitUs),
     ("frame_us", .ofNat p.frameUs),
     ("min_frame_us", .ofNat p.minFrameUs.toNat),
     ("max_frame_us", .ofNat p.maxFrameUs.toNat),
     ("slow_frames", .ofNat p.slowFrames),
     ("fast_frames", .ofNat p.fastFrames)]

end ConsolePipeline
