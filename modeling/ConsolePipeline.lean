import ConsolePipeline.CommandLine.Shell
import ConsolePipeline.Main
import ConsolePipeline.Proofs.Playback.Double.Law
import ConsolePipeline.Proofs.Playback.Triple.Law
import ConsolePipeline.Proofs.Playback.Ring.Law
import ConsolePipeline.Proofs.Playback.Chained.Law
import ConsolePipeline.Proofs.Playback.Lockstep.Double
import ConsolePipeline.Proofs.Playback.Lockstep.Chained
import ConsolePipeline.Proofs.Playback.Lockstep.Ring
import ConsolePipeline.Proofs.Playback.Lockstep.Triple
import ConsolePipeline.Proofs.Config
import ConsolePipeline.Proofs.Machine.Lockstep
import ConsolePipeline.Proofs.Machine.RingLimits
import ConsolePipeline.Proofs.Machine.Threads.Law
import ConsolePipeline.Proofs.Playback.Interrupted.Player
import ConsolePipeline.Proofs.Handoff.Safety
import ConsolePipeline.Proofs.Bench.Skipping
import ConsolePipeline.Proofs.Bench.FreshStart
import ConsolePipeline.Proofs.Machine.Counters
import ConsolePipeline.Proofs.FrameSkip.Tally
import ConsolePipeline.Proofs.Sound.FullFrame
import ConsolePipeline.Proofs.Config.Saved
import ConsolePipeline.Proofs.Playback.Chained.Release
import ConsolePipeline.Proofs.Playback.Flow.Player
import ConsolePipeline.Proofs.Playback.Fed.Player
import ConsolePipeline.Proofs.Config.Edited
import ConsolePipeline.Proofs.Mixing.Crossfade
import ConsolePipeline.Proofs.Mixing.Untrusted
import ConsolePipeline.Proofs.Mixing.Concealed
import ConsolePipeline.Proofs.Machine.Interrupts
import ConsolePipeline.Proofs.FrameSkip.Backlog
import ConsolePipeline.Proofs.FrameSkip.Fields
import ConsolePipeline.Proofs.FrameSkip.Periods
import ConsolePipeline.Proofs.Machine.Geometry
import ConsolePipeline.Proofs.FrameSkip.Average
import ConsolePipeline.Proofs.Sound.Bounds
import ConsolePipeline.Proofs.Bench.Accounts
import ConsolePipeline.Proofs.Sound.Pitch
import ConsolePipeline.Proofs.Machine.Construction
import ConsolePipeline.Proofs.Log.HeldBack
import ConsolePipeline.Proofs.Blind
import ConsolePipeline.Proofs.Playback.Unlogged
import ConsolePipeline.Proofs.Playback.Stray
import ConsolePipeline.Proofs.Playback.Exact
import ConsolePipeline.Proofs.Profile
