import ConsolePipeline.Text.Keyword

namespace ConsolePipeline.Playback

/-!
# Choices of playback

* `Strategy` — how slots are laid out and when channels are started again.
* `Pacing` — how hardware time passes.
-/

/-- A way of keeping the audio output fed. -/
inductive Strategy
  /-- Two slots, one channel started again by the completion handler. -/
  | double
  /-- Two slots on two channels that start each other. -/
  | chained
  /-- One ring that never stops. -/
  | ring
  /-- Three slots in turn; software never waits. -/
  | triple
  deriving DecidableEq, Repr, Inhabited

namespace Strategy

def all : List Strategy :=
  [double, chained, ring, triple]

/-- The name in configurations and reports. -/
def name : Strategy → String
  | double => "double"
  | chained => "chained"
  | ring => "ring"
  | triple => "triple"

/-- The name in log entries. -/
def label : Strategy → String
  | double => "Double"
  | chained => "Chained"
  | ring => "Ring"
  | triple => "Triple"

/-- The strategy that a typed name stands for. -/
def ofText? (s : String) : Option Strategy :=
  match Text.keyword s with
  | "double" => some double
  | "chained" | "pingpong" | "ping-pong" => some chained
  | "ring" => some ring
  | "triple" => some triple
  | _ => none

end Strategy

/-- How hardware time passes. -/
inductive Pacing
  /-- One frame of hardware time for each frame mixed; busy waits advance in small steps. -/
  | lockstep
  /-- By the wall clock. -/
  | realTime
  /-- Only when told to, and in busy waits. -/
  | manual
  deriving DecidableEq, Repr, Inhabited

namespace Pacing

def all : List Pacing :=
  [lockstep, realTime, manual]

/-- The name in configurations. -/
def name : Pacing → String
  | lockstep => "lockstep"
  | realTime => "real_time"
  | manual => "manual"

/-- The name in log entries. -/
def label : Pacing → String
  | lockstep => "Lockstep"
  | realTime => "RealTime"
  | manual => "Manual"

end Pacing

end ConsolePipeline.Playback
