import ConsolePipeline.Fault

namespace ConsolePipeline.FrameSkip

/-!
# Skipping by backlog

The adaptive policy tracks how far emulation is behind real time, the backlog, and an average of
what a render costs. It skips while the backlog is large compared with one render.

* `Adaptive.wantsRender` — the choice.
* `Adaptive.protects` — the guard against always skipping the same field of a flicker effect.
* `Adaptive.decided`, `rendered`, `frameEnd` — how the state follows what happens.
* `Adaptive.endFrame` — `frameEnd` with the fault that an excessive bound is.
-/

/-- Times are in microseconds and fit 32 bits. -/
structure State where
  /-- Frames skipped since the last rendered one. -/
  consecutiveSkipped : Nat := 0
  /-- How far emulation is behind. -/
  backlogUs : UInt32 := 0
  /-- Running average of the cost of a render; 0 before the first measurement. -/
  renderCostUs : UInt32 := 0
  deriving DecidableEq, Repr, Inhabited

/-- The timing of one finished frame. -/
structure Timing where
  /-- From the start of the frame to just before the wait for the audio side. -/
  workUs : UInt32
  audioWaitUs : UInt32
  budgetUs : UInt32
  deriving DecidableEq, Repr, Inhabited

/-- Guard against skipping one field of a flicker effect. -/
inductive Parity
  | off
  /-- After two renders in a row of the same parity, the next frame of the other is rendered. -/
  | weak
  /-- A frame of the other parity than the last render is never skipped. -/
  | strong
  deriving DecidableEq, Repr, Inhabited

namespace Parity

def all : List Parity :=
  [off, weak, strong]

/-- The name in configurations. -/
def name : Parity → String
  | off => "off"
  | weak => "weak"
  | strong => "strong"

end Parity

/-- Tuning of the adaptive policy. -/
structure Tuning where
  /-- Cost assumed before the first render was measured. -/
  defaultRenderCostUs : UInt32 := 4000
  /-- A frame is skipped from a backlog of this fraction of a render on. -/
  thresholdDivisor : UInt32 := 4
  /-- Backlog paid down by a skipped frame, as a fraction of a render. -/
  paydownNum : UInt32 := 3
  paydownDen : UInt32 := 2
  /-- The backlog is held to so many frame budgets. -/
  maxBacklogFrames : UInt32 := 8
  /-- A longer wait for the audio side means that emulation is ahead. -/
  audioWaitResetUs : UInt32 := 500
  parity : Parity := .off
  deriving DecidableEq, Repr, Inhabited

/-- The adaptive policy with what it remembers of past renders. -/
structure Adaptive where
  tuning : Tuning
  /-- Parity of the last rendered frame's number. -/
  lastParity : Option Nat := none
  /-- Further renders of that parity in a row. -/
  sameParity : Nat := 0
  deriving DecidableEq, Repr, Inhabited

namespace Adaptive

/-- What a render is taken to cost. -/
def estimate (a : Adaptive) (s : State) : Nat :=
  if 0 < s.renderCostUs then s.renderCostUs.toNat else a.tuning.defaultRenderCostUs.toNat

/-- The backlog from which on frames are skipped. -/
def threshold (a : Adaptive) (s : State) : Nat :=
  a.estimate s / max a.tuning.thresholdDivisor.toNat 1

/-- Render, unless there is a backlog that reaches the threshold. -/
def wantsRender (a : Adaptive) (s : State) : Bool :=
  !(0 < a.estimate s && 0 < s.backlogUs && a.threshold s ≤ s.backlogUs.toNat)

/-- Whether parity protection renders a frame that would be skipped. -/
def protects (a : Adaptive) (frame : Nat) : Bool :=
  match a.lastParity with
  | none => false
  | some last =>
    let opposite := frame % 2 != last
    match a.tuning.parity with
    | .off => false
    | .strong => opposite
    | .weak => opposite && 1 ≤ a.sameParity

/-- Backlog that a skipped frame pays down. -/
def paydown (a : Adaptive) (s : State) : Nat :=
  a.estimate s * a.tuning.paydownNum.toNat / max a.tuning.paydownDen.toNat 1

/-- The choice for a frame is final. -/
def decided (a : Adaptive) (frame : Nat) (render : Bool) (s : State) : Adaptive × State :=
  if render then
    let parity := frame % 2
    let same := if a.lastParity = some parity then a.sameParity + 1 else 0
    ({ a with lastParity := some parity, sameParity := same }, s)
  else
    (a, { s with backlogUs := UInt32.ofNat (s.backlogUs.toNat - a.paydown s) })

/-- Take a measured render into the average. A reading of 0 is a missing measurement. -/
def rendered (us : UInt32) (s : State) : State :=
  if us = 0 then s
  else if s.renderCostUs = 0 then { s with renderCostUs := us }
  else { s with renderCostUs := UInt32.ofNat ((s.renderCostUs.toNat * 7 + us.toNat) / 8) }

/-- The most backlog that a frame may leave. -/
def backlogBound (a : Adaptive) (t : Timing) : Nat :=
  t.budgetUs.toNat * a.tuning.maxBacklogFrames.toNat

/-- Take a finished frame into the backlog, which keeps the low 32 bits. -/
def frameEnd (a : Adaptive) (t : Timing) (s : State) : State :=
  if a.tuning.audioWaitResetUs < t.audioWaitUs then
    { s with backlogUs := 0 }
  else
    let owed := s.backlogUs.toNat + t.workUs.toNat - t.budgetUs.toNat
    { s with backlogUs := UInt32.ofNat (min owed (a.backlogBound t)) }

/-- **Take a finished frame into the backlog,** if the bound on the backlog can be had: a bound that
    63 bits do not hold is a fault. It is not asked for if emulation is ahead. -/
def endFrame (a : Adaptive) (t : Timing) : Run State Unit := do
  if a.tuning.audioWaitResetUs < t.audioWaitUs ∨ a.backlogBound t < 1 <<< 63 then
    modify (a.frameEnd t)
  else
    throw .overflow

/-- Forget past renders. -/
def reset (a : Adaptive) : Adaptive :=
  { a with lastParity := none, sameParity := 0 }

end Adaptive

end ConsolePipeline.FrameSkip
