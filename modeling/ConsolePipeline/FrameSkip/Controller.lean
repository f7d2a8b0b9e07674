import ConsolePipeline.FrameSkip.Adaptive
import ConsolePipeline.FrameSkip.Pattern
import ConsolePipeline.Log.Entry

namespace ConsolePipeline.FrameSkip

/-!
# The render or skip decision

Emulation always runs; only drawing a frame is optional. The controller wraps a policy with the
rules that hold for every policy: a cap on skips in a row, and a forced render whenever the frame
loop asks for one.

* `Selection` — the policies one can choose.
* `Policy` — a policy at work.
* `Controller.decide` — the decision for one frame.
-/

/-- A policy as it is chosen. -/
inductive Selection
  | pattern (level : Level)
  | adaptive (tuning : Tuning)
  deriving DecidableEq, Repr

instance : Inhabited Selection := ⟨.pattern .high⟩

/-- A policy at work. -/
inductive Policy
  | pattern (level : Level)
  | adaptive (a : Adaptive)
  deriving DecidableEq, Repr, Inhabited

/-- A chosen policy before its first frame. -/
def Selection.start : Selection → Policy
  | pattern level => .pattern level
  | adaptive tuning => .adaptive { tuning }

namespace Policy

/-- The policy's first opinion on a frame. -/
def wantsRender (p : Policy) (frame : Nat) (s : State) : Bool :=
  match p with
  | pattern level => level.renders frame
  | adaptive a => a.wantsRender s

/-- Whether the policy overrides a skip of its own. -/
def protects (p : Policy) (frame : Nat) : Bool :=
  match p with
  | pattern _ => false
  | adaptive a => a.protects frame

/-- The choice for a frame is final. -/
def decided (p : Policy) (frame : Nat) (render : Bool) (s : State) : Policy × State :=
  match p with
  | pattern level => (pattern level, s)
  | adaptive a =>
    let (a, s) := a.decided frame render s
    (adaptive a, s)

/-- A render was measured. -/
def rendered (p : Policy) (us : UInt32) (s : State) : State :=
  match p with
  | pattern _ => s
  | adaptive _ => Adaptive.rendered us s

/-- A frame is over. -/
def frameEnd (p : Policy) (t : Timing) (s : State) : State :=
  match p with
  | pattern _ => s
  | adaptive a => a.frameEnd t s

/-- A frame is over, which can be a fault: see `Adaptive.endFrame`. -/
def endFrame (p : Policy) (t : Timing) : Run State Unit :=
  match p with
  | pattern _ => return
  | adaptive a => a.endFrame t

/-- Forget the frames so far. -/
def reset : Policy → Policy
  | pattern level => pattern level
  | adaptive a => adaptive a.reset

/-- The name in configurations and reports. -/
def name : Policy → String
  | pattern _ => "pattern"
  | adaptive _ => "adaptive"

end Policy

/-- Why a frame was rendered or skipped. -/
inductive Reason
  | policy | consecutiveLimit | parity | forced
  deriving DecidableEq, Repr, Inhabited

def Reason.name : Reason → String
  | policy => "Policy"
  | consecutiveLimit => "ConsecutiveLimit"
  | parity => "Parity"
  | forced => "Forced"

/-- The decision on one frame. -/
structure Decision where
  render : Bool
  reason : Reason
  deriving DecidableEq, Repr, Inhabited

/-- Counters of a controller. -/
structure Stats where
  rendered : Nat := 0
  skipped : Nat := 0
  /-- Decisions that had to render, whatever the policy wanted. -/
  forced : Nat := 0
  /-- Renders because of the cap. -/
  limitRenders : Nat := 0
  longestSkipRun : Nat := 0
  deriving DecidableEq, Repr, Inhabited

/-- A policy and the rules that hold for every policy. -/
structure Controller where
  policy : Policy
  state : State := {}
  /-- The most frames skipped in a row. -/
  maxConsecutive : Nat
  stats : Stats := {}
  deriving DecidableEq, Repr, Inhabited

namespace Controller

/-- A controller for a chosen policy. -/
def new (selection : Selection) (maxConsecutive : Nat) : Controller :=
  { policy := selection.start, maxConsecutive }

/-- The decision on a frame: the policy's wish, then the cap, then the policy's protection, then
    force. -/
def choose (c : Controller) (frame : Nat) (force : Bool) : Decision :=
  if c.policy.wantsRender frame c.state then ⟨true, .policy⟩
  else if c.maxConsecutive ≤ c.state.consecutiveSkipped then ⟨true, .consecutiveLimit⟩
  else if c.policy.protects frame then ⟨true, .parity⟩
  else if force then ⟨true, .forced⟩
  else ⟨false, .policy⟩

/-- Count a decision. -/
def count (s : Stats) (d : Decision) (force : Bool) (skipRun : Nat) : Stats where
  rendered := s.rendered + if d.render then 1 else 0
  skipped := s.skipped + if d.render then 0 else 1
  forced := s.forced + if force then 1 else 0
  limitRenders := s.limitRenders + if d.reason = .consecutiveLimit then 1 else 0
  longestSkipRun := max s.longestSkipRun skipRun

/-- Decide on a frame and take the decision into account. -/
def decide (c : Controller) (frame : Nat) (force : Bool) : Decision × Controller :=
  let d := c.choose frame force
  let (policy, state) := c.policy.decided frame d.render c.state
  let skipRun := if d.render then 0 else state.consecutiveSkipped + 1
  (d, { c with
    policy
    state := { state with consecutiveSkipped := skipRun }
    stats := count c.stats d force skipRun })

/-- The log entry about a decision, which shows the state that it left. -/
def decisionEntry (c : Controller) (frame : Nat) (d : Decision) : Log.Entry :=
  let verb := if d.render then "render" else "skip"
  ⟨.frameSkip, .trace, s!"frame {frame} {verb} ({d.reason.name}) backlog={c.state.backlogUs}us " ++
    s!"ema={c.state.renderCostUs}us"⟩

/-- Take a measured render into account. -/
def recordRender (c : Controller) (us : UInt32) : Controller :=
  { c with state := c.policy.rendered us c.state }

/-- Take a finished frame into account. -/
def finishFrame (c : Controller) (t : Timing) : Controller :=
  { c with state := c.policy.frameEnd t c.state }

/-- Run a computation on the state. -/
def onState {α : Type} : Run State α → Run Controller α :=
  Run.within fun c => (c.state, fun state => { c with state })

/-- Take a finished frame into account, which can be a fault. With a budget of less than `2 ^ 31` it
    is none, and comes to `finishFrame`. -/
def endFrame (t : Timing) : Run Controller Unit := do
  onState ((← get).policy.endFrame t)

/-- Counters, backlog and the policy's memory start over. -/
def reset (c : Controller) : Controller :=
  { c with policy := c.policy.reset, state := {}, stats := {} }

/-- Go on with another policy; everything starts over. -/
def setPolicy (c : Controller) (selection : Selection) : Controller :=
  { c with policy := selection.start }.reset

end Controller

end ConsolePipeline.FrameSkip
