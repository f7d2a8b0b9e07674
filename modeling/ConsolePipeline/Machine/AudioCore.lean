import ConsolePipeline.Handoff.Outlet
import ConsolePipeline.Mixing.Desk

namespace ConsolePipeline.Machine

open Handoff Mixing Playback Sound

/-!
# The audio side

It takes each frame that was handed over, mixes it into one slot, and hands the chip buffers back.

* `AudioCore.process` — one frame mixed.
* `AudioCore.service` — one frame taken, mixed and handed back, if there is one.
-/

/-- Counters of the audio side. -/
structure AudioStats where
  framesMixed : Nat := 0
  lastFrame : Option Nat := none
  /-- Frames that did not follow the one before. -/
  sequenceGaps : Nat := 0
  deriving DecidableEq, Repr, Inhabited

/-- The audio side. An observer with state of type `κ` looks at each frame before it is mixed. -/
structure AudioCore (κ : Type) where
  desk : Desk
  controls : Controls
  pacing : Pacing
  look : FrameAudio → κ → κ
  seen : κ
  stats : AudioStats := {}

namespace AudioCore

variable {κ : Type}

/-- Run a computation on the desk. -/
def onDesk {α : Type} : Run Desk α → Run (AudioCore κ) α :=
  Run.within fun ⟨desk, controls, pacing, look, seen, stats⟩ =>
    (desk, fun desk => ⟨desk, controls, pacing, look, seen, stats⟩)

/-- Change the counters. -/
def mapStats (f : AudioStats → AudioStats) : AudioCore κ → AudioCore κ
  | ⟨desk, controls, pacing, look, seen, stats⟩ => ⟨desk, controls, pacing, look, seen, f stats⟩

/-- Change the audio controls. -/
def mapControls (f : Controls → Controls) : AudioCore κ → AudioCore κ
  | ⟨desk, controls, pacing, look, seen, stats⟩ => ⟨desk, f controls, pacing, look, seen, stats⟩

/-- Let the observer look at a frame. -/
def observe (a : FrameAudio) : AudioCore κ → AudioCore κ
  | ⟨desk, controls, pacing, look, seen, stats⟩ =>
    ⟨desk, controls, pacing, look, look a seen, stats⟩

/-- Words of a frame. -/
def frameLength (c : AudioCore κ) : Nat :=
  c.desk.mixer.config.samplesPerFrame.toNat

/-- In lockstep, a frame's worth of hardware time passes with each frame. -/
def keepPace : Run (AudioCore κ) Unit := do
  let length := (← get).frameLength
  if (← get).pacing = .lockstep then
    onDesk (Desk.advance length)

/-- Count a frame that does not follow the last one, and note it. -/
def checkSequence (frame : Nat) : Run (AudioCore κ) Unit := do
  match (← get).stats.lastFrame with
  | some last =>
    if frame ≠ last + 1 then
      modify (mapStats fun s => { s with sequenceGaps := s.sequenceGaps + 1 })
      onDesk (modify (·.note ⟨.handoff, .warn, s!"audio frame {frame} after {last}"⟩))
  | none => return

/-- **Mix one frame.** -/
def process (a : FrameAudio) : Run (AudioCore κ) Unit := do
  keepPace
  checkSequence a.frame
  modify (observe a)
  let controls := (← get).controls
  onDesk do
    Desk.submit (some a) controls
    Desk.service
  modify (mapStats fun s =>
    { s with framesMixed := s.framesMixed + 1, lastFrame := some a.frame })

/-- Run a computation on the audio side alone. -/
def alone {α : Type} : Run (AudioCore κ) α → Run (AudioCore κ × Exchange) α :=
  Run.within fun (c, x) => (c, fun c => (c, x))

/-- Run a computation on the exchange alone. -/
def onExchange {α : Type} : Run Exchange α → Run (AudioCore κ × Exchange) α :=
  Run.within fun (c, x) => (x, fun x => (c, x))

/-- Mix a frame that was taken, and hand it back. -/
def complete (a : FrameAudio) : Run (AudioCore κ × Exchange) Unit := do
  alone (process a)
  onExchange (Rendezvous.acknowledge a)

/-- Mix the frame that was handed over, if there is one; the answer says whether there was. -/
def service : Run (AudioCore κ × Exchange) Bool := do
  match ← onExchange (modifyGet Rendezvous.tryConsume) with
  | some a =>
    complete a
    return true
  | none => return false

/-- Wait for a frame and mix it. -/
def waitAndProcess : Run (AudioCore κ × Exchange) Unit := do
  let a ← onExchange Rendezvous.waitFrame
  complete a

/-- Commit a slot although no frame arrived. -/
def submitGap : Run (AudioCore κ) Unit := do
  keepPace
  let controls := (← get).controls
  onDesk (Desk.submit none controls)

/-- Let the hardware play so many words more. -/
def playOut (words : Nat) : Run (AudioCore κ) Unit :=
  onDesk (Desk.advance words)

/-- Forget the run so far; what plays goes on. -/
def reset : AudioCore κ → AudioCore κ
  | ⟨⟨mixer, player, notices⟩, controls, pacing, look, seen, _⟩ =>
    ⟨⟨mixer.reset, player, notices⟩, controls, pacing, look, seen, {}⟩

/-- Log entries since they were last collected, and the rest. -/
def takeNotices : AudioCore κ → Array Log.Entry × AudioCore κ
  | ⟨⟨mixer, player, notices⟩, controls, pacing, look, seen, stats⟩ =>
    (notices, ⟨⟨mixer, player, #[]⟩, controls, pacing, look, seen, stats⟩)

end AudioCore

end ConsolePipeline.Machine
