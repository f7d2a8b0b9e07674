import ConsolePipeline.Clock
import ConsolePipeline.Handoff.Rendezvous
import ConsolePipeline.Log.Entry
import ConsolePipeline.Sound.Bus

namespace ConsolePipeline.Handoff

open Sound

/-!
# Handing frames over

The emulation side sends one frame's chip buffers at a time. It gets the buffers for the next frame
from the frame that comes back, so that two pairs of buffers serve a whole run.

* `Outlet.freshBuffers` — the buffers for the next frame, waiting for them if need be.
* `Outlet.load` — the frame on the bus, which goes on with fresh buffers.
* `Outlet.ship` — a frame sent off.
* `Outlet.publish` — all three, one after the other.
* `Outlet.drain` — wait until nothing is under way.
-/

/-- The place where frames change hands. -/
abbrev Exchange := Rendezvous FrameAudio

/-- What the emulation side keeps about its frames. -/
structure Sender where
  /-- Buffers at hand while no frame is under way. -/
  spare : Option Buffers := some .empty
  /-- Whether a frame was sent that has not come back. -/
  inFlight : Bool := false
  /-- Frames sent. -/
  published : Nat := 0
  deriving Inhabited

/-- The emulation side's end: the bus that holds a frame, and the way that the frame takes. -/
structure Outlet where
  bus : Bus
  sender : Sender := {}
  exchange : Exchange := {}
  deriving Inhabited

/-- The log entry about a frame handed over after a wait. -/
def publishedEntry (a : FrameAudio) (waitUs : UInt32) : Log.Entry :=
  ⟨.handoff, .trace,
    s!"frame {a.frame} published fm={a.fmCount} psg={a.psgCount} wait={waitUs}us"⟩

namespace Outlet

/-- Run a computation on the exchange. -/
def onExchange {α : Type} : Run Exchange α → Run Outlet α :=
  Run.within fun ⟨bus, sender, exchange⟩ => (exchange, fun exchange => ⟨bus, sender, exchange⟩)

/-- Change what is kept about frames. -/
def mapSender (f : Sender → Sender) : Outlet → Outlet
  | ⟨bus, sender, exchange⟩ => ⟨bus, f sender, exchange⟩

/-- Wait for the frame that is under way and take its buffers. -/
def reclaim : Run Outlet Buffers :=
  return (← onExchange Rendezvous.waitAcknowledged).buffers

/-- The buffers for the next frame: those that come back, or the ones at hand. -/
def freshBuffers : Run Outlet Buffers := do
  let sender := (← get).sender
  if sender.inFlight then reclaim
  else
    modify (mapSender fun s => { s with spare := none })
    return sender.spare.getD .empty

/-- Take the frame that the bus holds; the bus goes on with fresh buffers. -/
def load (frame : Nat) (fresh : Buffers) : Outlet → FrameAudio × Outlet
  | ⟨bus, sender, exchange⟩ =>
    let (fmCount, psgCount) := bus.sampleCounts
    match bus.swapBuffers fresh with
    | (filled, bus) =>
      (⟨frame, some filled.fm, some filled.psg, fmCount, psgCount⟩, ⟨bus, sender, exchange⟩)

/-- Send a frame off. Waiting takes no modelled time, so the entry is about a wait of 0. -/
def ship (a : FrameAudio) : Run Outlet Log.Entry := do
  let entry := publishedEntry a 0
  onExchange (Rendezvous.publish a)
  modify (mapSender fun s => { s with inFlight := true, published := s.published + 1 })
  return entry

/-- **Hand a frame over:** the bus gets fresh buffers, the filled ones are sent. -/
def publish (frame : Nat) : Run Outlet Log.Entry := do
  let fresh ← freshBuffers
  let a ← modifyGet (load frame fresh)
  ship a

/-- Wait until the frame under way is back; its buffers stay at hand. -/
def drain : Run Outlet Unit := do
  if (← get).sender.inFlight then
    let buffers ← reclaim
    modify (mapSender fun s => { s with spare := some buffers, inFlight := false })

end Outlet

end ConsolePipeline.Handoff
