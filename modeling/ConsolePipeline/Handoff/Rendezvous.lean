import ConsolePipeline.Fault

namespace ConsolePipeline.Handoff

/-!
# The rendezvous

One value at a time goes from a publisher to a consumer, and one at a time comes back. Each way has
a slot and a flag: whoever fills the slot raises the flag after, and whoever empties it lowers the
flag after.

* `Rendezvous.publish`, `tryConsume` — the way there.
* `Rendezvous.acknowledge`, `tryReclaim` — the way back.

An operation that would wait for the other side stops as stalled.
-/

/-- Two slots with their flags. -/
structure Rendezvous (α : Type) where
  /-- The value on its way to the consumer. -/
  frame : Option α := none
  /-- The value on its way back. -/
  returned : Option α := none
  frameReady : Bool := false
  audioDone : Bool := false
  deriving Inhabited

namespace Rendezvous

variable {α : Type}

/-- Put a value down for the consumer, whose last one must be gone. -/
def publish (value : α) : Run (Rendezvous α) Unit := fun r =>
  if r.frameReady then .error .stalled r
  else .ok () { r with frame := some value, frameReady := true }

/-- Take the published value, if there is one. -/
def tryConsume (r : Rendezvous α) : Option α × Rendezvous α :=
  if r.frameReady then
    (r.frame, { r with frame := none, frameReady := false })
  else
    (none, r)

/-- Put a value down for the publisher, whose last one must be gone. -/
def acknowledge (value : α) : Run (Rendezvous α) Unit := fun r =>
  if r.audioDone then .error .stalled r
  else .ok () { r with returned := some value, audioDone := true }

/-- Take the returned value, if there is one. -/
def tryReclaim (r : Rendezvous α) : Option α × Rendezvous α :=
  if r.audioDone then
    (r.returned, { r with returned := none, audioDone := false })
  else
    (none, r)

/-- Wait for what an attempt gives. -/
def await (attempt : Rendezvous α → Option α × Rendezvous α) : Run (Rendezvous α) α := fun r =>
  match attempt r with
  | (some value, r) => .ok value r
  | (none, r) => .error .stalled r

/-- Wait for a published value. -/
def waitFrame : Run (Rendezvous α) α :=
  await tryConsume

/-- Wait for a returned value. -/
def waitAcknowledged : Run (Rendezvous α) α :=
  await tryReclaim

end Rendezvous

end ConsolePipeline.Handoff
