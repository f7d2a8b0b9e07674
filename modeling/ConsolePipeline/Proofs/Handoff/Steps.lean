import ConsolePipeline.Handoff.Outlet

namespace ConsolePipeline.Handoff

open Sound

/-!
# A handoff, one access at a time

The operations of a handoff are atomic where two sides are run by turns. Two cores run at once, and
then the other side can come in between any two accesses. Here every reading of a flag, every access
to a slot and every writing of a flag is a step of its own.

* `Sending`, `Receiving` — the step that comes next on either side, with what the side holds.
* `Crossing` — the emulation side's end with both of these, and what has passed so far.
* `Crossing.send`, `receive` — the next step of either side; `call` — the emulation side begins one
  of its calls; `Crossing.run` — any sequence of moves, which is any interleaving.
* `Crossing.publish_alone`, `drain_alone`, `tryConsume_alone`, `acknowledge_alone` — without the
  other side, the steps of an operation come to what the operation does.
-/

/-- What the emulation side waits for its buffers for. -/
inductive Purpose where
  /-- To hand over a frame. -/
  | publish (frame : Nat)
  /-- To have nothing under way. -/
  | drain

/-- The next step of the emulation side. -/
inductive Sending where
  /-- None: it works on its frame. -/
  | idle
  /-- Read `audioDone`. -/
  | awaitBack (why : Purpose)
  /-- Empty the slot of the way back, as the flag was up. -/
  | takeBack (why : Purpose)
  /-- Lower `audioDone`. -/
  | lowerDone (why : Purpose) (got : Option FrameAudio)
  /-- Exchange the buffers of the bus for fresh ones. -/
  | swap (frame : Nat) (fresh : Buffers)
  /-- Read `frameReady`. -/
  | awaitFree (a : FrameAudio)
  /-- Fill the slot of the way there, as the flag was down. -/
  | putDown (a : FrameAudio)
  /-- Raise `frameReady`. -/
  | raiseReady

/-- The next step of the audio side. -/
inductive Receiving where
  /-- Read `frameReady`. -/
  | poll
  /-- Empty the slot of the way there, as the flag was up. -/
  | take
  /-- Lower `frameReady`. -/
  | lowerReady (got : Option FrameAudio)
  /-- Read `audioDone`, once the frame is mixed. -/
  | hold (a : FrameAudio)
  /-- Fill the slot of the way back, as the flag was down. -/
  | putBack (a : FrameAudio)
  /-- Raise `audioDone`. -/
  | raiseDone

/-- What has gone into each slot and come out of it. -/
structure Trail where
  sent : List FrameAudio := []
  taken : List FrameAudio := []
  returned : List FrameAudio := []
  reclaimed : List FrameAudio := []

/-- Both sides of a handoff. -/
structure Crossing where
  outlet : Outlet
  sending : Sending := .idle
  receiving : Receiving := .poll
  trail : Trail := {}

/-- What can happen next. -/
inductive Move where
  /-- The emulation side works on its frame. -/
  | work (f : Bus → Bus)
  /-- It begins a call. -/
  | call (why : Purpose)
  /-- It takes its next step. -/
  | send
  /-- The audio side takes its next step. -/
  | receive

namespace Crossing

/-- Nothing has been sent. -/
def start (bus : Bus) : Crossing :=
  { outlet := { bus } }

/-- Work on the frame, between two calls. -/
def work (f : Bus → Bus) : Crossing → Crossing
  | ⟨⟨bus, sender, x⟩, .idle, receiving, trail⟩ => ⟨⟨f bus, sender, x⟩, .idle, receiving, trail⟩
  | c => c

/-- Begin a call: without a frame under way, the buffers at hand are there at once. -/
def call (why : Purpose) : Crossing → Crossing
  | ⟨⟨bus, sender, x⟩, .idle, receiving, trail⟩ =>
    if sender.inFlight then ⟨⟨bus, sender, x⟩, .awaitBack why, receiving, trail⟩
    else match why with
      | .publish frame =>
        ⟨⟨bus, { sender with spare := none }, x⟩, .swap frame (sender.spare.getD .empty), receiving,
          trail⟩
      | .drain => ⟨⟨bus, sender, x⟩, .idle, receiving, trail⟩
  | c => c

/-- The next step of the emulation side. -/
def send : Crossing → Crossing
  | ⟨⟨bus, sender, x⟩, sending, receiving, trail⟩ =>
    match sending with
    | .idle => ⟨⟨bus, sender, x⟩, .idle, receiving, trail⟩
    | .awaitBack why =>
      ⟨⟨bus, sender, x⟩, if x.audioDone then .takeBack why else .awaitBack why, receiving, trail⟩
    | .takeBack why =>
      ⟨⟨bus, sender, { x with returned := none }⟩, .lowerDone why x.returned, receiving,
        { trail with reclaimed := trail.reclaimed ++ x.returned.toList }⟩
    | .lowerDone why none =>
      ⟨⟨bus, sender, { x with audioDone := false }⟩, .awaitBack why, receiving, trail⟩
    | .lowerDone (.publish frame) (some b) =>
      ⟨⟨bus, sender, { x with audioDone := false }⟩, .swap frame b.buffers, receiving, trail⟩
    | .lowerDone .drain (some b) =>
      ⟨⟨bus, { sender with spare := some b.buffers, inFlight := false },
        { x with audioDone := false }⟩, .idle, receiving, trail⟩
    | .swap frame fresh =>
      match Outlet.load frame fresh ⟨bus, sender, x⟩ with
      | (a, outlet) => ⟨outlet, .awaitFree a, receiving, trail⟩
    | .awaitFree a =>
      ⟨⟨bus, sender, x⟩, if x.frameReady then .awaitFree a else .putDown a, receiving, trail⟩
    | .putDown a =>
      ⟨⟨bus, sender, { x with frame := some a }⟩, .raiseReady, receiving,
        { trail with sent := trail.sent ++ [a] }⟩
    | .raiseReady =>
      ⟨⟨bus, { sender with inFlight := true, published := sender.published + 1 },
        { x with frameReady := true }⟩, .idle, receiving, trail⟩

/-- The next step of the audio side. -/
def receive : Crossing → Crossing
  | ⟨⟨bus, sender, x⟩, sending, receiving, trail⟩ =>
    match receiving with
    | .poll => ⟨⟨bus, sender, x⟩, sending, if x.frameReady then .take else .poll, trail⟩
    | .take =>
      ⟨⟨bus, sender, { x with frame := none }⟩, sending, .lowerReady x.frame,
        { trail with taken := trail.taken ++ x.frame.toList }⟩
    | .lowerReady none => ⟨⟨bus, sender, { x with frameReady := false }⟩, sending, .poll, trail⟩
    | .lowerReady (some a) =>
      ⟨⟨bus, sender, { x with frameReady := false }⟩, sending, .hold a, trail⟩
    | .hold a =>
      ⟨⟨bus, sender, x⟩, sending, if x.audioDone then .hold a else .putBack a, trail⟩
    | .putBack a =>
      ⟨⟨bus, sender, { x with returned := some a }⟩, sending, .raiseDone,
        { trail with returned := trail.returned ++ [a] }⟩
    | .raiseDone => ⟨⟨bus, sender, { x with audioDone := true }⟩, sending, .poll, trail⟩

/-- One move. -/
def step (c : Crossing) : Move → Crossing
  | .work f => c.work f
  | .call why => c.call why
  | .send => c.send
  | .receive => c.receive

/-- **A run:** moves one after the other, in whatever order. -/
def run (c : Crossing) (moves : List Move) : Crossing :=
  moves.foldl step c

/-! ### One side on its own -/

/-- The emulation side waits: its next step changes nothing. -/
def Waits (c : Crossing) : Prop :=
  c.sending ≠ .idle ∧ c.send = c

/-- What an operation of the emulation side does alone: it ends in the operation's state, or comes
    to wait there. -/
def Alone {α : Type} (why : Purpose) (c : Crossing) : EStateM.Result Fault Outlet α → Prop
  | .ok _ outlet => ∃ n trail,
    c.run (.call why :: List.replicate n .send) = ⟨outlet, .idle, c.receiving, trail⟩
  | .error _ outlet => ∃ n,
    (c.run (.call why :: List.replicate n .send)).outlet = outlet ∧
      (c.run (.call why :: List.replicate n .send)).Waits

/-- **Without the other side, the steps of a publication come to `Outlet.publish`.** -/
theorem publish_alone (frame : Nat) (outlet : Outlet) (receiving : Receiving) (trail : Trail) :
    Alone (.publish frame) ⟨outlet, .idle, receiving, trail⟩ (Outlet.publish frame outlet) := by
  obtain ⟨bus, ⟨spare, inFlight, published⟩, ⟨there, back, frameReady, audioDone⟩⟩ := outlet
  cases inFlight with
  | false =>
    -- The buffers are at hand; what is left to wait for is the way there.
    cases frameReady with
    | false => exact ⟨4, _, rfl⟩
    | true => exact ⟨1, rfl, nofun, rfl⟩
  | true =>
    cases audioDone with
    | false => exact ⟨0, rfl, nofun, rfl⟩
    | true =>
      cases back with
      | none => exact ⟨3, rfl, nofun, rfl⟩
      | some b =>
        cases frameReady with
        | false => exact ⟨7, _, rfl⟩
        | true => exact ⟨4, rfl, nofun, rfl⟩

/-- **Without the other side, the steps of a drain come to `Outlet.drain`.** -/
theorem drain_alone (outlet : Outlet) (receiving : Receiving) (trail : Trail) :
    Alone .drain ⟨outlet, .idle, receiving, trail⟩ (Outlet.drain outlet) := by
  obtain ⟨bus, ⟨spare, inFlight, published⟩, ⟨there, back, frameReady, audioDone⟩⟩ := outlet
  cases inFlight with
  | false => exact ⟨0, _, rfl⟩
  | true =>
    cases audioDone with
    | false => exact ⟨0, rfl, nofun, rfl⟩
    | true =>
      cases back with
      | none => exact ⟨3, rfl, nofun, rfl⟩
      | some b => exact ⟨3, _, rfl⟩

/-- What the audio side does next with what an attempt has given. -/
def Receiving.after : Option FrameAudio → Receiving
  | some a => .hold a
  | none => .poll

/-- **Without the other side, the steps of an attempt come to `Rendezvous.tryConsume`.** -/
theorem tryConsume_alone (bus : Bus) (sender : Sender) (x : Exchange) (sending : Sending)
    (trail : Trail) : ∃ n trail',
      run ⟨⟨bus, sender, x⟩, sending, .poll, trail⟩ (List.replicate n .receive) =
        ⟨⟨bus, sender, x.tryConsume.2⟩, sending, Receiving.after x.tryConsume.1, trail'⟩ := by
  obtain ⟨there, back, frameReady, audioDone⟩ := x
  cases frameReady with
  | false => exact ⟨1, _, rfl⟩
  | true =>
    cases there with
    | none => exact ⟨3, _, rfl⟩
    | some a => exact ⟨3, _, rfl⟩

/-- **Without the other side, the steps of a return come to `Rendezvous.acknowledge`,** which waits
    for the way back to be free. -/
theorem acknowledge_alone (a : FrameAudio) (bus : Bus) (sender : Sender) (x : Exchange)
    (sending : Sending) (trail : Trail) :
    match Rendezvous.acknowledge a x with
    | .ok _ x' => ∃ n trail',
      run ⟨⟨bus, sender, x⟩, sending, .hold a, trail⟩ (List.replicate n .receive) =
        ⟨⟨bus, sender, x'⟩, sending, .poll, trail'⟩
    | .error _ x' => x' = x ∧
      receive ⟨⟨bus, sender, x⟩, sending, .hold a, trail⟩ =
        ⟨⟨bus, sender, x⟩, sending, .hold a, trail⟩ := by
  obtain ⟨there, back, frameReady, audioDone⟩ := x
  cases audioDone with
  | false => exact ⟨3, _, rfl⟩
  | true => exact ⟨rfl, rfl⟩

end Crossing

end ConsolePipeline.Handoff
