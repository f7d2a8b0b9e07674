import ConsolePipeline.Playback.Deck

namespace ConsolePipeline.Playback

open Stereo

/-!
# Triple buffering

Three slots played in turn from one channel. While slot `p` plays, slot `p + 1` is queued and
software writes slot `p + 2`, so it never waits: when it runs ahead it overwrites its own frame, and
that is counted. The first frame is copied into all three slots, so playback starts at once.
-/

/-- Three slots on one channel. -/
structure Triple extends Deck where
  slots : Slots
  channel : ChannelId
  filling : Option Nat := none
  playing : Option Nat := none
  /-- Slots that hold a copy of the first frame and no frame of their own. -/
  primed : Vector Bool 3 := Vector.replicate 3 false
  deriving DecidableEq, Repr, Inhabited

namespace Triple

/-- Claim the channel; nothing plays yet. -/
def new (engine : Engine) (channel length pole : Nat) : Except ClaimError Triple := do
  let (channel, engine) ← engine.claim channel
  return { engine, slots := Slots.new 3 length pole, channel }

/-- Run a computation on the shared part. -/
def onDeck {α : Type} : Run Deck α → Run Triple α :=
  Run.within fun ⟨deck, slots, channel, filling, playing, primed⟩ =>
    (deck, fun deck => ⟨deck, slots, channel, filling, playing, primed⟩)

/-- Run a computation on the slots. -/
def onSlots {α : Type} : Run Slots α → Run Triple α :=
  Run.within fun ⟨deck, slots, channel, filling, playing, primed⟩ =>
    (slots, fun slots => ⟨deck, slots, channel, filling, playing, primed⟩)

/-- Record whether a slot holds a copy of the first frame. -/
def setPrimed (slot : Nat) (value : Bool) (d : Triple) : Triple :=
  { d with primed := d.primed.setIfInBounds slot value }

def isPrimed (d : Triple) (slot : Nat) : Bool :=
  d.primed[slot]?.getD false

/-- The hardware goes on with a slot, ready or not. -/
def startSlot (slot : Nat) : Run Triple Unit := do
  if ← onSlots (Slots.beginDrain slot) then
    modify fun d =>
      { d with toDeck := d.toDeck.underrun s!"triple buffer underrun, slot {slot} plays fade" }
  modify fun d =>
    { d.setPrimed slot false with
      engine := d.engine.armAndStart d.channel (regionAddress slot 0) d.slots.slotLength slot
      playing := some slot }

/-- Serve a completion, if one is pending: retire the finished slot and start the next in turn. -/
def service : Run Triple Unit := do
  if (← get).engine.isPending (← get).channel then
    let tag ← onDeck (Deck.serve (← get).channel)
    let started := (← get).playing
    modify fun d => { d with playing := none }
    let (finished, disagrees) := finishedSlot tag started (← get).slots
    if disagrees then
      modify fun d => { d with toDeck := d.toDeck.mismatch tag started }
    match finished with
    | none => return
    | some slot =>
      onSlots (Slots.finishDrain slot)
      startSlot ((slot + 1) % 3)

/-- One transfer, and the handler if it completed a slot. -/
def step (limit : Nat) : Run Triple Nat := do
  let slots := (← get).slots
  let step ← onDeck (Deck.transfer slots.memory limit)
  if step.completed.isSome then service
  return step.transferred

/-- Let the hardware play so many words. -/
def advance (words : Nat) : Run Triple Unit :=
  Run.elapse step words

/-- Count and note that a frame was overwritten before it was played. -/
def overrun (slot : Nat) (d : Triple) : Triple :=
  let stats := { d.stats with overruns := d.stats.overruns + 1 }
  { d with
    toDeck := { d.toDeck with stats }.note .debug
      s!"triple buffer overwrote unplayed slot {slot}" }

/-- The slot for the next frame: two places after the one that plays. -/
def acquire : Run Triple (Array Word) := do
  service
  let target := match (← get).playing with
    | some slot => (slot + 2) % 3
    | none => 0
  let unplayed ← onSlots (Slots.beginFill target)
  if unplayed && !(← get).isPrimed target then
    modify (overrun target)
  modify fun d => { d.setPrimed target false with filling := some target }
  return (← get).slots.words target

/-- Put words over the start of the acquired slot. -/
def write (words : Array Word) : Run Triple Unit := do
  match (← get).filling with
  | some slot => onSlots (Slots.overwrite slot words)
  | none => return

/-- Copy the first frame to another slot. -/
def prime (source target : Nat) : Run Triple Unit := do
  onSlots (Slots.duplicate source target)
  modify (setPrimed target true)

/-- Hand the acquired slot over, its first `count` words being the frame. The first commit starts
    playback. -/
def commit (count : Nat) : Run Triple Unit := do
  let d ← get
  match d.filling with
  | none => modify fun d => { d with toDeck := d.toDeck.strayCommit }
  | some slot =>
    modify fun d => { d with filling := none }
    let (words, held) := padded (d.slots.words slot) count d.held
    onSlots (Slots.overwrite slot words)
    onSlots (Slots.finishFill slot)
    modify fun d => { d with toDeck := d.toDeck.committed held d.slots.slotLength }
    if (← get).playing.isNone then
      prime slot ((slot + 1) % 3)
      prime slot ((slot + 2) % 3)
      startSlot slot

end Triple

end ConsolePipeline.Playback
