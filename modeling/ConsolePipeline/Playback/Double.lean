import ConsolePipeline.Playback.Deck

namespace ConsolePipeline.Playback

open Stereo

/-!
# Double buffering

Two slots on one channel, which the completion handler starts again. Playback begins once both slots
hold a frame. From then on the handler starts whichever slot is queued, or the finished one again if
none is; software fills the other slot and waits for it if the hardware is behind.
-/

/-- Two slots on one channel. -/
structure Double extends Deck where
  slots : Slots
  channel : ChannelId
  /-- The slot that software fills next. -/
  nextFill : Nat := 0
  filling : Option Nat := none
  playing : Option Nat := none
  /-- The slot to play after the one that plays now. -/
  queued : Option Nat := none
  deriving DecidableEq, Repr, Inhabited

namespace Double

/-- Claim the channel; nothing plays yet. -/
def new (engine : Engine) (channel length pole : Nat) : Except ClaimError Double := do
  let (channel, engine) ← engine.claim channel
  return { engine, slots := Slots.new 2 length pole, channel }

/-- Run a computation on the shared part. -/
def onDeck {α : Type} : Run Deck α → Run Double α :=
  Run.within fun ⟨deck, slots, channel, nextFill, filling, playing, queued⟩ =>
    (deck, fun deck => ⟨deck, slots, channel, nextFill, filling, playing, queued⟩)

/-- Run a computation on the slots. -/
def onSlots {α : Type} : Run Slots α → Run Double α :=
  Run.within fun ⟨deck, slots, channel, nextFill, filling, playing, queued⟩ =>
    (slots, fun slots => ⟨deck, slots, channel, nextFill, filling, playing, queued⟩)

/-- The hardware goes on with a slot, ready or not. -/
def startSlot (slot : Nat) : Run Double Unit := do
  if ← onSlots (Slots.beginDrain slot) then
    modify fun d =>
      { d with toDeck := d.toDeck.underrun s!"double buffer underrun, slot {slot} replays fade" }
  modify fun d =>
    { d with
      engine := d.engine.armAndStart d.channel (regionAddress slot 0) d.slots.slotLength slot
      playing := some slot }

/-- Serve a completion, if one is pending: retire the finished slot and start the next. -/
def service : Run Double Unit := do
  if (← get).engine.isPending (← get).channel then
    let tag ← onDeck (Deck.serve (← get).channel)
    let started := (← get).playing
    modify fun d => { d with playing := none }
    let (finished, disagrees) := finishedSlot tag started (← get).slots
    if disagrees then
      modify fun d => { d with toDeck := d.toDeck.mismatch tag started }
    match finished with
    | none => return
    | some slot =>
      onSlots (Slots.finishDrain slot)
      let next := (← get).queued.getD slot
      modify fun d => { d with queued := none }
      startSlot next

/-- One transfer, and the handler if it completed a slot. -/
def step (limit : Nat) : Run Double Nat := do
  let slots := (← get).slots
  let step ← onDeck (Deck.transfer slots.memory limit)
  if step.completed.isSome then service
  return step.transferred

/-- Let the hardware play so many words. -/
def advance (words : Nat) : Run Double Unit :=
  Run.elapse step words

/-- One round of a busy wait. -/
def spin : Run Double Unit := do
  modify fun d => { d with toDeck := d.toDeck.spun }
  advance waitWords

/-- Whether software has to wait for the slot it fills next. -/
def mustWait (d : Double) : Bool :=
  d.playing.isSome &&
    (d.slots.state? d.nextFill == some .ready || d.slots.state? d.nextFill == some .draining)

/-- Rounds after which a wait has stalled: where in the two slots the hardware stands at the end of
    a round repeats after at most as many rounds as the slots have words. -/
def waitBound (d : Double) : Nat :=
  4 * d.slots.slotLength + 4

/-- The slot for the next frame, once the hardware has released it. -/
def acquire : Run Double (Array Word) := do
  service
  let d ← get
  Run.waitWhile mustWait spin d.waitBound
  let target := (← get).nextFill
  let _ ← onSlots (Slots.beginFill target)
  modify fun d => { d with filling := some target }
  return (← get).slots.words target

/-- Put words over the start of the acquired slot. -/
def write (words : Array Word) : Run Double Unit := do
  match (← get).filling with
  | some slot => onSlots (Slots.overwrite slot words)
  | none => return

/-- Hand the acquired slot over, its first `count` words being the frame. The second commit starts
    playback with the older slot. -/
def commit (count : Nat) : Run Double Unit := do
  let d ← get
  match d.filling with
  | none => modify fun d => { d with toDeck := d.toDeck.strayCommit }
  | some slot =>
    modify fun d => { d with filling := none }
    let (words, held) := padded (d.slots.words slot) count d.held
    onSlots (Slots.overwrite slot words)
    onSlots (Slots.finishFill slot)
    modify fun d =>
      { d with
        toDeck := d.toDeck.committed held d.slots.slotLength
        nextFill := 1 - d.nextFill }
    let d ← get
    if d.playing.isNone then
      if d.slots.countIn .ready = 2 then
        startSlot (1 - slot)
        modify fun d => { d with queued := some slot }
    else if d.queued.isNone then
      modify fun d => { d with queued := some slot }

end Double

end ConsolePipeline.Playback
