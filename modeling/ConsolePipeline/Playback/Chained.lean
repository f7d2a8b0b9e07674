import ConsolePipeline.Playback.Deck

namespace ConsolePipeline.Playback

open Stereo

/-!
# Chained ping-pong

Two slots on two channels that start each other. The hardware goes from one slot to the other by
itself; the completion handler only arms the finished channel again, so that the chain can come back
to it. Software fills the slots in turn.
-/

/-- Two slots on two chained channels; `channels[i]` reads slot `i`. -/
structure Chained extends Deck where
  slots : Slots
  channels : Vector ChannelId 2
  /-- The slot that software fills next. -/
  nextFill : Nat := 0
  filling : Option Nat := none
  playing : Option Nat := none
  deriving DecidableEq, Repr, Inhabited

namespace Chained

/-- Claim both channels, chain them to each other and arm each for its slot. -/
def new (engine : Engine) (first second length pole : Nat) : Except ClaimError Chained := do
  let (a, engine) ← engine.claim first
  let (b, engine) ← engine.claim second
  let engine := (engine.configure a (some b.val) none).configure b (some a.val) none
  let engine := (engine.arm a (regionAddress 0 0) length 0).arm b (regionAddress 1 0) length 1
  return { engine, slots := Slots.new 2 length pole, channels := #v[a, b] }

/-- Run a computation on the shared part. -/
def onDeck {α : Type} : Run Deck α → Run Chained α :=
  Run.within fun ⟨deck, slots, channels, nextFill, filling, playing⟩ =>
    (deck, fun deck => ⟨deck, slots, channels, nextFill, filling, playing⟩)

/-- Run a computation on the slots. -/
def onSlots {α : Type} : Run Slots α → Run Chained α :=
  Run.within fun ⟨deck, slots, channels, nextFill, filling, playing⟩ =>
    (slots, fun slots => ⟨deck, slots, channels, nextFill, filling, playing⟩)

/-- The channel that reads a slot. -/
def channelOf (d : Chained) (slot : Nat) : ChannelId :=
  if slot = 0 then d.channels[0] else d.channels[1]

/-- Record that the hardware has gone on to a slot, ready or not. -/
def markPlaying (slot : Nat) : Run Chained Unit := do
  if ← onSlots (Slots.beginDrain slot) then
    modify fun d =>
      { d with toDeck := d.toDeck.underrun s!"chained underrun, slot {slot} plays fade" }
  modify fun d => { d with playing := some slot }

/-- Arm the channel of a slot for another pass over it. -/
def rearm (slot : Nat) (d : Chained) : Chained :=
  { d with
    engine := d.engine.arm (d.channelOf slot) (regionAddress slot 0) d.slots.slotLength slot }

/-- Serve the completion of the channel that reads `slot`: retire the finished slot, arm its channel
    again, and record that the chain has gone on to the other one. -/
def retire (tag : Option Nat) (slot : Nat) : Run Chained Unit := do
  modify fun d =>
    { d with
      engine := d.engine.clearPending (Engine.bit (d.channelOf slot))
      stats := { d.stats with irqs := d.stats.irqs + 1 } }
  let (finished, disagrees) := finishedSlot tag (some slot) (← get).slots
  if disagrees then
    modify fun d => { d with toDeck := d.toDeck.mismatch tag (some slot) }
  match finished with
  | none => return
  | some slot =>
    onSlots (Slots.finishDrain slot)
    modify (rearm slot)
    markPlaying (1 - slot)

/-- Serve every completion that was pending. The mailbox holds one tag, which goes to the first. -/
def service : Run Chained Unit := do
  let d ← get
  let (tag, engine) := d.engine.takeMail
  modify fun d => { d with engine }
  let first := d.engine.isPending (d.channelOf 0)
  let second := d.engine.isPending (d.channelOf 1)
  if first then retire tag 0
  if second then retire (if first then none else tag) 1

/-- One transfer, and the handler if it completed a slot. -/
def step (limit : Nat) : Run Chained Nat := do
  let slots := (← get).slots
  let step ← onDeck (Deck.transfer slots.memory limit)
  if step.completed.isSome then service
  return step.transferred

/-- Let the hardware play so many words. -/
def advance (words : Nat) : Run Chained Unit :=
  Run.elapse step words

/-- One round of a busy wait. -/
def spin : Run Chained Unit := do
  modify fun d => { d with toDeck := d.toDeck.spun }
  advance waitWords

/-- Whether software has to wait for the slot it fills next. -/
def mustWait (d : Chained) : Bool :=
  d.playing.isSome &&
    (d.slots.state? d.nextFill == some .ready || d.slots.state? d.nextFill == some .draining)

/-- Rounds after which a wait has stalled: where in the two slots the hardware stands at the end of
    a round repeats after at most as many rounds as the slots have words. -/
def waitBound (d : Chained) : Nat :=
  4 * d.slots.slotLength + 4

/-- The slot for the next frame, once the hardware has released it. -/
def acquire : Run Chained (Array Word) := do
  service
  let d ← get
  Run.waitWhile mustWait spin d.waitBound
  let target := (← get).nextFill
  let _ ← onSlots (Slots.beginFill target)
  modify fun d => { d with filling := some target }
  return (← get).slots.words target

/-- Put words over the start of the acquired slot. -/
def write (words : Array Word) : Run Chained Unit := do
  match (← get).filling with
  | some slot => onSlots (Slots.overwrite slot words)
  | none => return

/-- Hand the acquired slot over, its first `count` words being the frame. The second commit starts
    the chain at slot 0. -/
def commit (count : Nat) : Run Chained Unit := do
  let d ← get
  match d.filling with
  | none => modify fun d => { d with toDeck := d.toDeck.strayCommit }
  | some slot =>
    modify fun d => { d with filling := none }
    let (words, held) := padded (d.slots.words slot) count d.held
    onSlots (Slots.overwrite slot words)
    onSlots (Slots.finishFill slot)
    modify fun d =>
      { d with
        toDeck := d.toDeck.committed held d.slots.slotLength
        nextFill := 1 - d.nextFill }
    let d ← get
    if d.playing.isNone && d.slots.countIn .ready = 2 then
      markPlaying 0
      modify fun d => { d with engine := d.engine.start (d.channelOf 0) }

end Chained

end ConsolePipeline.Playback
