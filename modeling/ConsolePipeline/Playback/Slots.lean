import ConsolePipeline.Fault
import ConsolePipeline.Stereo.Decay

namespace ConsolePipeline.Playback

open Stereo

/-!
# Hardware slots

A slot belongs to software while it is filled, to the hardware while it is drained, and to nobody in
between. Every change of owner goes through the table, and one that would let software touch a slot
the hardware may be reading is a fault.

* `Slots.beginFill`, `overwrite`, `finishFill` — the software side.
* `Slots.beginDrain`, `finishDrain` — the hardware side; a drained slot is left holding a fade of
  its last sample, so playing it again never repeats stale audio.
-/

/-- Slots of equal length with their owners. -/
structure Slots where
  states : Array SlotState
  memory : Array (Array Word)
  /-- Pole of the fade left in a drained slot. -/
  pole : Nat
  deriving DecidableEq, Repr, Inhabited

namespace Slots

/-- Free slots that hold silence. -/
def new (count length pole : Nat) : Slots where
  states := Array.replicate count .free
  memory := Array.replicate count (Array.replicate length silence)
  pole := pole

/-- The number of slots. -/
def count (s : Slots) : Nat :=
  s.memory.size

/-- Words in each slot; 0 if there is none. -/
def slotLength (s : Slots) : Nat :=
  (s.memory[0]?.map Array.size).getD 0

/-- The owner of a slot. -/
def state? (s : Slots) (slot : Nat) : Option SlotState :=
  s.states[slot]?

/-- The words of a slot. -/
def words (s : Slots) (slot : Nat) : Array Word :=
  s.memory.getD slot #[]

/-- The number of slots in a state. -/
def countIn (s : Slots) (state : SlotState) : Nat :=
  s.states.count state

/-- The owner of a slot that must exist. -/
def owner (slot : Nat) : Run Slots SlotState := fun s =>
  match s.state? slot with
  | some state => .ok state s
  | none => .error (.noSlot slot) s

/-- Change the owner of a slot. -/
def setState (slot : Nat) (state : SlotState) (s : Slots) : Slots :=
  { s with states := s.states.setIfInBounds slot state }

/-- Replace the words of a slot. -/
def setWords (slot : Nat) (words : Array Word) (s : Slots) : Slots :=
  { s with memory := s.memory.setIfInBounds slot words }

/-- Take a free or ready slot for writing. The answer says whether it still held words that were
    never played. -/
def beginFill (slot : Nat) : Run Slots Bool := do
  let state ← owner slot
  if state = .free ∨ state = .ready then
    modify (setState slot .filling)
    return state = .ready
  else
    throw (.notFillable slot state)

/-- Put words over the start of a slot that is being written; what does not fit is left out. -/
def overwrite (slot : Nat) (words : Array Word) : Run Slots Unit := do
  let state ← owner slot
  if state = .filling then
    modify fun s =>
      let old := s.words slot
      s.setWords slot (words.extract 0 old.size ++ old.extract words.size old.size)
  else
    throw (.notFilling slot)

/-- Hand a written slot over. -/
def finishFill (slot : Nat) : Run Slots Unit := do
  let state ← owner slot
  if state = .filling then
    modify (setState slot .ready)
  else
    throw (.unexpected slot state)

/-- The hardware starts reading a slot. The answer says whether it was not ready, so that a fade is
    played in place of a frame. -/
def beginDrain (slot : Nat) : Run Slots Bool := do
  let state ← owner slot
  if state = .ready ∨ state = .free then
    modify (setState slot .draining)
    return state = .free
  else
    throw (.notDrainable slot state)

/-- The last sample of a slot, on the left; silence if it holds no word. -/
def lastSample (s : Slots) (slot : Nat) : Int16 :=
  left ((s.words slot).back?.getD silence)

/-- The hardware has read a slot, which is left holding a fade of its last sample. -/
def finishDrain (slot : Nat) : Run Slots Unit := do
  let state ← owner slot
  if state = .draining then
    modify fun s =>
      (s.setWords slot (fade (s.lastSample slot) s.pole (s.words slot).size)).setState slot .free
  else
    throw (.unexpected slot state)

/-- Copy a ready slot into another one that nobody owns, which becomes ready too. -/
def duplicate (source target : Nat) : Run Slots Unit := do
  let state ← owner source
  if state = .ready then
    let other ← owner target
    if other = .free ∨ other = .ready then
      modify fun s => (s.setWords target (s.words source)).setState target .ready
    else
      throw (.unexpected target other)
  else
    throw (.unexpected source state)

end Slots

end ConsolePipeline.Playback
