namespace ConsolePipeline

/-!
# Faults

Some requests are errors of the caller: software that touches a slot the hardware may be reading,
or that waits for something that can never come. They stop a run at once.

* `SlotState` — who owns a hardware slot.
* `Fault` — why a run stopped; `Fault.message` is its text, where it has one.
* `Run` — a computation on a state that may stop with a fault, and keeps the state it stopped in.
-/

/-- Who owns a hardware slot. -/
inductive SlotState
  /-- Nobody: played, or never written; it holds a fade. -/
  | free
  /-- Software, which is writing it. -/
  | filling
  /-- Nobody: written, waiting for the hardware. -/
  | ready
  /-- The hardware, which is reading it. -/
  | draining
  deriving DecidableEq, Repr, Inhabited

def SlotState.name : SlotState → String
  | free => "Free"
  | filling => "Filling"
  | ready => "Ready"
  | draining => "Draining"

/-- Why a run stopped. -/
inductive Fault
  /-- A slot was taken for writing that was neither free nor ready. -/
  | notFillable (slot : Nat) (state : SlotState)
  /-- The hardware was sent to a slot that was neither ready nor free. -/
  | notDrainable (slot : Nat) (state : SlotState)
  /-- A slot was written that nobody had taken for writing. -/
  | notFilling (slot : Nat)
  /-- An operation found a slot in a state that it does not expect. -/
  | unexpected (slot : Nat) (state : SlotState)
  /-- There is no such slot. -/
  | noSlot (slot : Nat)
  /-- There is no such transfer channel. -/
  | noChannel (channel : Nat)
  /-- A transfer or a fill runs past the memory it works on. -/
  | outOfRange
  /-- A wait that can never end. -/
  | stalled
  /-- The renderer broke down. -/
  | renderer
  /-- More memory is asked for than there can be. -/
  | outOfRoom
  /-- A number comes out larger than its type can hold. -/
  | overflow
  deriving DecidableEq, Repr, Inhabited

/-- The text of a fault that names the slot it is about. -/
def Fault.message : Fault → Option String
  | notFillable slot state => some s!"slot {slot} cannot be filled while {state.name}"
  | notDrainable slot state => some s!"slot {slot} cannot drain while {state.name}"
  | notFilling slot => some s!"write to slot {slot} outside Filling"
  | _ => none

/-- A computation on a state of type `σ` that may stop with a fault. -/
abbrev Run (σ α : Type) := EStateM Fault σ α

namespace Run

variable {σ τ α : Type}

/-- Run a computation on a part of the state. `focus` takes the state apart into that part and a way
    to put it back. -/
def within (focus : σ → τ × (τ → σ)) (act : Run τ α) : Run σ α := fun s =>
  match focus s with
  | (t, back) => match act t with
    | .ok a t => .ok a (back t)
    | .error e t => .error e (back t)

/-- Repeat `spin` while `busy` holds, `n` times at most; a wait that is still busy then has
    stalled. -/
def waitWhile (busy : σ → Bool) (spin : Run σ Unit) : (n : Nat) → Run σ Unit
  | 0 => fun s => if busy s then .error .stalled s else .ok () s
  | n + 1 => fun s =>
    if busy s then
      match spin s with
      | .ok () s => waitWhile busy spin n s
      | .error e s => .error e s
    else .ok () s

/-- Let `amount` units of time pass. `step` is told how much is left and answers how much it took,
    which must be something. -/
def elapse (step : Nat → Run σ Nat) (amount : Nat) : Run σ Unit := fun s =>
  if amount = 0 then .ok () s
  else match step amount s with
    | .error e s => .error e s
    | .ok taken s =>
      if taken = 0 then .error .stalled s
      else elapse step (amount - taken) s
termination_by amount

end Run

end ConsolePipeline
