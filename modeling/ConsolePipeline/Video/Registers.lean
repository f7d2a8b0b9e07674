import ConsolePipeline.Timing

namespace ConsolePipeline.Video

/-!
# Video registers

The video processor's register file, as far as the frame loop reads it.

* register 0 bit 4 — line interrupt enable
* register 1 bit 5 — vertical interrupt enable
* register 1 bit 3 — 30-cell mode, 240 visible lines on a PAL console
* register 10 — reload value of the line interrupt counter
* register 12 bit 0 — 40-cell mode, 320 pixels wide
-/

/-- The register file, the status word and the region of the console. -/
structure Registers where
  values : Vector UInt8 24 := Vector.replicate 24 0
  status : UInt16 := 0
  pal : Bool := false
  deriving DecidableEq, Repr, Inhabited

namespace Registers

/-- Status bit: a vertical interrupt waits to be taken. -/
def vintPendingBit : UInt16 := 0x0080

/-- Status bit: PAL console. -/
def palBit : UInt16 := 0x0001

/-- The value of a register; 0 past the last one. -/
def get (r : Registers) (index : Nat) : UInt8 :=
  r.values[index]?.getD 0

/-- Set a register; an index past the last one changes nothing. -/
def set (r : Registers) (index : Nat) (value : UInt8) : Registers :=
  { r with values := r.values.setIfInBounds index value }

/-- A word at the control port. `100R RRRR VVVV VVVV` writes a register; anything else is for parts
    of the video processor that are not modelled. -/
def control (r : Registers) (word : UInt16) : Registers :=
  if word &&& 0xE000 == 0x8000 then
    r.set ((word >>> 8) &&& 0x1F).toNat word.toUInt8
  else
    r

/-- Make the console one of the given region. PAL software runs the 30-cell mode, so that bit goes
    with the region. -/
def setRegion (r : Registers) (region : Region) : Registers :=
  match region with
  | .pal => { r.set 1 (r.get 1 ||| 0x08) with pal := true, status := r.status ||| palBit }
  | .ntsc => { r.set 1 (r.get 1 &&& 0xF7) with pal := false, status := r.status &&& ~~~palBit }

/-- The registers at power-on of a console of the given region. -/
def ofRegion (region : Region) : Registers :=
  setRegion {} region

def region (r : Registers) : Region :=
  if r.pal then .pal else .ntsc

def isV30 (r : Registers) : Bool :=
  r.get 1 &&& 0x08 != 0

def isH40 (r : Registers) : Bool :=
  r.get 12 &&& 0x01 != 0

def lineInterruptEnabled (r : Registers) : Bool :=
  r.get 0 &&& 0x10 != 0

def vblankInterruptEnabled (r : Registers) : Bool :=
  r.get 1 &&& 0x20 != 0

/-- The value the line interrupt counter starts from. -/
def lineReload (r : Registers) : UInt8 :=
  r.get 10

def vintPending (r : Registers) : Bool :=
  r.status &&& vintPendingBit != 0

def raiseVint (r : Registers) : Registers :=
  { r with status := r.status ||| vintPendingBit }

/-- What a processor does when it takes the vertical interrupt. -/
def acknowledgeVint (r : Registers) : Registers :=
  { r with status := r.status &&& ~~~vintPendingBit }

/-- Power-on values, for the same region as before. -/
def reset (r : Registers) : Registers :=
  ofRegion r.region

end Registers

/-- The geometry and time budget of a frame, as the registers give it when the frame begins. -/
structure Mode where
  region : Region
  linesPerFrame : Nat
  width : Nat
  height : Nat
  budgetUs : Nat
  deriving DecidableEq, Repr, Inhabited

namespace Mode

/-- The mode that the registers stand for now. -/
def sample (r : Registers) : Mode where
  region := r.region
  linesPerFrame := r.region.linesPerFrame
  width := if r.isH40 then 320 else 256
  height := if r.pal && r.isV30 then 240 else 224
  budgetUs := r.region.frameBudgetUs

/-- Width and height. -/
def dimensions (m : Mode) : Nat × Nat :=
  (m.width, m.height)

end Mode

end ConsolePipeline.Video
