import ConsolePipeline.Text.Keyword

namespace ConsolePipeline.FrameSkip

/-!
# Fixed patterns

A level renders the frames whose place in a repeating period is marked in its mask.
-/

/-- How many frames a pattern skips. -/
inductive Level
  /-- Every frame is rendered. -/
  | none
  /-- 4 of every 6 frames are rendered. -/
  | low
  /-- Every other frame is rendered. -/
  | medium
  /-- Every third frame is rendered. -/
  | high
  /-- 1 of every 5 frames is rendered. -/
  | extreme
  deriving DecidableEq, Repr, Inhabited

namespace Level

def all : List Level :=
  [none, low, medium, high, extreme]

/-- Bit `i` of the mask is set if place `i` of the period is rendered. -/
def mask : Level → Nat
  | none => 0b111111
  | low => 0b011011
  | medium => 0b010101
  | high => 0b001001
  | extreme => 0b00001

def period : Level → Nat
  | extreme => 5
  | _ => 6

/-- Whether the pattern renders a frame. -/
def renders (l : Level) (frame : Nat) : Bool :=
  l.mask.testBit (frame % l.period)

/-- The name in configurations. -/
def name : Level → String
  | none => "none"
  | low => "low"
  | medium => "medium"
  | high => "high"
  | extreme => "extreme"

/-- The level that a typed name or digit stands for. -/
def ofText? (s : String) : Option Level :=
  match Text.keyword s with
  | "none" | "off" | "0" => some none
  | "low" | "1" => some low
  | "medium" | "2" => some medium
  | "high" | "3" => some high
  | "extreme" | "4" => some extreme
  | _ => Option.none

end Level

end ConsolePipeline.FrameSkip
