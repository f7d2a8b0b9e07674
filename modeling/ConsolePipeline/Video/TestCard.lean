import ConsolePipeline.Clock

namespace ConsolePipeline.Video

/-!
# The test card

A picture of eight bands that stands in for a renderer. Drawing a picture costs time by a schedule,
charged when its first line is drawn.

* `Picture` — a rectangle of pixels.
* `RenderCost` — what each picture costs.
* `TestCard` — the renderer, with counts of what it was asked to do.
-/

/-- A rectangle of pixels, row by row. -/
structure Picture where
  width : Nat
  height : Nat
  pixels : Array UInt32
  deriving DecidableEq, Repr, Inhabited

/-- A picture whose pixels are all 0. -/
def Picture.blank (width height : Nat) : Picture :=
  ⟨width, height, Array.replicate (width * height) 0⟩

/-- Microseconds charged for each picture. -/
structure RenderCost where
  base : UInt32 := 4000
  /-- Pictures, counted from 0, whose cost differs; the first entry for a picture holds. -/
  spikes : List (Nat × UInt32) := []
  deriving DecidableEq, Repr, Inhabited

/-- The cost of picture number `render`. -/
def RenderCost.cost (c : RenderCost) (render : Nat) : UInt32 :=
  ((c.spikes.find? fun s => s.1 == render).map Prod.snd).getD c.base

/-- What a renderer was asked to do. -/
structure RenderCounts where
  lines : Nat := 0
  renders : Nat := 0
  configures : Nat := 0
  width : Nat := 0
  height : Nat := 0
  deriving DecidableEq, Repr, Inhabited

/-- The test card renderer. -/
structure TestCard where
  counts : RenderCounts := {}
  /-- What a picture costs; `none` if drawing takes no time. -/
  cost : Option RenderCost := none
  picture : Picture := .blank 0 0
  /-- The picture at which the renderer breaks down, to rehearse such a failure. -/
  failAt : Option Nat := none
  deriving Inhabited

namespace TestCard

/-- The colour of column `x` on a line: the band gives red, the line gives green. -/
def pixel (width line x : Nat) : UInt32 :=
  let band := x * 8 / max width 1
  (0xFF000000 : UInt32) ||| (UInt32.ofNat (band * 0x1F) <<< 16) |||
    (UInt32.ofNat (line % 0x100) <<< 8)

/-- Set the last `n` of a row's columns. -/
def drawColumns (width line : Nat) : (n : Nat) → Array UInt32 → Array UInt32
  | 0, pixels => pixels
  | n + 1, pixels =>
    let x := width - (n + 1)
    drawColumns width line n (pixels.setIfInBounds (line * width + x) (pixel width line x))

/-- Draw one line; a line past the picture draws nothing. -/
def drawLine (p : Picture) (line : Nat) : Picture :=
  if (line + 1) * p.width ≤ p.pixels.size then
    match p with
    | ⟨width, height, pixels⟩ => ⟨width, height, drawColumns width line width pixels⟩
  else
    p

/-- Take new dimensions, with a blank picture. -/
def configure (t : TestCard) (width height : Nat) : TestCard :=
  { t with
    counts := { t.counts with configures := t.counts.configures + 1, width, height }
    picture := .blank width height }

/-- Whether the next picture to be begun is the one that fails. -/
def fails (t : TestCard) : Bool :=
  t.failAt == some t.counts.renders

/-- Count a picture as begun and give its cost. -/
def begin (t : TestCard) : UInt32 × TestCard :=
  let cost := match t.cost with
    | some c => c.cost t.counts.renders
    | none => 0
  (cost, { t with counts := { t.counts with renders := t.counts.renders + 1 } })

/-- Draw a line, the first one beginning a new picture. -/
def renderLine (t : TestCard) (line : Nat) (now : Instant) : TestCard × Instant :=
  let (t, now) := if line = 0 then
      let (cost, t) := t.begin
      (t, now.after cost.toUInt64)
    else (t, now)
  match t with
  | ⟨counts, cost, picture, failAt⟩ =>
    (⟨{ counts with lines := counts.lines + 1 }, cost, drawLine picture line, failAt⟩, now)

def name (t : TestCard) : String :=
  if t.failAt.isSome then "failing" else "test card"

end TestCard

end ConsolePipeline.Video
