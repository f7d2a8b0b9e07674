namespace ConsolePipeline

/-!
# Region timing

The two console regions differ in their master clock, their refresh rate and their number of
scanlines; a scanline and an audio sample last equally many master cycles in both.
-/

/-- Master clock cycles of one scanline, in both regions. -/
def cyclesPerLine : Nat := 3420

/-- Master clock cycles of one generated audio sample. -/
def cyclesPerSample : Nat := 1009

/-- The television standard of a console. -/
inductive Region
  /-- 60 Hz, 262 lines: North America and Japan. -/
  | ntsc
  /-- 50 Hz, 313 lines: Europe and Australia. -/
  | pal
  deriving DecidableEq, Repr, Inhabited

namespace Region

/-- The name by which a configuration file and a log line call a region. -/
def name : Region → String
  | ntsc => "Ntsc"
  | pal => "Pal"

def masterClockHz : Region → Nat
  | ntsc => 53693175
  | pal => 53203424

/-- Nominal refresh rate, from which the time budget of a frame follows. -/
def refreshHz : Region → Nat
  | ntsc => 60
  | pal => 50

/-- All scanlines of a frame, blanking included. -/
def linesPerFrame : Region → Nat
  | ntsc => 262
  | pal => 313

/-- Lines shown: the 28-cell mode on NTSC, the 30-cell mode on PAL. -/
def visibleLines : Region → Nat
  | ntsc => 224
  | pal => 240

/-- Whole microseconds available for one frame. -/
def frameBudgetUs (r : Region) : Nat :=
  1000000 / r.refreshHz

/-- Master cycles of one full frame. -/
def cyclesPerFrame (r : Region) : Nat :=
  r.linesPerFrame * cyclesPerLine

end Region

end ConsolePipeline
