import ConsolePipeline.Machine.Board
import ConsolePipeline.Timing

namespace ConsolePipeline.Bench

open Machine Sound Video

/-!
# Programs

What a stand-in processor does at the start of each slice of its time, besides letting cycles pass.

* `Program.idle` — nothing.
* `Program.melody` — a scale on the PSG, a note every 15 frames.
* `Program.script` — given acts at given slices.
-/

/-- A change to the video registers. -/
inductive RegisterAct
  | set (index : Nat) (value : UInt8)
  | control (word : UInt16)
  | setRegion (region : Region)
  | acknowledge
  | reset
  deriving DecidableEq, Repr, Inhabited

def RegisterAct.apply : RegisterAct → Registers → Registers
  | set index value, r => r.set index value
  | control word, r => r.control word
  | setRegion region, r => r.setRegion region
  | acknowledge, r => r.acknowledgeVint
  | reset, r => r.reset

/-- Something a script can do. Writes to the chips take effect a number of cycles after the cycle
    that the processor has come to. -/
inductive Act
  | registers (act : RegisterAct)
  | clock (us : UInt64)
  | fm (value : UInt8) (offset : Nat)
  | psg (value : UInt8) (offset : Nat)
  deriving DecidableEq, Repr, Inhabited

/-- Acts at one slice. -/
structure Cue where
  slice : Nat
  acts : List Act
  deriving DecidableEq, Repr, Inhabited

/-- The registers that processors are wired to: a file of their own, or the one on the board. -/
abbrev Wiring := Option Registers

/-- Change the registers that processors are wired to. -/
def mapWired (f : Registers → Registers) : Wiring × Board → Wiring × Board
  | (some r, board) => (some (f r), board)
  | (none, ⟨now, registers, bus⟩) => (none, ⟨now, f registers, bus⟩)

/-- Change the sound bus. -/
def mapBus (f : Bus → Bus) : Wiring × Board → Wiring × Board
  | (wiring, ⟨now, registers, bus⟩) => (wiring, ⟨now, registers, f bus⟩)

/-- Let time pass. -/
def spend (us : UInt64) : Wiring × Board → Wiring × Board
  | (wiring, ⟨now, registers, bus⟩) => (wiring, ⟨now.after us, registers, bus⟩)

/-- Do one act as a processor that has come to `cycle`. -/
def Act.perform (cycle : Nat) : Act → Wiring × Board → Wiring × Board
  | registers act => mapWired act.apply
  | clock us => spend us
  | fm value offset => mapBus (·.writeFm value (cycle + offset))
  | psg value offset => mapBus (·.writePsg value (cycle + offset))

/-- A program and how far it has come. -/
inductive Program
  | idle
  /-- The frames played so far. -/
  | melody (frame : Nat)
  /-- The slices begun so far. -/
  | script (cues : List Cue) (slice : Nat)
  deriving DecidableEq, Repr, Inhabited

/-- Tone periods of an A major scale from A4 to A5. -/
def notes : List Nat :=
  [254, 226, 202, 190, 170, 151, 135, 127]

/-- Frames for which a note is held. -/
def noteFrames : Nat := 15

/-- The bytes that begin a frame of the melody: full volume once, a period whenever a note
    begins. -/
def melodyBytes (frame : Nat) : List UInt8 :=
  let volume : List UInt8 := if frame = 0 then [0x90] else []
  if frame % noteFrames = 0 then
    let period := notes.getD (frame / noteFrames % notes.length) 0
    volume ++ [0x80 ||| UInt8.ofNat (period % 16), UInt8.ofNat (period / 16 % 64)]
  else
    volume

namespace Program

/-- Begin a slice as a processor that has come to `cycle`. The melody plays in the first line of a
    frame. -/
def begin (cycle : Nat) : Program → Wiring × Board → Program × Wiring × Board
  | idle, m => (idle, m)
  | melody frame, m =>
    if cycle < cyclesPerLine then
      (melody (frame + 1), (melodyBytes frame).foldl (fun m b => mapBus (·.writePsg b cycle) m) m)
    else
      (melody frame, m)
  | script cues slice, m =>
    let acts := (cues.filter (·.slice == slice)).flatMap (·.acts)
    (script cues (slice + 1), acts.foldl (fun m a => a.perform cycle m) m)

end Program

end ConsolePipeline.Bench
