import ConsolePipeline.Proofs.Playback.Engine
import ConsolePipeline.Proofs.Playback.Ring.Window

namespace ConsolePipeline.Playback

open Stereo

/-!
# Ring playback: what a listener should hear

The ring plays an unbounded stream. A frame of silence comes first; then each frame follows the one
before it, or begins where the reader is if that is further on. What comes after the last frame is a
decay and then silence, until another frame is put there.

* `Ring.Shape` — the sizes of a ring, which fit each other.
* `Ring.Score` — a stream, and where its last frame ends; `Shape.extend`, `Shape.score` — how
  commits make it up.
* `Shows.extend` — what a commit writes turns a window of one stream into one of the next.
-/

/-- The last word of a padded frame is the one that it was padded with. -/
theorem back?_padded {words : Array Word} (h : 0 < words.size) (count : Nat) (fallback : Word) :
    (padded words count fallback).1.back?.getD silence = (padded words count fallback).2 := by
  have hsize : (padded words count fallback).1.size = words.size := size_padded words count fallback
  rw [Array.back?, hsize]
  simp only [padded]
  by_cases hfull : words.size ≤ count
  · -- Nothing is padded: the last word is the last one given.
    have hlast : words.size - 1 < words.size := by omega
    rw [Nat.min_eq_right hfull, if_pos h, Nat.sub_self, Array.replicate_zero, Array.append_empty,
      Array.extract_size, Array.getD_eq_getD_getElem?, Array.getElem?_eq_getElem hlast,
      Option.getD_some, Option.getD_some]
  · have hcount : min count words.size = count := by omega
    rw [hcount, Array.getElem?_append_right (by rw [Array.size_extract]; omega),
      Array.getElem?_replicate, if_pos (by rw [Array.size_extract]; omega), Option.getD_some]

theorem getD_fade {n j : Nat} (start : Int16) (pole : Nat) (h : j < n) :
    (fade start pole n).getD j silence = mono (sample (decay start.toInt pole (j + 1))) := by
  rw [Array.getD_eq_getD_getElem?, ← Array.getElem?_toList, fade_toList, List.getElem?_map,
    List.getElem?_range h, Option.map_some, Option.getD_some]

namespace Ring

theorem isPowerOfTwo_powerFrom (n : Nat) : (powerFrom n).isPowerOfTwo := by
  rw [powerFrom]
  split
  · exact Nat.isPowerOfTwo_one
  · exact ⟨_, Nat.one_shiftLeft _⟩

/-- The shape of a ring and its frames. Two frames fit into the ring, and the ring into a region. -/
structure Shape where
  /-- Words in a frame. -/
  len : Nat
  pole : Nat
  config : RingConfig
  pos : 0 < len
  frames : 2 * len ≤ config.sizeFor len
  addressable : config.sizeFor len ≤ regionWords

/-- Words in the ring. -/
def Shape.size (σ : Shape) : Nat :=
  σ.config.sizeFor σ.len

theorem Shape.size_isPowerOfTwo (σ : Shape) : σ.size.isPowerOfTwo :=
  isPowerOfTwo_powerFrom _

theorem Shape.two_mul_len_le (σ : Shape) : 2 * σ.len ≤ σ.size :=
  σ.frames

/-- The stream that a history of commits calls for. -/
structure Score where
  stream : Nat → Word
  /-- Where the last frame ends. -/
  finish : Nat
  /-- Frames that were committed when the reader had passed the end of the frame before. -/
  late : Nat

namespace Shape

variable (σ : Shape)

/-- Before the first commit: the first frame will follow one frame of silence. -/
def blank : Score where
  stream _ := silence
  finish := σ.len
  late := 0

/-- Where a frame begins: after the one before it, or where the reader was when it was committed. -/
def start (s : Score) (c : Commit) : Nat :=
  max s.finish c.entry

/-- Word `j` after a frame that ends at `finish`: a decay of the frame's last sample, as far as the
    guard and the free space go, then silence. -/
def tail (c : Commit) (finish j : Nat) : Word :=
  if j < min σ.config.guard.toNat (c.exit + σ.size - finish) then
    mono (sample (decay (left (c.frame.back?.getD silence)).toInt σ.pole (j + 1)))
  else silence

/-- **One more frame.** -/
def extend (s : Score) (c : Commit) : Score where
  stream i :=
    if i < start s c then s.stream i
    else if i < start s c + σ.len then c.frame.getD (i - start s c) silence
    else σ.tail c (start s c + σ.len) (i - (start s c + σ.len))
  finish := start s c + σ.len
  late := s.late + if s.finish < c.entry then 1 else 0

/-- **What a history of commits calls for.** -/
def score (history : List Commit) : Score :=
  history.foldl σ.extend σ.blank

theorem score_append (history : List Commit) (c : Commit) :
    σ.score (history ++ [c]) = σ.extend (σ.score history) c := by
  rw [score, List.foldl_append, score]
  rfl

variable {σ} {s : Score} {c : Commit} {i n : Nat}

theorem stream_extend (σ : Shape) (s : Score) (c : Commit) (i : Nat) :
    (σ.extend s c).stream i =
      if i < start s c then s.stream i
      else if i < start s c + σ.len then c.frame.getD (i - start s c) silence
      else σ.tail c (start s c + σ.len) (i - (start s c + σ.len)) := rfl

/-- What comes before a frame does not depend on it. -/
theorem opening_extend (h : n ≤ start s c) :
    opening (σ.extend s c).stream n = opening s.stream n := by
  apply opening_congr
  intro i hi
  rw [stream_extend, if_pos (by omega)]

/-- A lap after the reader's position, a frame is followed by silence. -/
theorem stream_extend_beyond (hfit : start s c + σ.len ≤ c.exit + σ.size)
    (hi : c.exit + σ.size ≤ i) : (σ.extend s c).stream i = silence := by
  rw [stream_extend, if_neg (by omega), if_neg (by omega), tail, if_neg (by omega)]

end Shape

end Ring

/-- **What a commit writes** turns a window of one stream into one of the next. -/
theorem Shows.extend {σ : Ring.Shape} {s : Ring.Score} {c : Commit} {ring : Array Word}
    {faded free : Nat}
    (h : Shows ring s.stream c.exit) (hring : ring.size = σ.size) (hframe : c.frame.size = σ.len)
    (hexit : c.exit ≤ Ring.Shape.start s c)
    (hfree : Ring.Shape.start s c + σ.len + free = c.exit + σ.size)
    (hfaded : faded = min σ.config.guard.toNat free) :
    Shows
      (silenceWrapped (free - faded) (Ring.Shape.start s c + σ.len + faded)
        (writeWrapped (fade (left (c.frame.back?.getD silence)) σ.pole faded)
          (Ring.Shape.start s c + σ.len) (writeWrapped c.frame (Ring.Shape.start s c) ring)))
      (σ.extend s c).stream c.exit := by
  -- Three stretches are written: the frame, its decay, and the silence behind it.
  have hframes := h.write hexit (by rw [hframe, hring]; omega)
  have hguard : Ring.Shape.start s c + σ.len +
      (fade (left (c.frame.back?.getD silence)) σ.pole faded).size ≤
        c.exit + (writeWrapped c.frame (Ring.Shape.start s c) ring).size := by
    rw [size_writeWrapped, size_fade, hring]
    omega
  have hfades := hframes.write (by omega) hguard
  have hend : Ring.Shape.start s c + σ.len + faded + (free - faded) =
      c.exit + (writeWrapped (fade (left (c.frame.back?.getD silence)) σ.pole faded)
        (Ring.Shape.start s c + σ.len)
        (writeWrapped c.frame (Ring.Shape.start s c) ring)).size := by
    rw [size_writeWrapped, size_writeWrapped, hring]
    omega
  have hcut := hfades.cut (by omega) hend
  refine hcut.congr ?_
  intro i hi hlt
  have hspace : c.exit + σ.size - (Ring.Shape.start s c + σ.len) = free := by omega
  rw [Playback.cut, splice, splice, size_fade, hframe, Ring.Shape.stream_extend]
  by_cases hbefore : i < Ring.Shape.start s c
  · rw [if_pos hbefore, if_pos (by omega), if_neg (by omega), if_neg (by omega)]
  rw [if_neg hbefore]
  by_cases hinside : i < Ring.Shape.start s c + σ.len
  · rw [if_pos hinside, if_pos (by omega), if_neg (by omega), if_pos (by omega)]
  rw [if_neg hinside, Ring.Shape.tail, hspace, ← hfaded]
  by_cases hdecay : i < Ring.Shape.start s c + σ.len + faded
  · rw [if_pos hdecay, if_pos (by omega), getD_fade _ _ (by omega), if_pos (by omega)]
  · rw [if_neg hdecay, if_neg (by omega)]

end ConsolePipeline.Playback
