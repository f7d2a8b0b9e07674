import Mathlib.Tactic.SplitIfs
import ConsolePipeline.Proofs.Sound.Live

namespace ConsolePipeline.Sound

open Mixing

/-!
# Frames of a fixed number of samples

At the end of a frame both chips run to a fixed cycle, so that each frame has the same number of
samples. A register write runs its chip ahead to its own cycle, however, and a frame may be longer
than the fixed cycle. In the longer of the two kinds of frames a late write leaves more samples than
that, and the mixer has no place for them.

* `BusWrite`, `Bus.driven` — a frame with register writes; `furthest` — how far they run a chip.
* `Psg.Reached` — a chip that has come to a cycle; `Reached.runTo`, `Reached.write` — and goes on.
* `Bus.driven_reached` — where a frame leaves both chips.
* `FullFrame` — a frame of which every sample is mixed.
* `full_frame_iff` — which frames are full.
-/

/-! ### Frames with writes -/

/-- The chips of a bus. -/
inductive Side
  | fm
  | psg
  deriving DecidableEq, Repr, Inhabited

/-- A register write to a chip at a cycle of the frame. -/
structure BusWrite where
  side : Side
  value : UInt8
  cycle : Nat
  deriving DecidableEq, Repr, Inhabited

/-- How far the writes to a chip run it, from a cycle on. -/
def furthest (side : Side) : List BusWrite → Nat → Nat
  | [], reach => reach
  | w :: rest, reach => furthest side rest (if w.side = side then max reach w.cycle else reach)

/-- A chip stays before a cycle if every write to it does. -/
theorem furthest_lt_iff (side : Side) (writes : List BusWrite) (reach limit : Nat) :
    furthest side writes reach < limit ↔
      reach < limit ∧ ∀ w ∈ writes, w.side = side → w.cycle < limit := by
  induction writes generalizing reach with
  | nil => simp [furthest]
  | cons w rest ih =>
    rw [furthest, ih]
    by_cases hside : w.side = side
    · simp only [hside, if_true, List.forall_mem_cons, Nat.max_lt, forall_const, and_assoc]
    · simp only [hside, if_false, List.forall_mem_cons, false_implies, true_and]

namespace Bus

/-- One register write. -/
def write (b : Bus) (w : BusWrite) : Bus :=
  match w.side with
  | .fm => b.writeFm w.value w.cycle
  | .psg => b.writePsg w.value w.cycle

/-- **A whole frame:** its beginning, its writes, and both chips run to a cycle. -/
def driven (writes : List BusWrite) (cycle : Nat) (b : Bus) : Bus :=
  (writes.foldl write b.beginFrame).flush cycle

/-- What the bus holds of a frame, as it is sent to the audio side. -/
def audio (frame : Nat) (b : Bus) : FrameAudio :=
  ⟨frame, some b.buffers.fm, some b.buffers.psg, b.fm.sampleCount, b.psg.sampleCount⟩

end Bus

/-! ### How far a chip has come -/

namespace SampleBuffer

/-- A push fills one more place, if there is one. -/
theorem length_push_min (b : SampleBuffer) (s : Int16) :
    (b.push s).length = min (b.length + 1) b.capacity := by
  have hle : b.length ≤ b.capacity := b.length_le
  cases hfull : b.isFull with
  | true =>
    have hsize : b.capacity ≤ b.length := isFull_iff.mp hfull
    rw [push_of_isFull hfull]
    omega
  | false =>
    have hroom : b.length < b.capacity := length_lt hfull
    rw [length_push hfull]
    omega

end SampleBuffer

/-- The samples due by the later one of two cycles are the more of those due by either. -/
theorem max_div (first second : Nat) : max first second / cyclesPerSample =
    max (first / cyclesPerSample) (second / cyclesPerSample) := by
  rcases Nat.le_total first second with hle | hle
  · rw [Nat.max_eq_right hle, Nat.max_eq_right (Nat.div_le_div_right hle)]
  · rw [Nat.max_eq_left hle, Nat.max_eq_left (Nat.div_le_div_right hle)]

namespace Psg

variable {p : Psg} {out : SampleBuffer} {reach : Nat}

@[simp] theorem clock_ticks (n : Nat) (p : Psg) : (ticks n p).clock = p.clock := by
  induction n generalizing p with
  | zero => rfl
  | succ n ih => exact ih p.tick

@[simp] theorem produced_ticks (n : Nat) (p : Psg) : (ticks n p).produced = p.produced := by
  induction n generalizing p with
  | zero => rfl
  | succ n ih => exact ih p.tick

@[simp] theorem clock_nextSample (p : Psg) : p.nextSample.clock = p.clock + cyclesPerSample := by
  simp [nextSample]

@[simp] theorem produced_nextSample (p : Psg) : p.nextSample.produced = p.produced + 1 := by
  simp [nextSample]

/-- Two states of a chip in the same place of the same frame. -/
structure SameTime (p q : Psg) : Prop where
  clock : q.clock = p.clock
  produced : q.produced = p.produced

theorem sameTime_modifyTone (p : Psg) (channel : Nat) (f : Tone → Tone) :
    SameTime p (p.modifyTone channel f) := by
  unfold modifyTone
  split_ifs <;> exact ⟨rfl, rfl⟩

theorem sameTime_setAttenuation (p : Psg) (channel attenuation : Nat) :
    SameTime p (p.setAttenuation channel attenuation) := by
  unfold setAttenuation
  split_ifs
  · exact ⟨rfl, rfl⟩
  · exact sameTime_modifyTone p channel _

/-- A register write lets no time pass. -/
theorem sameTime_write (p : Psg) (value : UInt8) : SameTime p (p.write value) := by
  -- To latch a channel is no more than to note its number.
  have hlatch : ∀ {latched : Nat} {q : Psg}, SameTime { p with latched } q → SameTime p q :=
    fun h => ⟨h.clock, h.produced⟩
  unfold write
  dsimp only
  split_ifs
  · exact hlatch (sameTime_setAttenuation _ _ _)
  · exact ⟨rfl, rfl⟩
  · exact hlatch (sameTime_modifyTone _ _ _)
  · exact sameTime_modifyTone p _ _

/-- **A chip that has come to a cycle of the frame:** every sample due up to there has been taken,
    and put into the buffer as long as there was room. -/
structure Reached (reach : Nat) (p : Psg) (out : SampleBuffer) : Prop where
  clock : p.clock = p.produced * cyclesPerSample
  produced : p.produced = reach / cyclesPerSample
  length : out.length = min p.produced out.capacity

theorem reached_beginFrame (p : Psg) (out : SampleBuffer) :
    Reached 0 p.beginFrame out.clear where
  clock := by simp [beginFrame]
  produced := by simp [beginFrame]
  length := by simp [beginFrame, SampleBuffer.clear]

/-- Samples are taken one after the other, each of them a sample's time later. -/
theorem take_counts (n : Nat) (p : Psg) (out : SampleBuffer) :
    (take n p out).1.clock = p.clock + n * cyclesPerSample ∧
      (take n p out).1.produced = p.produced + n ∧
      (take n p out).2.length = min (out.length + n) out.capacity ∧
      (take n p out).2.capacity = out.capacity := by
  induction n generalizing p out with
  | zero =>
    have hle : out.length ≤ out.capacity := out.length_le
    refine ⟨by simp [take], rfl, ?_, rfl⟩
    show out.length = min (out.length + 0) out.capacity
    omega
  | succ n ih =>
    obtain ⟨hclock, hproduced, hlength, hcapacity⟩ :=
      ih p.nextSample (out.push p.nextSample.output)
    rw [SampleBuffer.capacity_push] at hlength hcapacity
    rw [SampleBuffer.length_push_min] at hlength
    rw [clock_nextSample] at hclock
    rw [produced_nextSample] at hproduced
    refine ⟨?_, ?_, ?_, hcapacity⟩
    · rw [take, hclock, Nat.succ_mul]
      omega
    · rw [take, hproduced]
      omega
    · rw [take, hlength]
      omega

/-- **A chip that is run on** has come to the later one of two cycles. -/
theorem Reached.runTo (h : Reached reach p out) (target : Nat) :
    Reached (max reach target) (p.runTo target out).1 (p.runTo target out).2 ∧
      (p.runTo target out).2.capacity = out.capacity := by
  obtain ⟨hclock, hproduced, hlength, hcapacity⟩ :=
    take_counts ((target - p.clock) / cyclesPerSample) p out
  -- The samples still due are those of the target that have not been taken.
  have hdue : (target - p.clock) / cyclesPerSample = target / cyclesPerSample - p.produced := by
    rw [h.clock, Nat.mul_comm, Nat.sub_mul_div]
  have hreach : p.produced + (target / cyclesPerSample - p.produced) =
      max reach target / cyclesPerSample := by
    rw [max_div, ← h.produced]
    omega
  refine ⟨⟨?_, ?_, ?_⟩, hcapacity⟩
  · show (take _ p out).1.clock = (take _ p out).1.produced * cyclesPerSample
    rw [hclock, hproduced, Nat.add_mul, h.clock]
  · show (take _ p out).1.produced = _
    rw [hproduced, hdue, hreach]
  · show (take _ p out).2.length = min (take _ p out).1.produced (take _ p out).2.capacity
    have hbefore := h.length
    rw [hlength, hproduced, hcapacity]
    omega

theorem Reached.write (h : Reached reach p out) (value : UInt8) :
    Reached reach (p.write value) out := by
  obtain ⟨hclock, hproduced⟩ := sameTime_write p value
  refine ⟨?_, ?_, ?_⟩
  · rw [hclock, hproduced, h.clock]
  · rw [hproduced, h.produced]
  · rw [hproduced, h.length]

end Psg

/-! ### Where a frame leaves both chips -/

namespace Bus

variable {b : Bus} {fmReach psgReach : Nat}

/-- **A bus whose chips have come to two cycles** of the frame, each with a buffer of the usual
    capacity. -/
structure Reached (fmReach psgReach : Nat) (b : Bus) : Prop where
  fm : ∃ p, b.fm = .psg p ∧ p.Reached fmReach b.buffers.fm
  psg : ∃ p, b.psg = .psg p ∧ p.Reached psgReach b.buffers.psg
  roomy : b.buffers.Roomy

/-- A write runs its chip on, and leaves the other one alone. -/
theorem Reached.write (h : Reached fmReach psgReach b) (w : BusWrite) :
    Reached (if w.side = .fm then max fmReach w.cycle else fmReach)
      (if w.side = .psg then max psgReach w.cycle else psgReach) (b.write w) := by
  obtain ⟨side, value, cycle⟩ := w
  obtain ⟨fm, psg, ⟨fmOut, psgOut⟩⟩ := b
  obtain ⟨⟨p, rfl, hp⟩, ⟨q, rfl, hq⟩, hroomy⟩ := h
  cases side with
  | fm =>
    obtain ⟨hrun, hcapacity⟩ := hp.runTo cycle
    exact ⟨⟨_, rfl, hrun.write value⟩, ⟨q, rfl, hq⟩, hcapacity.trans hroomy.fm, hroomy.psg⟩
  | psg =>
    obtain ⟨hrun, hcapacity⟩ := hq.runTo cycle
    exact ⟨⟨p, rfl, hp⟩, ⟨_, rfl, hrun.write value⟩, hroomy.fm, hcapacity.trans hroomy.psg⟩

/-- Any number of writes. -/
theorem Reached.writes (h : Reached fmReach psgReach b) (writes : List BusWrite) :
    Reached (furthest .fm writes fmReach) (furthest .psg writes psgReach)
      (writes.foldl Bus.write b) := by
  induction writes generalizing fmReach psgReach b with
  | nil => exact h
  | cons w rest ih => exact ih (h.write w)

theorem Reached.flush (h : Reached fmReach psgReach b) (cycle : Nat) :
    Reached (max fmReach cycle) (max psgReach cycle) (b.flush cycle) := by
  obtain ⟨fm, psg, ⟨fmOut, psgOut⟩⟩ := b
  obtain ⟨⟨p, rfl, hp⟩, ⟨q, rfl, hq⟩, hroomy⟩ := h
  obtain ⟨hfm, hfmCapacity⟩ := hp.runTo cycle
  obtain ⟨hpsg, hpsgCapacity⟩ := hq.runTo cycle
  exact ⟨⟨_, rfl, hfm⟩, ⟨_, rfl, hpsg⟩, hfmCapacity.trans hroomy.fm, hpsgCapacity.trans hroomy.psg⟩

/-- **Where a frame leaves both chips:** at its last cycle, or at the latest write if that is later,
    whatever they played before. -/
theorem driven_reached {buffers : Buffers} (hroomy : buffers.Roomy) (p q : Psg)
    (writes : List BusWrite) (cycle : Nat) :
    Reached (max (furthest .fm writes 0) cycle) (max (furthest .psg writes 0) cycle)
      (driven writes cycle ⟨.psg p, .psg q, buffers⟩) := by
  have hbegun : Reached 0 0 (beginFrame ⟨.psg p, .psg q, buffers⟩) :=
    ⟨⟨_, rfl, p.reached_beginFrame _⟩, ⟨_, rfl, q.reached_beginFrame _⟩, hroomy.fm, hroomy.psg⟩
  exact (hbegun.writes writes).flush cycle

theorem Reached.sampleCounts (h : Reached fmReach psgReach b) :
    b.sampleCounts = (((fmReach / cyclesPerSample : Nat) : Int),
      ((psgReach / cyclesPerSample : Nat) : Int)) := by
  obtain ⟨⟨p, hfm, hp⟩, ⟨q, hpsg, hq⟩, -⟩ := h
  simp [Bus.sampleCounts, hfm, hpsg, Chip.sampleCount, hp.produced, hq.produced]

theorem Reached.size_live (h : Reached fmReach psgReach b) :
    b.buffers.fm.live.size = min (fmReach / cyclesPerSample) bufferCapacity ∧
      b.buffers.psg.live.size = min (psgReach / cyclesPerSample) bufferCapacity := by
  obtain ⟨⟨p, -, hp⟩, ⟨q, -, hq⟩, hroomy⟩ := h
  constructor
  · rw [SampleBuffer.size_live, hp.length, hp.produced, hroomy.fm]
  · rw [SampleBuffer.size_live, hq.length, hq.produced, hroomy.psg]

end Bus

/-! ### Full frames -/

/-- **A frame of which every sample is mixed:** both chips report so many samples, both buffers show
    as many, and a slot of that many words has a place for each of them. -/
structure FullFrame (n : Nat) (b : Bus) : Prop where
  counts : b.sampleCounts = ((n : Int), (n : Int))
  fm : b.buffers.fm.live.size = n
  psg : b.buffers.psg.live.size = n
  /-- Nothing that a chip reports is left out, unless it has been switched off. -/
  mixed : ∀ (frame : Nat) (m : Mixer) (controls : Controls), controls.enabled = true →
    controls.fmEnabled = true → controls.psgEnabled = true →
      b.fm.sampleCount ≤ (m.mix (some (b.audio frame)) controls n).used ∧
        b.psg.sampleCount ≤ (m.mix (some (b.audio frame)) controls n).used

/-- A chip that is on and whose count can be right is heard with as many samples. -/
theorem size_trusted {n : Nat} {buffer : SampleBuffer} (h : n ≤ buffer.capacity) :
    (Mixer.trusted true n buffer).1.size = n := by
  simp only [SampleBuffer.capacity] at h
  simp [Mixer.trusted, Mixer.isValidCount, SampleBuffer.capacity, h]

/-- **All samples are mixed** if there are as many of each chip as the slot has words. -/
theorem used_mix {n : Nat} {b : Bus} (hpos : 0 < n) (hn : n ≤ bufferCapacity)
    (hroomy : b.buffers.Roomy) (hcounts : b.sampleCounts = ((n : Int), (n : Int))) (frame : Nat)
    (m : Mixer) {controls : Controls} (henabled : controls.enabled = true)
    (hfm : controls.fmEnabled = true) (hpsg : controls.psgEnabled = true) :
    (m.mix (some (b.audio frame)) controls n).used = n := by
  obtain ⟨hfmCount, hpsgCount⟩ := Prod.mk.inj hcounts
  have hfmSize := size_trusted (Nat.le_trans hn (Nat.le_of_eq hroomy.fm.symm))
  have hpsgSize := size_trusted (Nat.le_trans hn (Nat.le_of_eq hroomy.psg.symm))
  simp only [Mixer.mix, Bus.audio, Mixer.mixChips, henabled, hfm, hpsg, hfmCount, hpsgCount,
    hfmSize, hpsgSize, Nat.max_self, Nat.min_self]
  simp [Mixer.blendInto, Nat.pos_iff_ne_zero.mp hpos]

/-- A reach leaves the number of samples as it is until the next one is due. -/
theorem max_div_eq_iff {reach n : Nat} :
    max reach (n * cyclesPerSample) / cyclesPerSample = n ↔ reach < (n + 1) * cyclesPerSample := by
  rw [Nat.div_eq_iff (by decide), Nat.add_mul]
  unfold cyclesPerSample
  omega

/-- **Which frames are full:** those whose writes all come before the first sample too many. -/
theorem fullFrame_iff {buffers : Buffers} (hroomy : buffers.Roomy) (p q : Psg)
    (writes : List BusWrite) {n : Nat} (hpos : 0 < n) (hn : n ≤ bufferCapacity) :
    FullFrame n (Bus.driven writes (n * cyclesPerSample) ⟨.psg p, .psg q, buffers⟩) ↔
      ∀ w ∈ writes, w.cycle < (n + 1) * cyclesPerSample := by
  have hreached := Bus.driven_reached hroomy p q writes (n * cyclesPerSample)
  have hcounts := hreached.sampleCounts
  obtain ⟨hfmSize, hpsgSize⟩ := hreached.size_live
  have hbefore : 0 < (n + 1) * cyclesPerSample := Nat.mul_pos (Nat.succ_pos n) (by decide)
  constructor
  · intro hfull w hw
    -- Both counts tell that no write to their chip came too late.
    rw [hfull.counts] at hcounts
    obtain ⟨hfm, hpsg⟩ := Prod.mk.inj hcounts
    have hfm := max_div_eq_iff.mp (Int.ofNat.inj hfm).symm
    have hpsg := max_div_eq_iff.mp (Int.ofNat.inj hpsg).symm
    rw [furthest_lt_iff] at hfm hpsg
    cases hside : w.side with
    | fm => exact hfm.2 w hw hside
    | psg => exact hpsg.2 w hw hside
  · intro hwrites
    have hfm : furthest .fm writes 0 < (n + 1) * cyclesPerSample :=
      (furthest_lt_iff _ _ _ _).mpr ⟨hbefore, fun w hw _ => hwrites w hw⟩
    have hpsg : furthest .psg writes 0 < (n + 1) * cyclesPerSample :=
      (furthest_lt_iff _ _ _ _).mpr ⟨hbefore, fun w hw _ => hwrites w hw⟩
    rw [max_div_eq_iff.mpr hfm, max_div_eq_iff.mpr hpsg] at hcounts
    rw [max_div_eq_iff.mpr hfm, Nat.min_eq_left hn] at hfmSize
    rw [max_div_eq_iff.mpr hpsg, Nat.min_eq_left hn] at hpsgSize
    refine ⟨hcounts, hfmSize, hpsgSize, ?_⟩
    intro frame m controls henabled hfmOn hpsgOn
    rw [used_mix hpos hn hreached.roomy hcounts frame m henabled hfmOn hpsgOn]
    obtain ⟨hfmCount, hpsgCount⟩ := Prod.mk.inj hcounts
    exact ⟨Int.le_of_eq hfmCount, Int.le_of_eq hpsgCount⟩

/-- **Which frames of 888 samples are full,** whatever the chips played before and whatever is
    written within the frame: all of the region with the shorter frame, which ends before sample 889
    is due, and those of the other region in which nothing is written from there on. -/
theorem frame_of_888_full_iff {buffers : Buffers} (hroomy : buffers.Roomy) (p q : Psg)
    (region : Region) (writes : List BusWrite)
    (hwithin : ∀ w ∈ writes, w.cycle ≤ region.cyclesPerFrame) :
    FullFrame 888 (Bus.driven writes (888 * cyclesPerSample) ⟨.psg p, .psg q, buffers⟩) ↔
      region = .ntsc ∨ ∀ w ∈ writes, w.cycle < 889 * cyclesPerSample := by
  rw [fullFrame_iff hroomy p q writes (by decide) (by decide)]
  cases region with
  | ntsc =>
    simp only [true_or, iff_true]
    intro w hw
    have hshort : Region.ntsc.cyclesPerFrame < 889 * cyclesPerSample := by decide
    exact Nat.lt_of_le_of_lt (hwithin w hw) hshort
  | pal => simp

/-- A write at the very end of a frame: in the region with the shorter frame all 888 samples are
    mixed, while in the other one more of them are left than a slot has words. -/
theorem last_write_of_frame_full :
    FullFrame 888 (Bus.driven [⟨.psg, 0x90, Region.ntsc.cyclesPerFrame⟩] (888 * cyclesPerSample)
        ⟨.psg {}, .psg {}, .empty⟩) ∧
      ¬FullFrame 888 (Bus.driven [⟨.psg, 0x90, Region.pal.cyclesPerFrame⟩] (888 * cyclesPerSample)
        ⟨.psg {}, .psg {}, .empty⟩) := by
  constructor
  · have hwithin : ∀ w ∈ [(⟨.psg, 0x90, Region.ntsc.cyclesPerFrame⟩ : BusWrite)],
        w.cycle ≤ Region.ntsc.cyclesPerFrame := by simp
    exact (frame_of_888_full_iff Buffers.roomy_empty {} {} .ntsc _ hwithin).mpr (.inl rfl)
  · have hwithin : ∀ w ∈ [(⟨.psg, 0x90, Region.pal.cyclesPerFrame⟩ : BusWrite)],
        w.cycle ≤ Region.pal.cyclesPerFrame := by simp
    rw [frame_of_888_full_iff Buffers.roomy_empty {} {} .pal _ hwithin]
    simp [Region.cyclesPerFrame, Region.linesPerFrame, cyclesPerLine, cyclesPerSample]

end ConsolePipeline.Sound
