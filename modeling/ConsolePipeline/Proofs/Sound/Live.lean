import ConsolePipeline.Mixing.Mixer
import ConsolePipeline.Sound.Bus

namespace ConsolePipeline

open Mixing

/-!
# What buffers show

A buffer that has been used before differs from a new one by what lies past its live samples. Chips
that repeat a waveform never report more than these, so nobody sees the difference.

* `SampleBuffer.Same` — two buffers that show the same samples.
* `Chip.Fills` — a chip that reports as many samples as its buffer shows.
* `Bus.Same` — two buses in the same place of the same frame; `Bus.Apart` — before a frame.
* `FrameAudio.Same` — two frames that show the same; `Mixer.mix_same` — they are mixed to the same.
-/

namespace Sound

/-! ### Buffers -/

namespace SampleBuffer

variable {b b' : SampleBuffer}

/-- **Two buffers of one capacity that show the same samples.** -/
structure Same (b b' : SampleBuffer) : Prop where
  live : b'.live = b.live
  capacity : b'.capacity = b.capacity

theorem size_live (b : SampleBuffer) : b.live.size = b.length := by
  have hle := b.length_le
  rw [live, Array.size_extract]
  omega

theorem Same.length (h : Same b b') : b'.length = b.length := by
  rw [← size_live, h.live, size_live]

theorem Same.isFull (h : Same b b') : b'.isFull = b.isFull := by
  rw [SampleBuffer.isFull, h.length, h.capacity]
  rfl

theorem Same.push (h : Same b b') (s : Int16) : Same (b.push s) (b'.push s) := by
  refine ⟨?_, ?_⟩
  · cases hfull : b.isFull with
    | true =>
      rw [push_of_isFull hfull, push_of_isFull (h.isFull.trans hfull)]
      exact h.live
    | false => rw [live_push hfull, live_push (h.isFull.trans hfull), h.live]
  · rw [capacity_push, capacity_push]
    exact h.capacity

/-- Two buffers of one capacity show the same once they are empty. -/
theorem same_clear (h : b'.capacity = b.capacity) : Same b.clear b'.clear :=
  ⟨by rw [live_clear, live_clear], h⟩

theorem length_push (h : b.isFull = false) (s : Int16) : (b.push s).length = b.length + 1 := by
  rw [← size_live, live_push h, Array.size_push, size_live]

end SampleBuffer

/-! ### Chips -/

open SampleBuffer

theorem Waveform.take_same {b b' : SampleBuffer} (h : Same b b') (n : Nat) (w : Waveform) :
    (w.take n b').1 = (w.take n b).1 ∧ Same (w.take n b).2 (w.take n b').2 := by
  induction n generalizing w b b' with
  | zero => exact ⟨rfl, h⟩
  | succ n ih =>
    simp only [Waveform.take, h.isFull]
    cases b.isFull with
    | true => exact ⟨rfl, h⟩
    | false => exact ih (h.push w.output) w.advance

/-- Each sample taken is one that the buffer shows. -/
theorem Waveform.take_produced {b : SampleBuffer} {n : Nat} {w : Waveform}
    (h : w.produced = b.length) : (w.take n b).1.produced = (w.take n b).2.length := by
  induction n generalizing w b with
  | zero => exact h
  | succ n ih =>
    rw [Waveform.take]
    cases hfull : b.isFull with
    | true => exact h
    | false =>
      apply ih
      rw [length_push hfull, ← h]
      rfl

theorem Waveform.capacity_take (n : Nat) (w : Waveform) (b : SampleBuffer) :
    (w.take n b).2.capacity = b.capacity := by
  induction n generalizing w b with
  | zero => rfl
  | succ n ih =>
    rw [Waveform.take]
    split
    · rfl
    · rw [ih, capacity_push]

namespace Chip

variable {c : Chip} {b b' : SampleBuffer}

/-- **A chip that reports as many samples as its buffer shows.** It repeats a waveform. -/
def Fills (c : Chip) (b : SampleBuffer) : Prop :=
  ∃ w, c = .waveform w ∧ w.produced = b.length

theorem Fills.sampleCount (h : c.Fills b) : c.sampleCount = b.length := by
  obtain ⟨w, rfl, hproduced⟩ := h
  exact congrArg Int.ofNat hproduced

/-- It fills two buffers that show the same alike. -/
theorem Fills.runTo (h : c.Fills b) (hsame : Same b b') (target : Nat) :
    (c.runTo target b').1 = (c.runTo target b).1 ∧
      Same (c.runTo target b).2 (c.runTo target b').2 ∧
      (c.runTo target b).1.Fills (c.runTo target b).2 := by
  obtain ⟨w, rfl, hproduced⟩ := h
  obtain ⟨hchip, hout⟩ :=
    Waveform.take_same hsame (target / cyclesPerSample - w.produced) w
  exact ⟨congrArg Chip.waveform hchip, hout, _, rfl, Waveform.take_produced hproduced⟩

theorem Fills.capacity_runTo (h : c.Fills b) (target : Nat) :
    (c.runTo target b).2.capacity = b.capacity := by
  obtain ⟨w, rfl, -⟩ := h
  exact Waveform.capacity_take _ w b

/-- Whether a chip repeats a waveform. -/
def Repeats (c : Chip) : Prop :=
  ∃ w, c = .waveform w

/-- At the start of a frame it has filled nothing. -/
theorem Repeats.beginFrame (h : c.Repeats) (b : SampleBuffer) : c.beginFrame.Fills b.clear := by
  obtain ⟨w, rfl⟩ := h
  exact ⟨_, rfl, rfl⟩

theorem Fills.repeats (h : c.Fills b) : c.Repeats := by
  obtain ⟨w, hw, -⟩ := h
  exact ⟨w, hw⟩

end Chip

/-! ### Buses -/

/-- Two buffers of the usual capacity. -/
structure Buffers.Roomy (b : Buffers) : Prop where
  fm : b.fm.capacity = bufferCapacity
  psg : b.psg.capacity = bufferCapacity

theorem Buffers.roomy_empty : Buffers.empty.Roomy :=
  ⟨Array.size_replicate, Array.size_replicate⟩

namespace Bus

variable {bus bus' : Bus}

/-- **Two buses in the same place of the same frame.** -/
structure Same (bus bus' : Bus) : Prop where
  fm : bus'.fm = bus.fm
  psg : bus'.psg = bus.psg
  fmOut : SampleBuffer.Same bus.buffers.fm bus'.buffers.fm
  psgOut : SampleBuffer.Same bus.buffers.psg bus'.buffers.psg
  fmFills : bus.fm.Fills bus.buffers.fm
  psgFills : bus.psg.Fills bus.buffers.psg
  roomy : bus.buffers.Roomy

/-- Two buses before the same frame. What their buffers show has no part in it. -/
structure Apart (bus bus' : Bus) : Prop where
  fm : bus'.fm = bus.fm
  psg : bus'.psg = bus.psg
  fmRepeats : bus.fm.Repeats
  psgRepeats : bus.psg.Repeats
  roomy : bus.buffers.Roomy
  roomy' : bus'.buffers.Roomy

theorem Apart.beginFrame (h : Apart bus bus') : Same bus.beginFrame bus'.beginFrame where
  fm := congrArg Chip.beginFrame h.fm
  psg := congrArg Chip.beginFrame h.psg
  fmOut := same_clear (h.roomy'.fm.trans h.roomy.fm.symm)
  psgOut := same_clear (h.roomy'.psg.trans h.roomy.psg.symm)
  fmFills := h.fmRepeats.beginFrame _
  psgFills := h.psgRepeats.beginFrame _
  roomy := ⟨h.roomy.fm, h.roomy.psg⟩

/-- The other bus's buffers have as much room. -/
theorem Same.roomy' (h : Same bus bus') : bus'.buffers.Roomy :=
  ⟨h.fmOut.capacity.trans h.roomy.fm, h.psgOut.capacity.trans h.roomy.psg⟩

theorem Same.flush (h : Same bus bus') (cycle : Nat) :
    Same (bus.flush cycle) (bus'.flush cycle) := by
  obtain ⟨fm, psg, fmOut, psgOut⟩ := bus
  obtain ⟨fm', psg', fmOut', psgOut'⟩ := bus'
  obtain rfl : fm' = fm := h.fm
  obtain rfl : psg' = psg := h.psg
  obtain ⟨hfm, hfmOut, hfmFills⟩ := h.fmFills.runTo h.fmOut cycle
  obtain ⟨hpsg, hpsgOut, hpsgFills⟩ := h.psgFills.runTo h.psgOut cycle
  exact ⟨hfm, hpsg, hfmOut, hpsgOut, hfmFills, hpsgFills,
    (h.fmFills.capacity_runTo cycle).trans h.roomy.fm,
    (h.psgFills.capacity_runTo cycle).trans h.roomy.psg⟩

theorem Same.sampleCounts (h : Same bus bus') : bus'.sampleCounts = bus.sampleCounts := by
  rw [Bus.sampleCounts, Bus.sampleCounts, h.fm, h.psg]

/-- After a frame, the next one finds the buses apart, whatever buffers they get. -/
theorem Same.apart (h : Same bus bus') {fresh fresh' : Buffers} (hfresh : fresh.Roomy)
    (hfresh' : fresh'.Roomy) :
    Apart { bus with buffers := fresh } { bus' with buffers := fresh' } :=
  ⟨h.fm, h.psg, h.fmFills.repeats, h.psgFills.repeats, hfresh, hfresh'⟩

end Bus

/-! ### Frames -/

namespace FrameAudio

/-- **Two frames that show the same,** with counts that their chips can be trusted with. -/
structure Same (a a' : FrameAudio) : Prop where
  frame : a'.frame = a.frame
  buffers : ∃ fm fm' psg psg', a.fm = some fm ∧ a'.fm = some fm' ∧ a.psg = some psg ∧
    a'.psg = some psg' ∧ SampleBuffer.Same fm fm' ∧ SampleBuffer.Same psg psg' ∧
    a.fmCount = fm.length ∧ a.psgCount = psg.length
  fmCount : a'.fmCount = a.fmCount
  psgCount : a'.psgCount = a.psgCount

/-- What a frame shows: its number, the counts, and the live samples of both chips. -/
def shown (a : FrameAudio) : Nat × (Int × Int) × Option (Array Int16) × Option (Array Int16) :=
  (a.frame, (a.fmCount, a.psgCount), a.fm.map (·.live), a.psg.map (·.live))

theorem Same.shown {a a' : FrameAudio} (h : Same a a') : a'.shown = a.shown := by
  obtain ⟨fm, fm', psg, psg', hfm, hfm', hpsg, hpsg', hfmSame, hpsgSame, -, -⟩ := h.buffers
  rw [FrameAudio.shown, FrameAudio.shown, h.frame, h.fmCount, h.psgCount, hfm, hfm', hpsg, hpsg',
    Option.map_some, Option.map_some, Option.map_some, Option.map_some, hfmSame.live,
    hpsgSame.live]

end FrameAudio

end Sound

namespace Mixing.Mixer

open Sound

/-- As many samples as a buffer shows are trusted, and they are those it shows. -/
theorem trusted_length (enabled : Bool) (b : SampleBuffer) :
    trusted enabled b.length b = (if enabled then b.live else #[], []) := by
  -- A buffer never shows more samples than it has room for.
  have hvalid : isValidCount b.length b = true := by
    rw [isValidCount, Int.toNat_natCast]
    simp [SampleBuffer.capacity, b.length_le]
  cases enabled with
  | false => rfl
  | true =>
    simp only [trusted, Bool.not_true, Bool.false_eq_true, if_false, hvalid, if_true,
      Int.toNat_natCast]
    rfl

/-- **Two frames that show the same are mixed to the same.** -/
theorem mix_same {a a' : FrameAudio} (h : a.Same a') (m : Mixer) (controls : Controls)
    (length : Nat) : m.mix (some a') controls length = m.mix (some a) controls length := by
  obtain ⟨fm, fm', psg, psg', hfm, hfm', hpsg, hpsg', hfmSame, hpsgSame, hfmCount, hpsgCount⟩ :=
    h.buffers
  -- Each count is that of the samples shown, so these are what the mixer trusts.
  have hfmCount' : a'.fmCount = fm'.length := by rw [h.fmCount, hfmCount, hfmSame.length]
  have hpsgCount' : a'.psgCount = psg'.length := by rw [h.psgCount, hpsgCount, hpsgSame.length]
  simp only [mix, hfm, hfm', hpsg, hpsg', mixChips, hfmCount, hfmCount', hpsgCount, hpsgCount',
    trusted_length, hfmSame.live, hpsgSame.live]

end Mixing.Mixer

end ConsolePipeline
