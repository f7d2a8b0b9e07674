import ConsolePipeline.Proofs.Mixing.Checked

namespace ConsolePipeline.Mixing

open Sound Stereo

/-!
# The crossfade

A frame with samples is ramped from the last sample of the frame before, so no frame begins with a
click. It ends on its own last level, which pads the slot, and from which the next frame is ramped.

* `Mixed.heard` — the samples of a slot.
* `Mixer.mix_ramped` — a frame is ramped from one to the next.
-/

/-- The sample heard at a place of a slot. -/
def Mixed.heard (out : Mixed) (i : Nat) : Int :=
  (left (out.words.getD i silence)).toInt

namespace Mixer

variable {length : Nat} {frame : Option FrameAudio} {controls : Controls}

/-- **No click and no overshoot.** The samples of a frame are ramped from the last sample of the
    frame before toward its own levels. The frame ends on its own last level, which pads the slot
    and is the mixer's last sample. None of it leaves 32 bits, up to eight times as many samples as
    a buffer of the usual capacity holds. -/
theorem mix_ramped (m : Mixer) (h : 0 < usable frame controls length) :
    let out := m.mix frame controls length
    Ramped m.last.toInt (level frame controls) out.heard m.config.crossfadeLen.toNat out.used ∧
      out.used = usable frame controls length ∧
      out.mixer.last.toInt = level frame controls (out.used - 1) ∧
      (∀ i, out.used ≤ i → i < length → out.heard i = level frame controls (out.used - 1)) ∧
      (out.used ≤ 8 * bufferCapacity → m.mix? frame controls length = some out) := by
  -- The frame is one blend of its level. A blend is ramped before it is rounded, and none of its
  -- samples needs rounding.
  obtain ⟨b, hb, hmix⟩ := m.mix_blended h
  have hpos : 0 < b.available := by rwa [hb.available]
  have hramped := b.ramped hpos
  have htarget : b.target = level frame controls := funext hb.target
  have hend : (left (b.word (b.available - 1))).toInt = level frame controls (b.available - 1) := by
    rw [b.toInt_left_word (by omega), hramped.ends, htarget]
  have hheard : ∀ i, i < b.available → (m.mix frame controls length).heard i = b.emitted i := by
    intro i hi
    rw [Mixed.heard, hmix, getD_blendInto hi, b.toInt_left_word hi]
  have hused : (m.mix frame controls length).used = b.available := by
    rw [hmix]
    rfl
  rw [htarget, hb.last, hb.crossfade] at hramped
  show Ramped _ _ _ _ (m.mix frame controls length).used ∧ _
  simp only [hused]
  refine ⟨ramped_of_share hpos ?_ ?_, hb.available, ?_, ?_, ?_⟩
  · intro i hi
    rw [hheard i (by omega)]
    exact hramped.share i hi
  · intro i hi hlt
    rw [hheard i hlt]
    exact hramped.after i hi hlt
  · rw [hmix, last_blendInto hpos, hend]
  · intro i hi hlt
    rw [Mixed.heard, hmix, getD_blendInto_pad hpos hi hlt, hend]
  · intro hsize
    rw [hb.available] at hsize
    exact m.mix?_eq hsize

/-- Three samples of one chip and one of the other. -/
def quietFrame : FrameAudio where
  frame := 0
  fm := some ⟨#[-7, 4, 5], 3, by decide⟩
  psg := some ⟨#[1], 1, by decide⟩
  fmCount := 3
  psgCount := 1

/-- Down from a loud sample: two samples on the ramp, one past it, and two words of padding. -/
theorem mix_ramped_down :
    let out := ({ config := { crossfadeLen := 2 }, last := 300 } : Mixer).mix (some quietFrame) {} 5
    0 < usable (some quietFrame) {} 5 ∧
      Ramped 300 (level (some quietFrame) {}) out.heard 2 3 ∧
      out.heard 1 = 103 ∧ out.heard 4 = 5 ∧ out.mixer.last.toInt = 5 := by
  have hpos : 0 < usable (some quietFrame) {} 5 := by decide
  obtain ⟨hramped, hused, hlast, hpad, -⟩ :=
    mix_ramped { config := { crossfadeLen := 2 }, last := 300 } hpos
  rw [hused] at hramped hlast hpad
  refine ⟨hpos, hramped, ?_, ?_, ?_⟩
  · exact (hramped.share 1 (by decide)).trans (by decide)
  · exact (hpad 4 (by decide) (by decide)).trans (by decide)
  · exact hlast.trans (by decide)

end Mixer

end ConsolePipeline.Mixing
