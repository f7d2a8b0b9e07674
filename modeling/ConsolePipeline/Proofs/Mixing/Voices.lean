import ConsolePipeline.Proofs.Mixing.Mixer
import ConsolePipeline.Proofs.Stereo.Decay

namespace ConsolePipeline.Mixing

open Sound Stereo

/-!
# What a mixer can use of a frame

A frame is not to be trusted: its buffers may be missing and its counts may be any numbers. What is
left of it are two voices, each with as many samples as its count says if that can be right, and
with none otherwise. A slot is filled in one of two ways, according to whether there is anything to
use.

* `Voice` — one chip of a frame; `Voice.trusted`, `Voice.sample` — what can be used of it.
* `usable`, `mixture`, `level`, `untrusted` — what can be used of a frame.
* `Mixer.mix_faded`, `Mixer.mix_blended` — the two ways in which a slot is filled.
-/

/-- One chip of a frame: whether it is switched on, the count that it reported, and its buffer. -/
structure Voice where
  enabled : Bool
  count : Int
  buffer : SampleBuffer

namespace Voice

/-- Whether the count can be one of samples in the buffer. -/
def Credible (v : Voice) : Prop :=
  0 ≤ v.count ∧ v.count ≤ v.buffer.capacity

instance (v : Voice) : Decidable v.Credible :=
  inferInstanceAs (Decidable (_ ∧ _))

/-- How many samples can be used. -/
def trusted (v : Voice) : Nat :=
  if v.enabled ∧ v.Credible then v.count.toNat else 0

/-- A sample that can be used; silence past the last one. -/
def sample (v : Voice) (i : Nat) : Int :=
  if i < v.trusted then (v.buffer.storage.getD i 0).toInt else 0

/-- Whether the chip is heard and its count cannot be right. -/
def isDoubtful (v : Voice) : Bool :=
  v.enabled && !decide v.Credible

end Voice

/-- The two voices of a frame, if both of its buffers arrived. -/
def voices (controls : Controls) : Option FrameAudio → List Voice
  | some ⟨_, some fm, some psg, fmCount, psgCount⟩ =>
    [⟨controls.fmEnabled, fmCount, fm⟩, ⟨controls.psgEnabled, psgCount, psg⟩]
  | _ => []

/-- How many words of a slot can be filled with samples. -/
def usable (frame : Option FrameAudio) (controls : Controls) (length : Nat) : Nat :=
  if controls.enabled then min (((voices controls frame).map Voice.trusted).foldr max 0) length
  else 0

/-- The sum of the voices at the volume, rounded down. -/
def mixture (frame : Option FrameAudio) (controls : Controls) (i : Nat) : Int :=
  ((voices controls frame).map (·.sample i)).foldr (· + ·) 0 * controls.volume.toNat / 128

/-- The same, held to the range of a sample. -/
def level (frame : Option FrameAudio) (controls : Controls) (i : Nat) : Int :=
  clampSample (mixture frame controls i)

/-- The counts that cannot be right, of chips that are heard. -/
def untrusted (frame : Option FrameAudio) (controls : Controls) : List Int :=
  ((voices controls frame).filter Voice.isDoubtful).map Voice.count

theorem usable_le (frame : Option FrameAudio) (controls : Controls) (length : Nat) :
    usable frame controls length ≤ length := by
  rw [usable]
  split
  · exact Nat.min_le_right _ _
  · exact Nat.zero_le _

/-! ### One voice -/

namespace Voice

theorem trusted_le (v : Voice) : v.trusted ≤ v.buffer.capacity := by
  rw [trusted]
  split
  · next h =>
    have := h.2.2
    omega
  · exact Nat.zero_le _

theorem isValidCount_eq (v : Voice) :
    Mixer.isValidCount v.count v.buffer = decide v.Credible := by
  rw [Mixer.isValidCount, ← Bool.decide_and]
  apply decide_eq_decide.mpr
  unfold Credible
  omega

/-- **What the mixer trusts of a voice,** and what it notes about it. -/
theorem trusted_eq (v : Voice) :
    Mixer.trusted v.enabled v.count v.buffer =
      (v.buffer.storage.extract 0 v.trusted,
        if v.isDoubtful then [Mixer.invalidCountEntry v.count] else []) := by
  rw [Mixer.trusted, isValidCount_eq, isDoubtful, trusted]
  cases v.enabled with
  | false => simp
  | true => by_cases h : v.Credible <;> simp [h]

theorem size_extract (v : Voice) : (v.buffer.storage.extract 0 v.trusted).size = v.trusted := by
  have : v.trusted ≤ v.buffer.storage.size := v.trusted_le
  rw [Array.size_extract]
  omega

theorem getD_extract (v : Voice) (i : Nat) :
    ((v.buffer.storage.extract 0 v.trusted).getD i 0).toInt = v.sample i := by
  have : v.trusted ≤ v.buffer.storage.size := v.trusted_le
  rw [sample, Array.getD_eq_getD_getElem?, Array.getD_eq_getD_getElem?, Array.getElem?_extract,
    Nat.zero_add]
  by_cases hi : i < v.trusted
  · rw [if_pos (by omega), if_pos hi]
  · rw [if_neg (by omega), if_neg hi]
    rfl

end Voice

/-! ### Two ways to fill a slot -/

/-- A blend of what can be used of a frame. -/
structure Blend.Carries (b : Blend) (m : Mixer) (frame : Option FrameAudio) (controls : Controls)
    (length : Nat) : Prop where
  scaled : ∀ i, b.scaled i = mixture frame controls i
  last : b.last = m.last
  available : b.available = usable frame controls length
  crossfade : b.crossfade = m.config.crossfadeLen.toNat

theorem Blend.Carries.target {b : Blend} {m : Mixer} {frame : Option FrameAudio}
    {controls : Controls} {length : Nat} (h : b.Carries m frame controls length) (i : Nat) :
    b.target i = level frame controls i := by
  rw [Blend.target, level, h.scaled]

namespace Mixer

variable {m : Mixer} {frame : Option FrameAudio} {controls : Controls} {length : Nat}

/-- The mixer once it has looked at a frame. -/
def counted (m : Mixer) (frame : Option FrameAudio) (controls : Controls) : Mixer :=
  { m with stats :=
    { m.stats with
      frames := m.stats.frames + 1
      missingFrames := m.stats.missingFrames + if frame.isNone then 1 else 0
      invalidCounts := m.stats.invalidCounts + (untrusted frame controls).length } }

/-- What is noted about a frame. -/
def remarks (frame : Option FrameAudio) (controls : Controls) : List Log.Entry :=
  (untrusted frame controls).map invalidCountEntry

/-- A frame of which both buffers arrived. -/
theorem mix_whole {v w : Voice} {number : Nat} (m : Mixer) (length : Nat)
    (hv : v.enabled = controls.fmEnabled) (hw : w.enabled = controls.psgEnabled)
    (hframe : frame = some ⟨number, some v.buffer, some w.buffer, v.count, w.count⟩) :
    m.mix frame controls length =
      if usable frame controls length = 0 then
        (m.counted frame controls).fadeOut length (remarks frame controls)
      else
        (m.counted frame controls).blendInto
          { fm := v.buffer.storage.extract 0 v.trusted
            psg := w.buffer.storage.extract 0 w.trusted
            volume := controls.volume.toNat, last := m.last
            available := usable frame controls length
            crossfade := m.config.crossfadeLen.toNat }
          length (remarks frame controls) := by
  have hvoices : voices controls frame = [v, w] := by rw [hframe, voices, ← hv, ← hw]
  have hnotes : (if v.isDoubtful then [invalidCountEntry v.count] else []) ++
      (if w.isDoubtful then [invalidCountEntry w.count] else []) = remarks frame controls := by
    rw [remarks, untrusted, hvoices]
    cases hv : v.isDoubtful <;> cases hw : w.isDoubtful <;> simp [hv, hw]
  have hcount : (remarks frame controls).length = (untrusted frame controls).length :=
    List.length_map _
  have husable : usable frame controls length =
      if controls.enabled then min (max v.trusted w.trusted) length else 0 := by
    rw [usable, hvoices]
    simp
  subst hframe
  simp only [mix, mixChips, ← hv, ← hw, Voice.trusted_eq, Voice.size_extract, hnotes, hcount,
    husable]
  cases controls.enabled <;> simp [counted]

/-- A frame has two voices, or else it is of no use. -/
theorem whole_or_broken (frame : Option FrameAudio) (controls : Controls) :
    (∃ (v w : Voice) (number : Nat), v.enabled = controls.fmEnabled ∧
      w.enabled = controls.psgEnabled ∧
      frame = some ⟨number, some v.buffer, some w.buffer, v.count, w.count⟩ ∧
      voices controls frame = [v, w]) ∨
    voices controls frame = [] ∧ ∀ (m : Mixer) (length : Nat), m.mix frame controls length =
      (m.counted frame controls).fadeOut length (remarks frame controls) := by
  cases frame with
  | none => exact .inr ⟨rfl, fun _ _ => rfl⟩
  | some a =>
    obtain ⟨number, fm, psg, fmCount, psgCount⟩ := a
    cases fm with
    | none => exact .inr ⟨rfl, fun _ _ => rfl⟩
    | some fm =>
      cases psg with
      | none => exact .inr ⟨rfl, fun _ _ => rfl⟩
      | some psg =>
        exact .inl ⟨⟨controls.fmEnabled, fmCount, fm⟩, ⟨controls.psgEnabled, psgCount, psg⟩,
          number, rfl, rfl, rfl, rfl⟩

/-- **Nothing to use:** the slot is filled with the decay of the last sample. -/
theorem mix_faded (m : Mixer) (h : usable frame controls length = 0) :
    m.mix frame controls length =
      (m.counted frame controls).fadeOut length (remarks frame controls) := by
  obtain ⟨v, w, number, hv, hw, hframe, -⟩ | ⟨-, hbroken⟩ := whole_or_broken frame controls
  · rw [mix_whole m length hv hw hframe, if_pos h]
  · exact hbroken m length

/-- **Something to use:** the slot is filled with a blend of it. -/
theorem mix_blended (m : Mixer) (h : 0 < usable frame controls length) :
    ∃ b : Blend, b.Carries m frame controls length ∧ m.mix frame controls length =
      (m.counted frame controls).blendInto b length (remarks frame controls) := by
  obtain ⟨v, w, number, hv, hw, hframe, hvoices⟩ | ⟨hnone, -⟩ := whole_or_broken frame controls
  · have hne : usable frame controls length ≠ 0 := Nat.pos_iff_ne_zero.mp h
    refine ⟨_, ⟨fun i => ?_, rfl, rfl, rfl⟩,
      (mix_whole m length hv hw hframe).trans (if_neg hne)⟩
    rw [Blend.scaled, Blend.raw, mixture, hvoices, v.getD_extract, w.getD_extract]
    simp
  · simp [usable, hnone] at h

end Mixer

end ConsolePipeline.Mixing
