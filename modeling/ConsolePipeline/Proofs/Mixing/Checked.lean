import ConsolePipeline.Proofs.Mixing.Ramp
import ConsolePipeline.Proofs.Mixing.Voices

namespace ConsolePipeline.Mixing

open Sound Stereo

/-!
# Mixing in 32 bits

The mixer is at work on a machine whose integers have 32 bits, and whose arrays end where they end.
Here it is written once more with every such step checked: a sum or a product that leaves the range,
a division by zero, and a look past the end of an array have no result. Up to 32768 words, which is
eight times what a buffer of the usual capacity holds, the checks never fail, and the outcome is the
same.

* `int32?`, `quotient?`, `slice?` — the steps that can fail.
* `Mixer.mix?` — the mixer, checked.
* `Mixer.mix?_eq` — the checks change nothing.
-/

/-- An integer that fits into 32 bits. -/
def int32? (v : Int) : Option Int :=
  if -2147483648 ≤ v ∧ v < 2147483648 then some v else none

/-- A quotient rounded toward zero. -/
def quotient? (a b : Int) : Option Int :=
  if b = 0 then none else int32? (a.tdiv b)

/-- The first `n` places of an array that has as many. -/
def slice? (a : Array Int16) (n : Nat) : Option (Array Int16) :=
  if n ≤ a.size then some (a.extract 0 n) else none

/-- One step of the decay. -/
def decayStep? (level : Int) (pole : Nat) : Option Int := do
  let kept ← int32? (256 - (min pole 256 : Nat))
  let product ← int32? (level * kept)
  quotient? product 256

/-- Append `n` words of decay to `out`; the answer tells also at which level they end. -/
def fadeOnto? (pole : Nat) : (n : Nat) → (level : Int) → (out : Array Word) →
    Option (Array Word × Int)
  | 0, level, out => some (out, level)
  | n + 1, level, out => do
    let next ← decayStep? level pole
    fadeOnto? pole n next (out.push (mono (sample next)))

namespace Blend

/-- The value that a sample has before the ramp. -/
def target? (b : Blend) (i : Nat) : Option Int := do
  let sum ← int32? ((b.fm.getD i 0).toInt + (b.psg.getD i 0).toInt)
  let product ← int32? (sum * b.volume)
  return clampSample (product / 128)

/-- The value of a sample. -/
def emitted? (b : Blend) (i : Nat) : Option Int := do
  let target ← b.target? i
  if i < b.ramp then
    let difference ← int32? (target - b.last.toInt)
    let number ← int32? (i + 1)
    let product ← int32? (difference * number)
    let steps ← int32? b.rampSteps
    let part ← quotient? product steps
    int32? (b.last.toInt + part)
  else
    return target

end Blend

namespace Mixer

/-- Replace a slot by the decay of the last sample. -/
def fadeOut? (m : Mixer) (length : Nat) (notices : List Log.Entry) : Option Mixed := do
  let (words, level) ← fadeOnto? m.config.fadePole.toNat length m.last.toInt #[]
  let stats := { m.stats with fadedFrames := m.stats.fadedFrames + 1 }
  return ⟨{ m with last := sample level, stats }, words, 0, notices⟩

/-- How many samples of a chip count. -/
def sanitized (enabled : Bool) (count : Int) (buffer : SampleBuffer) : Nat × List Log.Entry :=
  if !enabled then (0, [])
  else if isValidCount count buffer then (count.toNat, [])
  else (0, [invalidCountEntry count])

/-- Mix two chips' samples into a slot, padded with its last sample. -/
def blendInto? (m : Mixer) (b : Blend) (length : Nat) (notices : List Log.Entry) :
    Option Mixed := do
  let samples ← (List.range b.available).mapM b.emitted?
  let words := (samples.map fun s => mono (sample s)).toArray
  let hold ← words[b.available - 1]?
  let stats :=
    { m.stats with
      shortFrames := m.stats.shortFrames + if b.available < length then 1 else 0
      clippedSamples := m.stats.clippedSamples + b.clipped }
  if b.available ≤ length then
    return ⟨{ m with last := left hold, stats },
      words ++ Array.replicate (length - b.available) hold, b.available, notices⟩
  else none

/-- Mix a frame of which both buffers arrived. -/
def mixChips? (m : Mixer) (frame : FrameAudio) (fm psg : SampleBuffer) (controls : Controls)
    (length : Nat) : Option Mixed := do
  let (fmCount, fmNotes) := sanitized controls.fmEnabled frame.fmCount fm
  let (psgCount, psgNotes) := sanitized controls.psgEnabled frame.psgCount psg
  let notices := fmNotes ++ psgNotes
  let m :=
    { m with stats :=
      { m.stats with invalidCounts := m.stats.invalidCounts + notices.length } }
  let available := min (max fmCount psgCount) length
  if !controls.enabled || available = 0 then
    m.fadeOut? length notices
  else
    let fm ← slice? fm.storage fmCount
    let psg ← slice? psg.storage psgCount
    m.blendInto?
      { fm, psg, volume := controls.volume.toNat, last := m.last
        available, crossfade := m.config.crossfadeLen.toNat }
      length notices

/-- **All words of a slot,** or nothing if a step on the way to them fails. -/
def mix? (m : Mixer) (frame : Option FrameAudio) (controls : Controls) (length : Nat) :
    Option Mixed :=
  let m := { m with stats := { m.stats with frames := m.stats.frames + 1 } }
  match frame with
  | none =>
    let stats := { m.stats with missingFrames := m.stats.missingFrames + 1 }
    { m with stats }.fadeOut? length []
  | some frame =>
    match frame.fm, frame.psg with
    | some fm, some psg => m.mixChips? frame fm psg controls length
    | _, _ => m.fadeOut? length []

end Mixer

/-! ### The checks never fail -/

theorem int32?_eq {v : Int} (h : v.natAbs < 2147483648) : int32? v = some v :=
  if_pos (by omega)

theorem some_bind {α β : Type} (a : α) (f : α → Option β) : (some a >>= f) = f a :=
  rfl

/-- A step that fits is taken, and the rest follows. -/
theorem int32?_bind {α : Type} {v : Int} (h : v.natAbs < 2147483648) (f : Int → Option α) :
    (int32? v >>= f) = f v := by
  rw [int32?_eq h]
  rfl

theorem quotient?_eq {a b : Int} (hb : b ≠ 0) (h : (a.tdiv b).natAbs < 2147483648) :
    quotient? a b = some (a.tdiv b) := by
  rw [quotient?, if_neg hb, int32?_eq h]

theorem natAbs_toInt_le (s : Int16) : s.toInt.natAbs ≤ 32768 := by
  have := s.le_toInt
  have := s.toInt_lt
  omega

/-- One step of the decay of a sample. -/
theorem decayStep?_eq {level : Int} (h : level.natAbs ≤ 32768) (pole : Nat) :
    decayStep? level pole = some (decayStep level pole) := by
  have hkept : (256 - ((min pole 256 : Nat) : Int)).natAbs ≤ 256 := by omega
  have hproduct : (level * (256 - ((min pole 256 : Nat) : Int))).natAbs ≤ 32768 * 256 := by
    rw [Int.natAbs_mul]
    exact Nat.mul_le_mul h hkept
  have hstep : (decayStep level pole).natAbs ≤ level.natAbs := natAbs_decayStep_le level pole
  rw [decayStep?, int32?_bind (by omega), int32?_bind (by omega)]
  exact quotient?_eq (by decide) (Nat.lt_of_le_of_lt (Nat.le_trans hstep h) (by decide))

theorem fadeOnto?_eq {level : Int} (h : level.natAbs ≤ 32768) (pole n : Nat) (out : Array Word) :
    fadeOnto? pole n level out = some (fadeOnto pole n level out, decay level pole n) := by
  induction n generalizing level out with
  | zero => rfl
  | succ n ih =>
    have hstep := Nat.le_trans (natAbs_decayStep_le level pole) h
    rw [fadeOnto?, decayStep?_eq h]
    exact ih hstep _

namespace Blend

variable {b : Blend} {i : Nat}

theorem target?_eq (hvolume : b.volume ≤ 255) (i : Nat) : b.target? i = some (b.target i) := by
  have hfm := natAbs_toInt_le (b.fm.getD i 0)
  have hpsg := natAbs_toInt_le (b.psg.getD i 0)
  have hsum : (b.raw i).natAbs ≤ 65536 := by
    rw [raw]
    omega
  have hproduct : (b.raw i * b.volume).natAbs ≤ 65536 * 255 := by
    rw [Int.natAbs_mul, Int.natAbs_natCast]
    exact Nat.mul_le_mul hsum hvolume
  rw [raw] at hsum hproduct
  rw [target?, int32?_bind (by omega), int32?_bind (by omega)]
  rfl

theorem emitted?_eq (hvolume : b.volume ≤ 255) (hsize : b.available ≤ 32768)
    (hi : i < b.available) : b.emitted? i = some (b.emitted i) := by
  have hlast := natAbs_toInt_le b.last
  have htarget := b.target_range i
  rw [emitted?, target?_eq hvolume, some_bind]
  by_cases hramp : i < b.ramp
  · have hsteps : i + 1 ≤ stepsAcross b.crossfade b.available := le_stepsAcross hramp
    have hmost := stepsAcross_le b.crossfade b.available
    have hdifference : (b.target i - b.last.toInt).natAbs ≤ 65535 := by
      have := b.last.le_toInt
      have := b.last.toInt_lt
      omega
    -- The one product that is large: it stays in range because the ramp is short enough.
    have hproduct : ((b.target i - b.last.toInt) * ((i : Int) + 1)).natAbs ≤
        65535 * 32768 := by
      rw [Int.natAbs_mul]
      exact Nat.mul_le_mul hdifference (by omega)
    have hbetween := share_between (b.target i - b.last.toInt) hsteps
    have hpart := natAbs_share_le (b.target i - b.last.toInt) hsteps
    have hquotient : quotient? ((b.target i - b.last.toInt) * ((i : Int) + 1))
        (stepsAcross b.crossfade b.available) =
          some (share (b.target i - b.last.toInt) (i + 1) (stepsAcross b.crossfade b.available)) :=
      quotient?_eq (by omega) (Nat.lt_of_le_of_lt hpart (by omega))
    rw [emitted_ramp hramp, if_pos hramp, rampSteps_eq]
    rw [int32?_bind (by omega), int32?_bind (by omega), int32?_bind (by omega),
      int32?_bind (by omega)]
    rw [hquotient, some_bind]
    exact int32?_eq (by omega)
  · rw [if_neg hramp, emitted_of_not_ramp hramp]
    rfl

theorem words_eq (b : Blend) :
    b.words = (((List.range b.available).map b.emitted).map fun s => mono (sample s)).toArray := by
  rw [words, List.map_map]
  apply Array.toList_inj.mp
  rw [Array.toList_map, Array.toList_range]
  rfl

end Blend

namespace Mixer

variable {m : Mixer} {length : Nat} {notices : List Log.Entry}

theorem fadeOut?_eq (m : Mixer) (length : Nat) (notices : List Log.Entry) :
    m.fadeOut? length notices = some (m.fadeOut length notices) := by
  rw [fadeOut?, fadeOnto?_eq (natAbs_toInt_le m.last), some_bind, fadeOut, last_fade]
  rfl

/-- What is left of a chip's count, and what is noted about it. -/
theorem sanitized_eq (v : Voice) :
    sanitized v.enabled v.count v.buffer =
      (v.trusted, if v.isDoubtful then [invalidCountEntry v.count] else []) := by
  rw [sanitized, v.isValidCount_eq, Voice.isDoubtful, Voice.trusted]
  cases v.enabled with
  | false => simp
  | true => by_cases h : v.Credible <;> simp [h]

theorem slice?_eq (v : Voice) :
    slice? v.buffer.storage v.trusted = some (v.buffer.storage.extract 0 v.trusted) :=
  if_pos v.trusted_le

/-- A look at every place of a list that never fails. -/
theorem mapM_eq_map {α β : Type} {f : α → Option β} {g : α → β} (l : List α)
    (h : ∀ a ∈ l, f a = some (g a)) : l.mapM f = some (l.map g) := by
  induction l with
  | nil => rfl
  | cons a l ih =>
    rw [List.mapM_cons, h a List.mem_cons_self, some_bind,
      ih fun a ha => h a (List.mem_cons_of_mem _ ha), some_bind]
    rfl

theorem blendInto?_eq {b : Blend} (hvolume : b.volume ≤ 255) (hpos : 0 < b.available)
    (hle : b.available ≤ length) (hsize : b.available ≤ 32768) (m : Mixer)
    (notices : List Log.Entry) :
    m.blendInto? b length notices = some (m.blendInto b length notices) := by
  have hsamples : (List.range b.available).mapM b.emitted? =
      some ((List.range b.available).map b.emitted) :=
    mapM_eq_map _ fun i hi => Blend.emitted?_eq hvolume hsize (List.mem_range.mp hi)
  rw [blendInto?, hsamples, some_bind, ← b.words_eq]
  dsimp only
  rw [Blend.getElem?_words (by omega), some_bind, if_pos hle, blendInto, Blend.back?_words hpos]
  rfl

theorem mixChips?_eq {controls : Controls} {v w : Voice} (m : Mixer) (number : Nat)
    (hv : v.enabled = controls.fmEnabled) (hw : w.enabled = controls.psgEnabled)
    (h : controls.enabled = true → min (max v.trusted w.trusted) length ≤ 32768) :
    m.mixChips? ⟨number, some v.buffer, some w.buffer, v.count, w.count⟩ v.buffer w.buffer controls
        length =
      some (m.mixChips ⟨number, some v.buffer, some w.buffer, v.count, w.count⟩ v.buffer w.buffer
        controls length) := by
  simp only [mixChips?, mixChips, ← hv, ← hw, sanitized_eq, Voice.trusted_eq, Voice.size_extract]
  split
  · exact fadeOut?_eq _ _ _
  · next hheard =>
    rw [Bool.or_eq_true, Bool.not_eq_true', decide_eq_true_eq, not_or] at hheard
    have hsize := h (by simpa using hheard.1)
    have hvolume : controls.volume.toNat ≤ 255 := Nat.le_of_lt_succ controls.volume.toNat_lt
    rw [slice?_eq, some_bind, slice?_eq, some_bind]
    exact blendInto?_eq hvolume (Nat.pos_iff_ne_zero.mpr hheard.2) (Nat.min_le_right _ _) hsize _ _

/-- **The checks change nothing,** as long as no more than 32768 words come from samples. -/
theorem mix?_eq {frame : Option FrameAudio} {controls : Controls} (m : Mixer)
    (h : usable frame controls length ≤ 32768) :
    m.mix? frame controls length = some (m.mix frame controls length) := by
  cases frame with
  | none => exact fadeOut?_eq _ _ _
  | some a =>
    obtain ⟨number, fm, psg, fmCount, psgCount⟩ := a
    cases fm with
    | none => exact fadeOut?_eq _ _ _
    | some fm =>
      cases psg with
      | none => exact fadeOut?_eq _ _ _
      | some psg =>
        refine mixChips?_eq (v := ⟨controls.fmEnabled, fmCount, fm⟩)
          (w := ⟨controls.psgEnabled, psgCount, psg⟩) _ number rfl rfl fun hon => ?_
        simpa [usable, voices, hon] using h

end Mixer

end ConsolePipeline.Mixing
