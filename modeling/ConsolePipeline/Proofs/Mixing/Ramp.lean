import ConsolePipeline.Mixing.Mixer
import ConsolePipeline.Proofs.Stereo.Share

namespace ConsolePipeline.Mixing

open Sound Stereo

/-!
# Ramps

The first samples of a blend are ramped from the last sample of the frame before. The ramp neither
clicks nor overshoots: each of its samples lies between that last sample and the level it is on the
way to, has come its share of the way and no more, and fits a sample as it is. Past the ramp a
sample is the level itself, and so is the last one of a frame that ends on the ramp.

* `stepsAcross` — how many steps the ramp takes.
* `Ramped`, `ramped_of_share` — all that is known of samples on a ramp, and what it rests on.
* `Blend.ramped`, `emitted_range` — the samples of a blend are such, and fit.
* `Mixer.getD_blendInto`, `getD_blendInto_pad`, `last_blendInto` — the words that they become.
-/

/-- The steps of a ramp: one more than it has samples, or as many if the frame ends on it. -/
def stepsAcross (crossfade count : Nat) : Nat :=
  if count ≤ crossfade then count else crossfade + 1

/-- **Samples ramped** from `start` to the levels `target`. -/
structure Ramped (start : Int) (target heard : Nat → Int) (crossfade count : Nat) : Prop where
  /-- On the ramp, a sample has come its share of the way. -/
  share : ∀ i, i < min crossfade count →
    heard i = start + share (target i - start) (i + 1) (stepsAcross crossfade count)
  /-- It has not gone past either end of it. -/
  between : ∀ i, i < min crossfade count →
    min start (target i) ≤ heard i ∧ heard i ≤ max start (target i)
  /-- It is no further from the start than its share allows. -/
  distance : ∀ i, i < min crossfade count →
    (heard i - start).natAbs ≤
      (target i - start).natAbs * (i + 1) / stepsAcross crossfade count
  /-- Past the ramp, a sample is the level itself. -/
  after : ∀ i, crossfade ≤ i → i < count → heard i = target i
  /-- So is the last one, on the ramp or past it. -/
  ends : heard (count - 1) = target (count - 1)
  /-- Toward one level, the ramp never turns back. -/
  monotone : ∀ level, (∀ i, i < min crossfade count → target i = level) →
    ∀ i j, i ≤ j → j < min crossfade count →
      (start ≤ level → start ≤ heard i ∧ heard i ≤ heard j ∧ heard j ≤ level) ∧
      (level ≤ start → level ≤ heard j ∧ heard j ≤ heard i ∧ heard i ≤ start)

/-! ### Samples on a ramp -/

section

variable {start : Int} {target heard : Nat → Int} {crossfade count i : Nat}

/-- On the ramp there is always a step to take. -/
theorem le_stepsAcross (h : i < min crossfade count) : i + 1 ≤ stepsAcross crossfade count := by
  rw [stepsAcross]
  split <;> omega

/-- The ramp takes no more steps than the frame has samples. -/
theorem stepsAcross_le (crossfade count : Nat) : stepsAcross crossfade count ≤ count := by
  rw [stepsAcross]
  split <;> omega

/-- A frame that ends on the ramp takes the last step with its last sample. -/
theorem stepsAcross_of_le (h : count ≤ crossfade) : stepsAcross crossfade count = count :=
  if_pos h

/-- **Taking each step's share** is all that it needs. -/
theorem ramped_of_share (hpos : 0 < count)
    (hshare : ∀ i, i < min crossfade count →
      heard i = start + Stereo.share (target i - start) (i + 1) (stepsAcross crossfade count))
    (hafter : ∀ i, crossfade ≤ i → i < count → heard i = target i) :
    Ramped start target heard crossfade count where
  share := hshare
  between i hi := by
    have := share_between (target i - start) (le_stepsAcross hi)
    rw [hshare i hi]
    omega
  distance i hi := by
    rw [hshare i hi, ← natAbs_share]
    omega
  after := hafter
  ends := by
    -- A ramp that is cut short by the end of the frame has its last step there; a shorter one has
    -- ended before.
    by_cases hramp : count ≤ crossfade
    · have hlast := hshare (count - 1) (by omega)
      have hsteps : count - 1 + 1 = stepsAcross crossfade count := by
        rw [stepsAcross_of_le hramp]
        omega
      rw [hsteps, share_self _ (by omega)] at hlast
      omega
    · exact hafter _ (by omega) (by omega)
  monotone level hlevel i j hij hj := by
    have hi : i < min crossfade count := by omega
    have hfar := share_between (level - start) (le_stepsAcross hj)
    have hnear := share_between (level - start) (le_stepsAcross hi)
    obtain ⟨hup, hdown⟩ := share_mono (level - start) (Nat.add_le_add_right hij 1)
      (stepsAcross crossfade count)
    rw [hshare i hi, hshare j hj, hlevel i hi, hlevel j hj]
    constructor
    · intro hle
      have := hup (by omega)
      omega
    · intro hle
      have := hdown (by omega)
      omega

end

/-! ### Samples of a blend -/

namespace Blend

variable {b : Blend} {i : Nat}

theorem rampSteps_eq (b : Blend) : b.rampSteps = stepsAcross b.crossfade b.available := by
  rw [rampSteps, stepsAcross, ramp]
  by_cases h : b.available ≤ b.crossfade
  · rw [if_pos (by omega), if_pos h]
    omega
  · rw [if_neg (by omega), if_neg h]
    omega

theorem target_range (b : Blend) (i : Nat) : -32768 ≤ b.target i ∧ b.target i < 32768 := by
  rw [target, clampSample]
  omega

/-- The share of the way that a sample on the ramp has come. -/
theorem emitted_ramp (h : i < b.ramp) :
    b.emitted i = b.last.toInt +
      share (b.target i - b.last.toInt) (i + 1) (stepsAcross b.crossfade b.available) := by
  rw [emitted, if_pos h, share, rampSteps_eq, Int.natCast_add]
  rfl

theorem emitted_of_not_ramp (h : ¬i < b.ramp) : b.emitted i = b.target i :=
  if_neg h

/-- A blend emits its targets, ramped. -/
theorem ramped (hpos : 0 < b.available) :
    Ramped b.last.toInt b.target b.emitted b.crossfade b.available :=
  ramped_of_share hpos (fun _ hi => emitted_ramp hi)
    (fun _ hi _ => emitted_of_not_ramp (by rw [ramp]; omega))

/-- No sample leaves the range, so none is cut off when it becomes a word. -/
theorem emitted_range (b : Blend) (i : Nat) (hi : i < b.available) :
    -32768 ≤ b.emitted i ∧ b.emitted i < 32768 := by
  have htarget := b.target_range i
  have hlast := b.last.le_toInt
  have hlast' := b.last.toInt_lt
  by_cases hramp : i < b.ramp
  · have := (b.ramped (by omega)).between i hramp
    omega
  · rw [emitted_of_not_ramp hramp]
    exact htarget

/-! ### Words of a slot -/

theorem toInt_left_word (hi : i < b.available) : (left (b.word i)).toInt = b.emitted i := by
  obtain ⟨hmin, hmax⟩ := b.emitted_range i hi
  rw [word, mono, left_pack]
  exact Int16.toInt_ofInt_of_le hmin hmax

theorem size_words (b : Blend) : b.words.size = b.available := by
  rw [words, Array.size_map, Array.size_range]

theorem getElem?_words (hi : i < b.available) : b.words[i]? = some (b.word i) := by
  rw [words, Array.getElem?_map, Array.getElem?_range, if_pos hi, Option.map_some]

theorem back?_words (h : 0 < b.available) : b.words.back? = some (b.word (b.available - 1)) := by
  rw [Array.back?, size_words, getElem?_words (by omega)]

end Blend

namespace Mixer

variable {m : Mixer} {b : Blend} {length i : Nat} {notices : List Log.Entry}

/-- The words of a slot that come from samples. -/
theorem getD_blendInto (hi : i < b.available) :
    (m.blendInto b length notices).words.getD i silence = b.word i := by
  have hsize : i < b.words.size := by rwa [b.size_words]
  rw [blendInto, Array.getD_eq_getD_getElem?, Array.getElem?_append_left hsize,
    Blend.getElem?_words hi, Option.getD_some]

/-- The words that pad it. -/
theorem getD_blendInto_pad (hpos : 0 < b.available) (hi : b.available ≤ i) (hlt : i < length) :
    (m.blendInto b length notices).words.getD i silence = b.word (b.available - 1) := by
  have hsize : b.words.size ≤ i := by rwa [b.size_words]
  rw [blendInto, Array.getD_eq_getD_getElem?, Array.getElem?_append_right hsize,
    Blend.back?_words hpos, b.size_words, Array.getElem?_replicate, if_pos (by omega)]
  rfl

theorem last_blendInto (hpos : 0 < b.available) :
    (m.blendInto b length notices).mixer.last = left (b.word (b.available - 1)) := by
  rw [blendInto, Blend.back?_words hpos]
  rfl

end Mixer

end ConsolePipeline.Mixing
