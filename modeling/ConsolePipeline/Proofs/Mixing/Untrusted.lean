import Mathlib.Data.List.Forall2
import ConsolePipeline.Proofs.Mixing.Checked

namespace ConsolePipeline.Mixing

open Sound Stereo

/-!
# Mixing what is not to be trusted

Whatever arrives, the mixer fills its slot, and it is known exactly with what: how many words come
from samples, what pads the rest or takes the place of all of them, where the next frame goes on,
and by how much each counter rises. No step of it leaves 32 bits or looks past the end of a buffer.
And nothing of the frame is heard but the samples that its counts answer for: what is left in a
buffer from frames before makes no difference.

* `Mixed.Exact` — the outcome for one slot.
* `Voice.SameUse` — two voices that differ only in what nobody may hear.
* `Mixer.mix_exact` — the mixer is exact, on any frame.
-/

/-- **The outcome for one slot,** of `length` words. -/
structure Mixed.Exact (m : Mixer) (frame : Option FrameAudio) (controls : Controls) (length : Nat)
    (out : Mixed) : Prop where
  size : out.words.size = length
  /-- Both sides of a word are the same sample. -/
  mono : ∀ w ∈ out.words, left w = right w
  used : out.used = usable frame controls length
  /-- Words past the samples repeat the last one that comes from a sample. -/
  held : 0 < out.used → ∀ i, out.used ≤ i → i < length →
    out.words.getD i silence = out.words.getD (out.used - 1) silence
  /-- Without samples, all words are the decay of the last sample before. -/
  faded : out.used = 0 → out.words = fade m.last m.config.fadePole.toNat length
  /-- The last sample is that of the last word, if there is one. -/
  last : out.mixer.last = (out.words.back?.map left).getD m.last
  config : out.mixer.config = m.config
  /-- Each counter rises by what it counts. -/
  stats : out.mixer.stats =
    { frames := m.stats.frames + 1
      fadedFrames := m.stats.fadedFrames + if out.used = 0 then 1 else 0
      missingFrames := m.stats.missingFrames + if frame.isNone then 1 else 0
      invalidCounts := m.stats.invalidCounts + (untrusted frame controls).length
      shortFrames := m.stats.shortFrames + if 0 < out.used ∧ out.used < length then 1 else 0
      clippedSamples := m.stats.clippedSamples +
        (List.range out.used).countP fun i =>
          mixture frame controls i < -32768 || 32768 ≤ mixture frame controls i }
  notices : out.notices = (untrusted frame controls).map Mixer.invalidCountEntry

/-- **Two voices that differ only in what nobody may hear:** in anything if the chip is switched
    off, else in their buffers past the count, or anywhere in them if the count cannot be right. -/
structure Voice.SameUse (v w : Voice) : Prop where
  enabled : v.enabled = w.enabled
  count : v.enabled → v.count = w.count
  credible : v.enabled → (v.Credible ↔ w.Credible)
  samples : v.enabled → v.Credible →
    ∀ i : Nat, i < v.count → v.buffer.storage.getD i 0 = w.buffer.storage.getD i 0

/-! ### What nobody may hear -/

namespace Voice

variable {v w : Voice} {vs ws : List Voice}

namespace SameUse

theorem trusted (h : v.SameUse w) : v.trusted = w.trusted := by
  rw [Voice.trusted, Voice.trusted, ← h.enabled]
  by_cases hon : v.enabled = true
  · simp only [h.count hon, h.credible hon]
  · rw [if_neg fun hv => hon hv.1, if_neg fun hw => hon hw.1]

theorem isDoubtful (h : v.SameUse w) : v.isDoubtful = w.isDoubtful := by
  rw [Voice.isDoubtful, Voice.isDoubtful, ← h.enabled]
  by_cases hon : v.enabled = true
  · rw [decide_eq_decide.mpr (h.credible hon)]
  · rw [Bool.not_eq_true] at hon
    rw [hon, Bool.false_and, Bool.false_and]

/-- The samples that can be used are the same. -/
theorem extract (h : v.SameUse w) :
    v.buffer.storage.extract 0 v.trusted = w.buffer.storage.extract 0 w.trusted := by
  apply Array.ext
  · rw [v.size_extract, w.size_extract, h.trusted]
  · intro i hv hw
    have hlt : i < v.trusted := by rwa [v.size_extract] at hv
    -- A place below the count of samples that are trusted shows that the voice is on and credible.
    have hused : v.enabled ∧ v.Credible ∧ i < v.count.toNat := by
      rw [Voice.trusted] at hlt
      split at hlt
      · next hon => exact ⟨hon.1, hon.2, hlt⟩
      · exact absurd hlt (Nat.not_lt_zero i)
    have hsample := h.samples hused.1 hused.2.1 i (by omega)
    have hleft : i < v.buffer.storage.size := Nat.lt_of_lt_of_le hlt v.trusted_le
    have hright : i < w.buffer.storage.size := by
      rw [h.trusted] at hlt
      exact Nat.lt_of_lt_of_le hlt w.trusted_le
    rw [Array.getElem_extract, Array.getElem_extract]
    simpa [Array.getD_eq_getD_getElem?, hleft, hright] using hsample

end SameUse

theorem map_trusted (h : List.Forall₂ SameUse vs ws) : vs.map trusted = ws.map trusted := by
  induction h with
  | nil => rfl
  | cons hv _ ih => rw [List.map_cons, List.map_cons, hv.trusted, ih]

/-- The same counts are noted as wrong. -/
theorem map_count_filter (h : List.Forall₂ SameUse vs ws) :
    (vs.filter isDoubtful).map count = (ws.filter isDoubtful).map count := by
  induction h with
  | nil => rfl
  | @cons v w _ _ hv _ ih =>
    rw [List.filter_cons, List.filter_cons, ← hv.isDoubtful]
    by_cases hdoubtful : v.isDoubtful = true
    · have hon : v.enabled = true := by
        rw [isDoubtful, Bool.and_eq_true] at hdoubtful
        exact hdoubtful.1
      rw [if_pos hdoubtful, if_pos hdoubtful, List.map_cons, List.map_cons, hv.count hon, ih]
    · rw [if_neg hdoubtful, if_neg hdoubtful, ih]

end Voice

/-! ### One slot -/

theorem left_eq_right_mono (s : Int16) : left (mono s) = right (mono s) := by
  rw [mono, left_pack, right_pack]

/-- A level is held to the range of a sample exactly when it is outside. -/
theorem clampSample_ne (v : Int) :
    (clampSample v != v) = (decide (v < -32768) || decide (32768 ≤ v)) := by
  rw [Bool.eq_iff_iff, bne_iff_ne, Bool.or_eq_true, decide_eq_true_eq, decide_eq_true_eq,
    clampSample]
  omega

namespace Mixer

variable {length : Nat} {frame : Option FrameAudio} {controls : Controls}

/-- A slot without samples. -/
theorem exact_fadeOut (m : Mixer) (h : usable frame controls length = 0) :
    Mixed.Exact m frame controls length
      ((m.counted frame controls).fadeOut length (remarks frame controls)) where
  size := size_fadeOut _ _ _
  mono w hw := by
    rw [fadeOut, ← Array.mem_toList_iff, fade_toList, List.mem_map] at hw
    obtain ⟨i, -, rfl⟩ := hw
    exact left_eq_right_mono _
  used := h.symm
  held hpos := absurd hpos (Nat.lt_irrefl 0)
  faded _ := rfl
  last := rfl
  config := rfl
  stats := rfl
  notices := rfl

/-- A slot with samples. -/
theorem exact_blendInto {b : Blend} (m : Mixer) (hpos : 0 < b.available)
    (hb : b.Carries m frame controls length) :
    Mixed.Exact m frame controls length
      ((m.counted frame controls).blendInto b length (remarks frame controls)) where
  size := size_blendInto _ (by rw [hb.available]; exact usable_le _ _ _) _
  mono w hw := by
    rw [blendInto, Blend.back?_words hpos, Array.mem_append, Array.mem_replicate] at hw
    obtain hw | ⟨-, rfl⟩ := hw
    · rw [Blend.words, Array.mem_map] at hw
      obtain ⟨i, -, rfl⟩ := hw
      exact left_eq_right_mono _
    · exact left_eq_right_mono _
  used := hb.available
  held _ i hi hlt := by
    rw [getD_blendInto_pad hpos hi hlt]
    exact (getD_blendInto (Nat.sub_lt hpos Nat.one_pos)).symm
  faded h := absurd h (Nat.pos_iff_ne_zero.mp hpos)
  last := by
    rw [last_blendInto hpos, blendInto, Blend.back?_words hpos, Array.back?_append,
      Array.back?_replicate, Blend.back?_words hpos]
    split <;> rfl
  config := rfl
  stats := by
    have hclipped : b.clipped = (List.range b.available).countP fun i =>
        mixture frame controls i < -32768 || 32768 ≤ mixture frame controls i := by
      rw [Blend.clipped]
      refine List.countP_congr fun i _ => ?_
      rw [Blend.target, clampSample_ne, hb.scaled]
    have hused : ¬b.available = 0 := Nat.pos_iff_ne_zero.mp hpos
    simp [blendInto, counted, hclipped, hused, hpos]
  notices := rfl

/-- **Whatever arrives, the outcome is exact.** -/
theorem exact_mix (m : Mixer) (frame : Option FrameAudio) (controls : Controls) (length : Nat) :
    Mixed.Exact m frame controls length (m.mix frame controls length) := by
  by_cases h : usable frame controls length = 0
  · rw [mix_faded m h]
    exact exact_fadeOut m h
  · obtain ⟨b, hb, hmix⟩ := m.mix_blended (Nat.pos_iff_ne_zero.mpr h)
    rw [hmix]
    exact exact_blendInto m (by rw [hb.available]; exact Nat.pos_iff_ne_zero.mpr h) hb

/-- A slot takes no more samples than the largest buffer holds. -/
theorem usable_le_capacity {n : Nat}
    (hcap : ∀ v ∈ voices controls frame, v.buffer.capacity ≤ n) :
    usable frame controls length ≤ n := by
  rw [usable]
  split
  · refine Nat.le_trans (Nat.min_le_left _ _) ?_
    generalize voices controls frame = vs at hcap
    induction vs with
    | nil => exact Nat.zero_le _
    | cons v vs ih =>
      rw [List.map_cons, List.foldr_cons]
      exact Nat.max_le.mpr ⟨Nat.le_trans v.trusted_le (hcap v List.mem_cons_self),
        ih fun w hw => hcap w (List.mem_cons_of_mem v hw)⟩
  · exact Nat.zero_le _

/-- **What nobody may hear is not heard:** not in the words, and not in anything that is kept. -/
theorem mix_sameUse {frame' : Option FrameAudio} (m : Mixer)
    (hmissing : frame.isNone = frame'.isNone)
    (hvoices : List.Forall₂ Voice.SameUse (voices controls frame) (voices controls frame')) :
    m.mix frame controls length = m.mix frame' controls length := by
  have husable : usable frame controls length = usable frame' controls length := by
    rw [usable, usable, Voice.map_trusted hvoices]
  have huntrusted : untrusted frame controls = untrusted frame' controls :=
    Voice.map_count_filter hvoices
  have hcounted : m.counted frame controls = m.counted frame' controls := by
    rw [counted, counted, huntrusted, hmissing]
  -- A frame is whole or broken, and its voices tell which: the two cannot differ in that.
  obtain ⟨v, w, n, hv, hw, hframe, hvw⟩ | ⟨hnone, hbroken⟩ := whole_or_broken frame controls
  · obtain ⟨v', w', n', hv', hw', hframe', hvw'⟩ | ⟨hnone', -⟩ := whole_or_broken frame' controls
    · rw [hvw, hvw', List.forall₂_cons, List.forall₂_cons] at hvoices
      obtain ⟨hfm, hpsg, -⟩ := hvoices
      rw [mix_whole m length hv hw hframe, mix_whole m length hv' hw' hframe', hfm.extract,
        hpsg.extract, husable, hcounted, remarks, remarks, huntrusted]
    · rw [hvw, hnone'] at hvoices
      cases hvoices
  · obtain ⟨v', w', n', hv', hw', hframe', hvw'⟩ | ⟨-, hbroken'⟩ := whole_or_broken frame' controls
    · rw [hnone, hvw'] at hvoices
      cases hvoices
    · rw [hbroken, hbroken', hcounted, remarks, remarks, huntrusted]

/-- **Mixing is total, exact and deaf to what is stale.** -/
theorem mix_exact (m : Mixer) (frame : Option FrameAudio) (controls : Controls) (length : Nat)
    (hcap : ∀ v ∈ voices controls frame, v.buffer.capacity ≤ bufferCapacity) :
    m.mix? frame controls length = some (m.mix frame controls length) ∧
      Mixed.Exact m frame controls length (m.mix frame controls length) ∧
      ∀ frame' : Option FrameAudio, frame.isNone = frame'.isNone →
        List.Forall₂ Voice.SameUse (voices controls frame) (voices controls frame') →
        m.mix frame controls length = m.mix frame' controls length :=
  have hfits : usable frame controls length ≤ 32768 :=
    Nat.le_trans (usable_le_capacity hcap) (by decide)
  ⟨m.mix?_eq hfits, m.exact_mix frame controls length, fun _ => m.mix_sameUse⟩

/-- Two samples of one chip, with a sample left over from before, and a wrong count of the other. -/
def staleFrame (leftover : Int16) : FrameAudio where
  frame := 0
  fm := some ⟨#[-7, 4, leftover], 3, by simp⟩
  psg := some ⟨#[leftover], 1, by simp⟩
  fmCount := 2
  psgCount := -1

/-- The wrong count is noted, two words come from samples, and what was left over is not heard. -/
theorem mix_exact_stale :
    (∀ v ∈ voices {} (staleFrame 5), v.buffer.capacity ≤ bufferCapacity) ∧
      List.Forall₂ Voice.SameUse (voices {} (staleFrame 5)) (voices {} (staleFrame 9)) ∧
      (({ config := {} } : Mixer).mix? (staleFrame 5) {} 4).isSome = true ∧
      (({ config := {} } : Mixer).mix (staleFrame 5) {} 4).used = 2 ∧
      (({ config := {} } : Mixer).mix (staleFrame 5) {} 4).mixer.stats =
        { frames := 1, invalidCounts := 1, shortFrames := 1 } ∧
      ({ config := {} } : Mixer).mix (staleFrame 5) {} 4 =
        ({ config := {} } : Mixer).mix (staleFrame 9) {} 4 := by
  have hcap : ∀ v ∈ voices {} (staleFrame 5), v.buffer.capacity ≤ bufferCapacity := by decide
  have hsame :
      List.Forall₂ Voice.SameUse (voices {} (staleFrame 5)) (voices {} (staleFrame 9)) := by
    refine .cons ⟨rfl, fun _ => rfl, fun _ => by decide, fun _ _ i hi => ?_⟩
      (.cons ⟨rfl, fun _ => rfl, fun _ => by decide, fun _ hpsg => absurd hpsg (by decide)⟩ .nil)
    match i with
    | 0 | 1 => rfl
    | i + 2 => exact absurd hi (by show ¬((i + 2 : Nat) : Int) < 2; omega)
  obtain ⟨htotal, hexact, hdeaf⟩ := mix_exact { config := {} } (staleFrame 5) {} 4 hcap
  have hused := hexact.used.trans (by decide : usable (staleFrame 5) {} 4 = 2)
  refine ⟨hcap, hsame, ?_, hused, ?_, hdeaf _ rfl hsame⟩
  · rw [htotal]
    rfl
  · rw [hexact.stats, hused]
    decide

end Mixer

end ConsolePipeline.Mixing
