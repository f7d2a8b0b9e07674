import ConsolePipeline.Machine.Pipeline
import ConsolePipeline.Proofs.Mixing.Crossfade
import ConsolePipeline.Proofs.Mixing.Untrusted
import ConsolePipeline.Proofs.Playback.Double.Law
import ConsolePipeline.Proofs.Stereo.Decay

namespace ConsolePipeline.Mixing

open Playback Sound Stereo

/-!
# One decay conceals whatever is missing

Audio can be missing in two places. The mixer gets no frame and fills a slot with the decay of its
last sample. Or playback gets no slot in time and plays the last one again, which by then holds the
decay of its own last sample. The first decay is carried on from slot to slot as a sample, the
second as the last word of a block, but they are the same: where a frame is followed by blocks
without one, these are the slots that the mixer would have filled, had it been asked for as many
without a frame.

* `Mixer.starve` — the slots that a mixer fills while no frame arrives.
* `Mixer.starve_words`, `starve_last` — together they are one decay.
* `Double.words_block_fade`, `Lawful.getElem?_played_fade` — the blocks that playback puts in.
* `ConcealsAlike`, `Mixer.conceals_alike` — both are the same, and die away.
-/

/-! ### The mixer -/

namespace Mixer

/-- The words of the slots that a mixer fills while no frame arrives, and the mixer after them. -/
def starve : Mixer → List (Controls × Nat) → Array Word × Mixer
  | m, [] => (#[], m)
  | m, (controls, length) :: rest =>
    let out := m.mix none controls length
    let (words, later) := out.mixer.starve rest
    (out.words ++ words, later)

theorem words_mix_none (m : Mixer) (controls : Controls) (length : Nat) :
    (m.mix none controls length).words = fade m.last m.config.fadePole.toNat length :=
  rfl

theorem last_mix_none (m : Mixer) (controls : Controls) (length : Nat) :
    (m.mix none controls length).mixer.last =
      sample (decay m.last.toInt m.config.fadePole.toNat length) :=
  last_fade _ _ _

/-- Words in all slots. -/
def total : List (Controls × Nat) → Nat
  | [] => 0
  | (_, length) :: rest => length + total rest

theorem total_cons (controls : Controls) (length : Nat) (rest : List (Controls × Nat)) :
    total ((controls, length) :: rest) = length + total rest :=
  rfl

/-- Slots that are all of one length. -/
theorem total_alike (missing : List Controls) (length : Nat) :
    total (missing.map (·, length)) = missing.length * length := by
  induction missing with
  | nil => exact (Nat.zero_mul length).symm
  | cons controls rest ih =>
    rw [List.map_cons, total_cons, ih, List.length_cons, Nat.succ_mul, Nat.add_comm]

/-- The mixer is left where the decay stands. -/
theorem starve_last (m : Mixer) (slices : List (Controls × Nat)) :
    (m.starve slices).2.last =
      sample (decay m.last.toInt m.config.fadePole.toNat (total slices)) := by
  induction slices generalizing m with
  | nil => exact (Int16.ofInt_toInt m.last).symm
  | cons slice rest ih =>
    obtain ⟨controls, length⟩ := slice
    rw [total_cons, decay_add, ← toInt_sample_decay, ← last_mix_none m controls]
    exact ih _

/-- **Slot after slot, a mixer without frames goes on with one decay.** -/
theorem starve_words (m : Mixer) (slices : List (Controls × Nat)) :
    (m.starve slices).1 = fade m.last m.config.fadePole.toNat (total slices) := by
  induction slices generalizing m with
  | nil => rfl
  | cons slice rest ih =>
    obtain ⟨controls, length⟩ := slice
    -- The rest is a decay from where the first slot ends.
    rw [total_cons, fade_add, ← last_mix_none m controls]
    exact congrArg (fade _ _ _ ++ ·) (ih _)

end Mixer

end ConsolePipeline.Mixing

namespace ConsolePipeline.Playback

open Stereo

/-! ### Playback -/

namespace Double

variable {d : Double} {len pole n : Nat} {history : List Commit}

/-- The sample that a block ends on, on the left. -/
def lastOf (block : Block) : Int16 :=
  left (block.words.back?.getD silence)

theorem block_of_isFade (h : (block len pole history (n + 1)).isFade) :
    block len pole history (n + 1) = .fade (afterglow pole (block len pole history n).words) := by
  cases hdue : due len history (n + 1) with
  | some c =>
    rw [block_succ_due hdue] at h
    cases h
  | none => exact block_succ_none hdue

/-- **Block after block without a frame, playback goes on with one decay.** -/
theorem words_block_fade {k : Nat} (hpos : 0 < len)
    (hsize : (block len pole history n).words.size = len)
    (h : ∀ j ≤ k, (block len pole history (n + j + 1)).isFade) :
    (block len pole history (n + k + 1)).words =
      fade (sample (decay (lastOf (block len pole history n)).toInt pole (k * len))) pole len := by
  induction k with
  | zero =>
    rw [block_of_isFade (h 0 (Nat.le_refl 0)), Nat.zero_mul, decay, sample, Int16.ofInt_toInt]
    show afterglow pole _ = _
    rw [afterglow, hsize]
    rfl
  | succ k ih =>
    -- The block before is a decay itself, and this one starts from its last word.
    have hbefore := ih fun j hj => h j (Nat.le_succ_of_le hj)
    rw [block_of_isFade (h (k + 1) (Nat.le_refl _))]
    show afterglow pole (block len pole history (n + k + 1)).words = _
    rw [afterglow, hbefore, size_fade, back?_fade _ _ hpos, Option.getD_some, mono, left_pack,
      toInt_sample_decay, ← decay_add, ← Nat.succ_mul]

/-- The words of blocks without a frame. -/
theorem blockWord_fade {k i : Nat} (hpos : 0 < len)
    (hsize : (block len pole history n).words.size = len)
    (h : ∀ j, n < j → j ≤ n + k → (block len pole history j).isFade) (hi : i < k * len) :
    blockWord len (block len pole history) ((n + 1) * len + i) =
      mono (sample (decay (lastOf (block len pole history n)).toInt pole (i + 1))) := by
  have hword : i % len < len := Nat.mod_lt i hpos
  have hblock : i / len < k := (Nat.div_lt_iff_lt_mul hpos).mpr hi
  have hsplit : i / len * len + i % len = i := by
    rw [Nat.mul_comm]
    exact Nat.div_add_mod i len
  have hplace : (n + 1) * len + i = (n + i / len + 1) * len + i % len := by
    rw [show n + i / len + 1 = n + 1 + i / len by omega, Nat.add_mul (n + 1) (i / len)]
    omega
  have hsum : i / len * len + (i % len + 1) = i + 1 := by omega
  rw [blockWord, hplace, div_mul_add hword, mod_mul_add hword,
    words_block_fade hpos hsize fun j hj => h _ (by omega) (by omega),
    Array.getD_eq_getD_getElem?, getElem?_fade _ _ hword, Option.getD_some, toInt_sample_decay,
    ← decay_add, hsum]

/-- **What is played after a block, while there is no frame:** the decay of its last sample. -/
theorem Lawful.getElem?_played_fade {k i : Nat} (hlaw : Lawful len pole history d) (hpos : 0 < len)
    (h : ∀ j, n < j → j ≤ n + k → (block len pole history j).isFade) (hi : i < k * len)
    (hplayed : (n + 1) * len + i < d.played.size) :
    d.played[(n + 1) * len + i]? =
      (fade (lastOf (block len pole history n)) pole (k * len))[i]? := by
  have hmany : 2 ≤ history.length := by
    by_contra hfew
    rw [hlaw.silent (Nat.not_le.mp hfew)] at hplayed
    exact Nat.not_lt_zero _ hplayed
  have hsize : (block len pole history n).words.size = len :=
    size_block (List.ne_nil_of_length_pos (by omega)) hlaw.frames n
  rw [getElem?_fade _ _ hi, ← blockWord_fade hpos hsize h hi, ← Array.getElem?_toList,
    hlaw.played hmany, opening, List.getElem?_map, List.getElem?_range hplayed, Option.map_some]

/-- Calls that alternate are lawful. -/
theorem perform_lawful {engine : Engine} {channel : Nat} {calls : List Call}
    (hnew : new engine channel len pole = .ok d) (hquiet : engine.Quiet) (hpos : 0 < len)
    (hlen : len ≤ regionWords) (hcalls : Alternating false calls) :
    ∃ d' history, port.perform calls (d, []) = .ok () (d', history) ∧
      Lawful len pole history d' := by
  let Inv (rest : List Call) (history : List Commit) (s : Double) : Prop :=
    ∃ holding, Sound len pole history holding s ∧ Alternating holding rest
  have hcall : ∀ c rest history s, Inv (c :: rest) history s →
      ∃ s', port.call c s = .ok () s' ∧ Inv rest (history ++ port.noted c s s') s' := by
    rintro c rest history s ⟨holding, hsound, hc, hrest⟩
    obtain ⟨s', hs', hsound'⟩ := hsound.call hpos hlen hc
    exact ⟨s', hs', c.holds holding, hsound', hrest⟩
  obtain ⟨d', history, hd', holding, hsound, -⟩ :=
    Port.perform_ok hcall ⟨false, .inl (preroll_new hnew hquiet).1, hcalls⟩
  exact ⟨d', history, hd', hsound.lawful⟩

end Double

end ConsolePipeline.Playback

namespace ConsolePipeline.Mixing

open Playback Sound Stereo

/-! ### Both -/

/-- **All that conceals missing audio is one decay.** -/
structure ConcealsAlike (m : Mixer) : Prop where
  /-- It dies away. -/
  dies : DiesAway m.last.toInt m.config.fadePole.toNat
  /-- Slots of any lengths without a frame are one long slot without a frame. -/
  slices : ∀ (slices : List (Controls × Nat)) (controls : Controls),
    (m.starve slices).1 = (m.mix none controls (Mixer.total slices)).words ∧
    (m.starve slices).2.last = (m.mix none controls (Mixer.total slices)).mixer.last
  /-- A slot that is drained is left with the words that the mixer would have filled it with. -/
  drained : ∀ (s : Slots) (slot count length : Nat) (controls : Controls),
    s.Shaped count length m.config.fadePole.toNat → s.state? slot = some .draining →
    s.lastSample slot = m.last →
    ∃ s', Slots.finishDrain slot s = .ok () s' ∧
      s'.words slot = (m.mix none controls length).words
  /-- Blocks that playback puts in after a frame are those that the mixer would have filled. -/
  played : ∀ (engine : Engine) (channel length : Nat) (d : Double) (calls : List Call),
    Double.new engine channel length m.config.fadePole.toNat = .ok d → engine.Quiet →
    0 < length → length ≤ regionWords → Alternating false calls →
    ∃ d' history, Double.port.perform calls (d, []) = .ok () (d', history) ∧
      Double.Lawful length m.config.fadePole.toNat history d' ∧
      ∀ (n : Nat) (frame : Option FrameAudio) (controls : Controls) (missing : List Controls),
        let block := Double.block length m.config.fadePole.toNat history
        let out := m.mix frame controls length
        block n = .frame out.words →
        (∀ j, n < j → j ≤ n + missing.length → (block j).isFade) →
        ∀ i, i < missing.length * length → (n + 1) * length + i < d'.played.size →
          d'.played[(n + 1) * length + i]? = (out.mixer.starve (missing.map (·, length))).1[i]?
  /-- A configuration sets playback up to decay as its mixer does. -/
  configured : ∀ (c : Config) (player : Player), c.strategy = .double → c.mixer = m.config →
    Machine.playerFor c = .ok player →
    ∃ d, player = .double d ∧
      Double.new {} c.channels.1.toNat c.frameLength m.config.fadePole.toNat = .ok d

namespace Mixer

/-- The last sample of a mixer is that of the last word it has written. -/
theorem last_mix (m : Mixer) (frame : Option FrameAudio) (controls : Controls) {length : Nat}
    (hpos : 0 < length) :
    (m.mix frame controls length).mixer.last =
      left ((m.mix frame controls length).words.back?.getD silence) := by
  rw [(m.exact_mix frame controls length).last]
  cases hback : (m.mix frame controls length).words.back? with
  | some w => rfl
  | none =>
    have hsize := m.size_mix frame controls length
    rw [Array.back?_eq_none_iff.mp hback] at hsize
    exact absurd hsize (Nat.ne_of_lt hpos)

/-- **One decay conceals whatever is missing,** in the mixer and in playback. -/
theorem conceals_alike (m : Mixer) (hpole : 0 < m.config.fadePole.toNat) : ConcealsAlike m where
  dies := diesAway hpole _
  slices slices controls := by
    rw [starve_words, starve_last, words_mix_none, last_mix_none]
    exact ⟨rfl, rfl⟩
  drained s slot count length controls hs hdraining hlast := by
    have hslot := Slots.lt_of_state? hs hdraining
    refine ⟨_, Slots.finishDrain_ok hdraining, ?_⟩
    rw [words_mix_none, ← hlast, ← hs.words_size slot hslot, ← hs.pole]
    exact Slots.words_setWords_self hs hslot _
  played engine channel length d calls hnew hquiet hpos hlen hcalls := by
    -- Playback is lawful whatever was called; only where a block is a decay is it compared with the
    -- mixer.
    obtain ⟨d', history, hd', hlaw⟩ := Double.perform_lawful hnew hquiet hpos hlen hcalls
    refine ⟨d', history, hd', hlaw, ?_⟩
    intro n frame controls missing block out hframe hfades i hi hplayed
    have hlast : Double.lastOf (block n) = out.mixer.last := by
      rw [last_mix m frame controls hpos, hframe]
      rfl
    rw [hlaw.getElem?_played_fade hpos hfades hi hplayed, hlast, starve_words, total_alike,
      config_mix]
  configured c player hstrategy hmixer hplayer := by
    rw [Machine.playerFor, hstrategy, hmixer, Player.new] at hplayer
    obtain ⟨d, hnew, rfl⟩ := Run.map_inv hplayer
    exact ⟨d, rfl, hnew⟩

/-- Two frames of the same words, and then time for four. -/
def twoFrames (words : Array Word) : List Call :=
  [.acquire, .write words, .commit words.size, .acquire, .write words, .commit words.size,
    .advance (4 * words.size)]

/-- After two frames, two blocks are put in. -/
theorem conceals_two_blocks :
    let out := ({ config := {} } : Mixer).mix (some quietFrame) {} 3
    ∃ d d' history, Double.new {} 2 3 16 = .ok d ∧
      Double.port.perform (twoFrames out.words) (d, []) = .ok () (d', history) ∧
      d'.played.size = 12 ∧
      ∀ i, i < 6 → d'.played[6 + i]? = (out.mixer.starve [({}, 3), ({}, 3)]).1[i]? := by
  intro out
  obtain ⟨d, hd⟩ : ∃ d, Double.new {} 2 3 16 = .ok d := ⟨_, rfl⟩
  have hconceals := conceals_alike { config := {} } (by decide)
  obtain ⟨d', history, hd', -, hplayed⟩ := hconceals.played {} 2 3 d (twoFrames out.words) hd
    Engine.quiet_fresh (by decide) (by decide) (by decide)
  -- What the run comes to, and which blocks its history calls for, is a matter of computing it.
  have hrun : ((Double.new {} 2 3 16).toOption.any fun d =>
      match Double.port.perform (twoFrames out.words) (d, []) with
      | .ok _ (s, history) => s.played.size = 12 ∧
        (Double.block 3 16 history 1).frame? = some out.words ∧
        (Double.block 3 16 history 2).isFade ∧ (Double.block 3 16 history 3).isFade
      | .error _ _ => false) = true := by
    decide +kernel
  simp only [hd, hd', Except.toOption, Option.any_some, decide_eq_true_eq] at hrun
  obtain ⟨hsize, hframe, hsecond, hthird⟩ := hrun
  have hmixed : Double.block 3 16 history 1 = .frame out.words := by
    cases hblock : Double.block 3 16 history 1 <;> rw [hblock] at hframe <;> cases hframe
    rfl
  refine ⟨d, d', history, hd, hd', hsize, fun i hi => ?_⟩
  refine hplayed 1 (some quietFrame) {} [{}, {}] hmixed (fun j hj hle => ?_) i hi (by omega)
  obtain rfl | rfl : j = 2 ∨ j = 3 := by
    have : j ≤ 3 := hle
    omega
  · exact hsecond
  · exact hthird

end Mixer

end ConsolePipeline.Mixing
