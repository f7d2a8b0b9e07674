import ConsolePipeline.Proofs.Sound.Stepping

namespace ConsolePipeline.Sound

/-!
# The numbers inside the sound generator

Whatever bytes the port receives, and however long the chip runs, each of its numbers keeps to the
bits that hold it, the noise never dies, and four channels never add up to more than a sample holds.

* `Tone.Bounded`, `Noise.Bounded`, `Psg.Bounded` — the bounds.
* `Noise.shifted_ne_zero` — a shift never empties the register, in either mode.
* `Psg.Bounded.write`, `Psg.Bounded.nextSample` — a byte received, and a sample's time.
* `Psg.Bounded.output_eq_mix` — no sample is held to its range.
* `Psg.Call`, `Psg.Bounded.call` — one call more, whatever it is.
* `psg_bounded` — any calls, and every sample of the next run.
-/

/-! ### Channels -/

/-- Every attenuation has its place in the table. -/
theorem amplitude_of_le {attenuation : Nat} (h : attenuation ≤ 15) :
    amplitudes[attenuation]? = some (amplitude attenuation) := by
  have hplace : attenuation < amplitudes.size := Nat.lt_succ_of_le h
  rw [amplitude, Array.getD_eq_getD_getElem?, Array.getElem?_eq_getElem hplace]
  rfl

/-- No amplitude is above that of the loudest. -/
theorem amplitude_le {attenuation : Nat} (h : attenuation ≤ 15) : amplitude attenuation ≤ 8191 := by
  have hmax : ∀ a ∈ amplitudes, a ≤ 8191 := by decide
  exact hmax _ (Array.mem_of_getElem? (amplitude_of_le h))

/-- **A tone within its bounds:** ten bits of a period and of its counter, four of attenuation. -/
structure Tone.Bounded (t : Tone) : Prop where
  period : t.period ≤ 1023
  counter : t.counter ≤ 1023
  attenuation : t.attenuation ≤ 15

namespace Tone

variable {t : Tone}

/-- One step of the counter. -/
theorem Bounded.tick (h : t.Bounded) : t.tick.Bounded := by
  unfold Tone.tick
  split_ifs
  · exact ⟨h.period, Nat.le_trans (Nat.sub_le _ _) h.counter, h.attenuation⟩
  · exact ⟨h.period, h.period, h.attenuation⟩
  · exact ⟨h.period, h.period, h.attenuation⟩

theorem Bounded.level (h : t.Bounded) : -8191 ≤ t.level ∧ t.level ≤ 8191 := by
  have hle := amplitude_le h.attenuation
  unfold Tone.level
  split_ifs <;> omega

end Tone

/-- **The noise within its bounds,** with a bit left in its register. -/
structure Noise.Bounded (n : Noise) : Prop where
  rate : ∀ steps, n.rate = .every steps → steps ≤ 0x40
  register : n.register ≠ 0
  counter : n.counter ≤ 1023
  attenuation : n.attenuation ≤ 15

namespace Noise

variable {n : Noise}

/-- Both kinds of feedback put a last lowest bit back at the top. -/
theorem feedback_of_one (h : n.register = 1) : n.feedback = true := by
  rw [feedback, h]
  cases n.white <;> decide

/-- **A shift never empties the register,** in either mode: the only register that would become 0 is
    the one whose lowest bit is put back. -/
theorem shifted_ne_zero (h : n.register ≠ 0) : n.shifted ≠ 0 := by
  unfold shifted
  cases hfeedback : n.feedback with
  | true =>
    intro hzero
    have htop : (0x8000 : UInt16) = 0 := (UInt16.or_eq_zero_iff.mp hzero).2
    exact absurd htop (by decide)
  | false =>
    intro hzero
    have hhalf : n.register.toNat / 2 = 0 := by
      have := congrArg UInt16.toNat hzero
      simpa [Nat.shiftRight_eq_div_pow] using this
    have hpos : n.register.toNat ≠ 0 := fun h0 => h (UInt16.toNat_inj.mp h0)
    have hone : n.register = 1 := by
      apply UInt16.toNat_inj.mp
      show n.register.toNat = 1
      omega
    rw [feedback_of_one hone] at hfeedback
    cases hfeedback

/-- One step of the counter, which reloads with at most ten bits. -/
theorem Bounded.tick (h : n.Bounded) {thirdPeriod : Nat} (hperiod : thirdPeriod ≤ 1023) :
    (n.tick thirdPeriod).Bounded := by
  have hreload : n.reload thirdPeriod ≤ 1023 := by
    unfold reload
    cases hrate : n.rate with
    | every steps => exact Nat.le_trans (h.rate steps hrate) (by decide)
    | thirdTone => exact hperiod
  unfold Noise.tick
  split_ifs
  · exact ⟨h.rate, h.register, Nat.le_trans (Nat.sub_le _ _) h.counter, h.attenuation⟩
  · exact ⟨h.rate, shifted_ne_zero h.register, hreload, h.attenuation⟩

/-- A new mode begins with a register that is not 0. -/
theorem Bounded.setMode (h : n.Bounded) (data : UInt8) : (n.setMode data).Bounded := by
  refine ⟨?_, by simp [Noise.setMode], h.counter, h.attenuation⟩
  intro steps hrate
  simp only [Noise.setMode] at hrate
  split at hrate <;> cases hrate <;> decide

theorem Bounded.level (h : n.Bounded) : -8191 ≤ n.level ∧ n.level ≤ 8191 := by
  have hle := amplitude_le h.attenuation
  unfold Noise.level
  split_ifs <;> omega

end Noise

/-! ### The whole chip -/

/-- **The chip within its bounds.** -/
structure Psg.Bounded (p : Psg) : Prop where
  tones : ∀ t ∈ p.tones, t.Bounded
  noise : p.noise.Bounded
  latched : p.latched ≤ 3
  remainder : p.remainder < cyclesPerTick

namespace Psg

variable {p : Psg}

/-- The chip at power-on. -/
theorem bounded_new : Bounded {} where
  tones := by
    intro t ht
    obtain ⟨-, rfl⟩ := Vector.mem_replicate.mp ht
    exact ⟨by decide, by decide, by decide⟩
  noise := ⟨fun steps hrate => by cases hrate; decide, by decide, by decide, by decide⟩
  latched := by decide
  remainder := by decide

namespace Bounded

theorem modifyTone (h : p.Bounded) (channel : Nat) {f : Tone → Tone}
    (hf : ∀ t : Tone, t.Bounded → (f t).Bounded) : (p.modifyTone channel f).Bounded := by
  unfold Psg.modifyTone
  split_ifs with hchannel
  · refine ⟨?_, h.noise, h.latched, h.remainder⟩
    intro t ht
    have ht : t ∈ p.tones.set channel (f p.tones[channel]) hchannel := ht
    rcases Vector.mem_or_eq_of_mem_set ht with hold | rfl
    · exact h.tones t hold
    · exact hf _ (h.tones _ (Vector.getElem_mem hchannel))
  · exact h

theorem setAttenuation (h : p.Bounded) (channel : Nat) {attenuation : Nat}
    (hle : attenuation ≤ 15) : (p.setAttenuation channel attenuation).Bounded := by
  unfold Psg.setAttenuation
  split_ifs
  · exact ⟨h.tones, ⟨h.noise.rate, h.noise.register, h.noise.counter, hle⟩, h.latched, h.remainder⟩
  · exact h.modifyTone channel fun t ht => ⟨ht.period, ht.counter, hle⟩

/-- **Any byte at the port.** -/
theorem write (h : p.Bounded) (data : UInt8) : (p.write data).Bounded := by
  have hmask : ∀ bits : UInt8, (data &&& bits).toNat ≤ bits.toNat := fun bits => by
    rw [UInt8.toNat_and]
    exact Nat.and_le_right
  have hlow : (data &&& 0x0F).toNat ≤ 15 := hmask 0x0F
  have hhigh : (data &&& 0x3F).toNat ≤ 63 := hmask 0x3F
  have hlatch : Bounded { p with latched := ((data >>> 5) &&& 0x03).toNat } := by
    refine ⟨h.tones, h.noise, ?_, h.remainder⟩
    show ((data >>> 5) &&& 0x03).toNat ≤ 3
    rw [UInt8.toNat_and]
    exact Nat.and_le_right
  unfold Psg.write
  dsimp only
  split_ifs
  · exact hlatch.setAttenuation _ hlow
  · exact ⟨h.tones, h.noise.setMode data, hlatch.latched, h.remainder⟩
  · -- The low bits of a period.
    refine hlatch.modifyTone _ fun t ht => ⟨?_, ht.counter, ht.attenuation⟩
    show t.period / 16 % 64 * 16 + _ ≤ 1023
    omega
  · -- Its high bits.
    refine h.modifyTone _ fun t ht => ⟨?_, ht.counter, ht.attenuation⟩
    show _ * 16 + t.period % 16 ≤ 1023
    omega

/-- One step of every counter. -/
theorem tick (h : p.Bounded) : p.tick.Bounded where
  tones := by
    intro t ht
    obtain ⟨before, hbefore, rfl⟩ := Vector.mem_map.mp ht
    exact (h.tones before hbefore).tick
  noise := h.noise.tick (h.tones _ (Vector.getElem_mem (by decide))).period
  latched := h.latched
  remainder := h.remainder

theorem ticks (h : p.Bounded) (n : Nat) : (Psg.ticks n p).Bounded := by
  induction n generalizing p with
  | zero => exact h
  | succ n ih => exact ih h.tick

/-- **A sample's time.** -/
theorem nextSample (h : p.Bounded) : p.nextSample.Bounded := by
  have hstart : Bounded { p with remainder := 0 } :=
    ⟨h.tones, h.noise, h.latched, Nat.zero_lt_succ _⟩
  have hticks := hstart.ticks ((p.remainder + cyclesPerSample) / cyclesPerTick)
  exact ⟨hticks.tones, hticks.noise, hticks.latched, Nat.mod_lt _ (by decide)⟩

/-- Every sample that the chip plays, from a chip within its bounds. -/
theorem moments (h : p.Bounded) (n : Nat) : ∀ q ∈ p.moments n, q.Bounded := by
  unfold Psg.moments
  induction n generalizing p with
  | zero => simp
  | succ n ih =>
    rw [List.iterate, List.forall_mem_cons]
    exact ⟨h.nextSample, ih h.nextSample⟩

theorem iterate (h : p.Bounded) (n : Nat) : (Psg.nextSample^[n] p).Bounded := by
  induction n generalizing p with
  | zero => exact h
  | succ n ih => exact ih h.nextSample

/-- Four channels at full volume are less than a sample holds. -/
theorem mix_le (h : p.Bounded) : -32764 ≤ p.mix ∧ p.mix ≤ 32764 := by
  have hfirst := (h.tones _ (Vector.getElem_mem (show 0 < 3 by decide))).level
  have hsecond := (h.tones _ (Vector.getElem_mem (show 1 < 3 by decide))).level
  have hthird := (h.tones _ (Vector.getElem_mem (show 2 < 3 by decide))).level
  have hnoise := h.noise.level
  unfold mix
  omega

/-- **No sample is held to its range.** -/
theorem output_eq_mix (h : p.Bounded) : p.output.toInt = p.mix := by
  obtain ⟨hlow, hhigh⟩ := h.mix_le
  have hclamp : max (-32768) (min 32767 p.mix) = p.mix := by omega
  rw [output, hclamp]
  exact Int16.toInt_ofInt_of_le (by omega) (by omega)

end Bounded

/-! ### Any calls -/

/-- What is asked of the chip. Each run brings the buffer that it leaves its samples in. -/
inductive Call
  | write (data : UInt8)
  | runTo (target : Nat) (out : SampleBuffer)
  | beginFrame
  | reset

def call (p : Psg) : Call → Psg
  | .write data => p.write data
  | .runTo target out => (p.runTo target out).1
  | .beginFrame => p.beginFrame
  | .reset => {}

/-- **One call more,** whatever it is. -/
theorem Bounded.call (h : p.Bounded) (c : Call) : (p.call c).Bounded := by
  cases c with
  | write data => exact h.write data
  | runTo target out =>
    show (take _ p out).1.Bounded
    rw [take_eq]
    exact h.iterate _
  | beginFrame => exact ⟨h.tones, h.noise, h.latched, h.remainder⟩
  | reset => exact bounded_new

end Psg

/-- **The sound generator keeps within its bounds.** After any calls on a new chip, its numbers are
    within them, which for an attenuation means a place in the table; and so they are at each sample
    of the next run, whose channels add up to a sample as they are. -/
theorem psg_bounded (calls : List Psg.Call) :
    let p := calls.foldl Psg.call {}
    p.Bounded ∧ (∀ attenuation ≤ 15, amplitudes[attenuation]? = some (amplitude attenuation)) ∧
      ∀ target out,
        let due := (target - p.clock) / cyclesPerSample
        p.runTo target out = (Psg.nextSample^[due] p, (p.samples due).foldl .push out) ∧
          ∀ q ∈ p.moments due, q.Bounded ∧ q.output.toInt = q.mix ∧
            -32764 ≤ q.output.toInt ∧ q.output.toInt ≤ 32764 := by
  intro p
  have hrun : ∀ q : Psg, q.Bounded → (calls.foldl Psg.call q).Bounded := by
    induction calls with
    | nil => exact fun _ h => h
    | cons first rest ih => exact fun q h => ih (q.call first) (h.call first)
  have hp : p.Bounded := hrun {} Psg.bounded_new
  refine ⟨hp, fun _ => amplitude_of_le, fun target out => ⟨Psg.take_eq _ p out, fun q hq => ?_⟩⟩
  have hbounded := hp.moments _ q hq
  rw [hbounded.output_eq_mix]
  exact ⟨hbounded, rfl, hbounded.mix_le⟩

end ConsolePipeline.Sound
