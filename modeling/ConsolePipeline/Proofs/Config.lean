import ConsolePipeline.Config.Basic
import ConsolePipeline.Proofs.Run

namespace ConsolePipeline

open Playback

/-!
# Configurations that pass the check

* `isPowerOfTwo_iff`, `powerFrom_of_isPowerOfTwo` — powers of two, by bits and by rounding up.
* `Config.Checked` — what the check has made sure of.
* `Config.checked` — a configuration that passes has been checked.
-/

/-! ### Powers of two -/

/-- One bit is set in exactly the powers of two. -/
theorem isPowerOfTwo_iff (n : UInt64) : isPowerOfTwo n = true ↔ n.toNat.isPowerOfTwo := by
  rw [← Nat.ne_zero_and_sub_one_eq_zero_iff_isPowerOfTwo, isPowerOfTwo, Bool.and_eq_true,
    bne_iff_ne, beq_iff_eq, ← UInt64.toNat_inj]
  have hzero : n ≠ 0 ↔ n.toNat ≠ 0 := not_congr UInt64.toNat_inj.symm
  rw [hzero]
  refine and_congr_right fun hne => ?_
  have hpred : (n - 1).toNat = n.toNat - 1 := by
    rw [UInt64.toNat_sub_of_le _ _ (by rw [UInt64.le_iff_toNat_le]; show 1 ≤ n.toNat; omega)]
    rfl
  rw [UInt64.toNat_and, hpred]
  rfl

/-- A power of two needs no rounding. -/
theorem powerFrom_of_isPowerOfTwo {n : Nat} (h : n.isPowerOfTwo) : powerFrom n = n := by
  obtain ⟨k, rfl⟩ := h
  cases k with
  | zero => rfl
  | succ k =>
    have hpos : 0 < 2 ^ k := Nat.two_pow_pos k
    have hdouble : 2 ^ (k + 1) = 2 ^ k * 2 := Nat.pow_succ 2 k
    have hlog : (2 ^ (k + 1) - 1).log2 = k := by
      rw [Nat.log2_eq_iff (by omega)]
      omega
    rw [powerFrom, if_neg (by omega), hlog, Nat.one_shiftLeft]

namespace Config

variable {c : Config}

/-- **What the check has made sure of.** The sum of two frames and the margin is one of 64-bit
    numbers. -/
structure Checked (c : Config) : Prop where
  frame_pos : 0 < c.frameLength
  frame_le : c.frameLength ≤ Sound.bufferCapacity
  first : c.channels.1.toNat < channelCount
  second : c.channels.2.toNat < channelCount
  distinct : c.strategy = .chained → c.channels.1 ≠ c.channels.2
  ring_isPowerOfTwo : c.strategy = .ring → c.ring.size.toNat.isPowerOfTwo
  ring_holds : c.strategy = .ring → 2 * c.mixer.samplesPerFrame + c.ring.margin ≤ c.ring.size

theorem frame_of_checkAudio (h : c.checkAudio = .ok ()) :
    0 < c.frameLength ∧ c.frameLength ≤ Sound.bufferCapacity := by
  rw [checkAudio] at h
  split at h
  · cases h
  rename_i hne
  split at h
  · cases h
  rename_i hle
  have hpos : c.frameLength ≠ 0 := fun hzero => hne (UInt64.toNat_inj.mp hzero)
  exact ⟨by omega, by omega⟩

theorem channels_of_checkChannels (h : c.checkChannels = .ok ()) :
    c.channels.1.toNat < channelCount ∧ c.channels.2.toNat < channelCount ∧
      (c.strategy = .chained → c.channels.1 ≠ c.channels.2) := by
  rw [checkChannels] at h
  split at h
  · cases h
  rename_i hfirst
  split at h
  · cases h
  rename_i hsecond
  split at h
  · cases h
  rename_i hshared
  exact ⟨by omega, by omega, fun hchained hsame => hshared ⟨hchained, hsame⟩⟩

theorem ring_of_checkRing (h : c.checkRing = .ok ()) (hring : c.strategy = .ring) :
    c.ring.size.toNat.isPowerOfTwo ∧ 2 * c.mixer.samplesPerFrame + c.ring.margin ≤ c.ring.size := by
  simp only [checkRing, hring, ne_eq, not_true_eq_false, if_false] at h
  split at h
  · cases h
  rename_i hpower
  split at h
  · cases h
  rename_i hholds
  refine ⟨(isPowerOfTwo_iff _).mp (by simpa using hpower), ?_⟩
  exact UInt64.not_lt.mp hholds

/-- **A configuration that passes has been checked.** -/
theorem checked (h : c.check = .ok ()) : c.Checked := by
  rw [check] at h
  obtain ⟨_, haudio, h⟩ := Run.bind_eq_ok h
  obtain ⟨_, hchannels, hring⟩ := Run.bind_eq_ok h
  obtain ⟨hpos, hle⟩ := frame_of_checkAudio haudio
  obtain ⟨hfirst, hsecond, hdistinct⟩ := channels_of_checkChannels hchannels
  exact ⟨hpos, hle, hfirst, hsecond, hdistinct, fun hs => (ring_of_checkRing hring hs).1,
    fun hs => (ring_of_checkRing hring hs).2⟩

end Config

end ConsolePipeline
