import ConsolePipeline.Proofs.Stereo.Share
import ConsolePipeline.Stereo.Decay

namespace ConsolePipeline.Stereo

/-!
# How a decay ends, and how it goes on

Each step of a decay keeps a share of the level, rounded toward zero. As long as the share is less
than the whole, a level that is not zero loses at least one at each step, so the decay of a sample
comes to rest within as many steps as the sample is large. A fade that is broken off can be taken up
from its last word, because no level on the way leaves the range of a sample.

* `natAbs_decayStep_lt`, `decay_eq_zero` — a decay falls, and comes to rest.
* `DiesAway`, `diesAway` — all that is known of the course of a decay.
* `toInt_sample_decay` — the levels of a decay are samples.
* `back?_fade`, `last_fade`, `fade_add` — where a fade ends, and how it is taken up from there.
-/

variable {level : Int} {pole n : Nat}

/-! ### One step -/

theorem decayStep_eq_share (level : Int) (pole : Nat) :
    decayStep level pole = share level (256 - min pole 256) 256 := by
  rw [decayStep, share]
  congr 2
  omega

theorem natAbs_decayStep_le (level : Int) (pole : Nat) :
    (decayStep level pole).natAbs ≤ level.natAbs := by
  rw [decayStep_eq_share]
  exact natAbs_share_le level (Nat.sub_le _ _)

/-- A step takes something away from every level but zero. -/
theorem natAbs_decayStep_lt (hpole : 0 < pole) (hlevel : level ≠ 0) :
    (decayStep level pole).natAbs < level.natAbs := by
  rw [decayStep_eq_share]
  exact natAbs_share_lt (by omega) hlevel

/-! ### The course of a decay -/

theorem decay_add (level : Int) (pole m n : Nat) :
    decay level pole (m + n) = decay (decay level pole m) pole n := by
  induction m generalizing level with
  | zero => rw [Nat.zero_add, decay]
  | succ m ih => rw [Nat.succ_add, decay, ih, decay]

theorem decay_nonneg (h : 0 ≤ level) (pole n : Nat) : 0 ≤ decay level pole n := by
  induction n with
  | zero => exact h
  | succ n ih =>
    rw [decay_succ, decayStep_eq_share]
    exact share_nonneg ih _ _

theorem decay_nonpos (h : level ≤ 0) (pole n : Nat) : decay level pole n ≤ 0 := by
  induction n with
  | zero => exact h
  | succ n ih =>
    rw [decay_succ, decayStep_eq_share]
    exact share_nonpos ih _ _

theorem decay_zero (pole n : Nat) : decay 0 pole n = 0 :=
  Int.le_antisymm (decay_nonpos (Int.le_refl 0) pole n) (decay_nonneg (Int.le_refl 0) pole n)

theorem natAbs_decay_le (level : Int) (pole n : Nat) :
    (decay level pole n).natAbs ≤ level.natAbs := by
  induction n with
  | zero => exact Nat.le_refl _
  | succ n ih =>
    rw [decay_succ]
    exact Nat.le_trans (natAbs_decayStep_le _ _) ih

/-- Each step takes at least one away, until nothing is left. -/
theorem natAbs_decay_le_sub (hpole : 0 < pole) (level : Int) (n : Nat) :
    (decay level pole n).natAbs ≤ level.natAbs - n := by
  induction n with
  | zero => exact Nat.le_refl _
  | succ n ih =>
    rw [decay_succ]
    by_cases hzero : decay level pole n = 0
    · rw [hzero, decayStep_zero]
      exact Nat.zero_le _
    · have := natAbs_decayStep_lt hpole hzero
      omega

theorem decay_eq_zero (hpole : 0 < pole) (h : level.natAbs ≤ n) : decay level pole n = 0 := by
  have := natAbs_decay_le_sub hpole level n
  omega

/-- **A level that dies away:** it keeps its sign, falls at every step until it is exactly zero,
    which takes no more steps than it is large, and rests there. -/
structure DiesAway (level : Int) (pole : Nat) : Prop where
  sign : ∀ n, decay level pole n = 0 ∨ (decay level pole n).sign = level.sign
  falls : ∀ n, decay level pole n ≠ 0 →
    (decay level pole (n + 1)).natAbs < (decay level pole n).natAbs
  silent : ∀ n, level.natAbs ≤ n → decay level pole n = 0
  rests : ∀ m n, decay level pole m = 0 → m ≤ n → decay level pole n = 0

/-- **Every level dies away,** if each step takes something from it. -/
theorem diesAway (hpole : 0 < pole) (level : Int) : DiesAway level pole where
  sign n := by
    rcases Int.le_total 0 level with hlevel | hlevel
    · have hn := decay_nonneg hlevel pole n
      have hle := natAbs_decay_le level pole n
      by_cases hzero : decay level pole n = 0
      · exact .inl hzero
      · rw [Int.sign_eq_one_of_pos (by omega), Int.sign_eq_one_of_pos (by omega)]
        exact .inr rfl
    · have hn := decay_nonpos hlevel pole n
      have hle := natAbs_decay_le level pole n
      by_cases hzero : decay level pole n = 0
      · exact .inl hzero
      · rw [Int.sign_eq_neg_one_of_neg (by omega), Int.sign_eq_neg_one_of_neg (by omega)]
        exact .inr rfl
  falls n hn := by
    rw [decay_succ]
    exact natAbs_decayStep_lt hpole hn
  silent n hn := decay_eq_zero hpole hn
  rests m n hm hle := by
    obtain ⟨k, rfl⟩ := Nat.exists_eq_add_of_le hle
    rw [decay_add, hm, decay_zero]

/-! ### Fades -/

/-- **The levels of a decay are samples:** nothing is lost when one is written as a word. -/
theorem toInt_sample_decay (start : Int16) (pole n : Nat) :
    (sample (decay start.toInt pole n)).toInt = decay start.toInt pole n := by
  have hsize := natAbs_decay_le start.toInt pole n
  have hmin := start.le_toInt
  have hmax := start.toInt_lt
  apply Int16.toInt_ofInt_of_le
  · rcases Int.le_total 0 start.toInt with hstart | hstart
    · have := decay_nonneg hstart pole n
      omega
    · have := decay_nonpos hstart pole n
      omega
  · rcases Int.le_total 0 start.toInt with hstart | hstart
    · have := decay_nonneg hstart pole n
      omega
    · have := decay_nonpos hstart pole n
      omega

theorem getElem?_fade {i : Nat} (start : Int16) (pole : Nat) (h : i < n) :
    (fade start pole n)[i]? = some (mono (sample (decay start.toInt pole (i + 1)))) := by
  rw [← Array.getElem?_toList, fade_toList, List.getElem?_map, List.getElem?_range h,
    Option.map_some]

/-- The last word of a fade. -/
theorem back?_fade (start : Int16) (pole : Nat) (h : 0 < n) :
    (fade start pole n).back? = some (mono (sample (decay start.toInt pole n))) := by
  rw [Array.back?, size_fade, getElem?_fade start pole (by omega), Nat.sub_add_cancel h]

/-- **Where a fade ends:** at the level after as many steps as it has words. -/
theorem last_fade (start : Int16) (pole n : Nat) :
    ((fade start pole n).back?.map left).getD start = sample (decay start.toInt pole n) := by
  rcases Nat.eq_zero_or_pos n with rfl | hn
  · exact (Int16.ofInt_toInt start).symm
  · rw [back?_fade start pole hn, Option.map_some, Option.getD_some, mono, left_pack]

/-- **A fade is taken up where it was broken off.** -/
theorem fade_add (start : Int16) (pole m n : Nat) :
    fade start pole (m + n) =
      fade start pole m ++ fade (sample (decay start.toInt pole m)) pole n := by
  apply Array.toList_inj.mp
  rw [Array.toList_append, fade_toList, fade_toList, fade_toList, List.range_add, List.map_append,
    List.map_map, toInt_sample_decay]
  refine congrArg (List.map _ (List.range m) ++ ·) (List.map_congr_left fun i _ => ?_)
  rw [Function.comp_apply, Nat.add_assoc, decay_add]

end ConsolePipeline.Stereo
