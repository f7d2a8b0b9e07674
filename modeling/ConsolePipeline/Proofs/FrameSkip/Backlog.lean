import Mathlib.Algebra.Group.Int.Defs
import Mathlib.Algebra.Group.Nat.Defs
import ConsolePipeline.FrameSkip.Controller
import ConsolePipeline.Proofs.Run
import ConsolePipeline.Video.Registers

namespace ConsolePipeline.FrameSkip

/-!
# The backlog at the end of a frame

What emulation owes is a plain sum: the backlog so far and the work of the frame, less the budget of
the frame. It is held between nothing and a number of budgets. All four quantities have 32 bits, but
neither the bound nor the sum has to fit as many: the bound is computed in 63 bits and is a fault
beyond, and of the sum the low 32 bits are kept.

* `exactBacklog`, `saturate` — the backlog in unbounded arithmetic, and the 32-bit number that
  stands for it.
* `Adaptive.endFrame_eq` — all that the end of a frame does with it.
* `ofNat_eq_saturate_iff` — where keeping the low bits is harmless.
* `exactBacklog_mono` — a slower frame owes more.
* `Controller.endFrame_sample` — in the frame loop, no bound is a fault.
* `backlog_exact_iff` — the backlog that is stored is the exact one just where it fits.
-/

/-- The backlog that a frame leaves, in unbounded arithmetic. -/
def Adaptive.exactBacklog (a : Adaptive) (t : Timing) (s : State) : Int :=
  max 0 (min (s.backlogUs.toNat + t.workUs.toNat - t.budgetUs.toNat) (a.backlogBound t))

/-- The 32-bit number that comes closest to one that is not negative. -/
def saturate (n : Int) : UInt32 :=
  UInt32.ofNat (min n.toNat 4294967295)

/-! ### What the end of a frame stores -/

section

variable {a : Adaptive} {t t' : Timing} {s s' : State}

theorem exactBacklog_nonneg (a : Adaptive) (t : Timing) (s : State) : 0 ≤ a.exactBacklog t s :=
  Int.le_max_left 0 _

/-- A backlog and the work of one frame never come to twice what 32 bits hold. -/
theorem exactBacklog_le (a : Adaptive) (t : Timing) (s : State) :
    a.exactBacklog t s ≤ 2 * 4294967295 := by
  have hbacklog := s.backlogUs.toNat_lt
  have hwork := t.workUs.toNat_lt
  rw [Adaptive.exactBacklog]
  omega

theorem Adaptive.endFrame_ok
    (h : a.tuning.audioWaitResetUs < t.audioWaitUs ∨ a.backlogBound t < 2 ^ 63) :
    a.endFrame t s = .ok () (a.frameEnd t s) := by
  rw [endFrame, show (1 <<< 63 : Nat) = 2 ^ 63 by decide, if_pos h]
  rfl

theorem Adaptive.endFrame_overflow
    (h : ¬(a.tuning.audioWaitResetUs < t.audioWaitUs ∨ a.backlogBound t < 2 ^ 63)) :
    a.endFrame t s = .error .overflow s := by
  rw [endFrame, show (1 <<< 63 : Nat) = 2 ^ 63 by decide, if_neg h]
  rfl

/-- **All that the end of a frame does,** if the wait for the audio side does not settle it. -/
theorem Adaptive.endFrame_eq (hwait : t.audioWaitUs ≤ a.tuning.audioWaitResetUs) :
    a.endFrame t s = if a.backlogBound t < 2 ^ 63
      then .ok () { s with backlogUs := UInt32.ofNat (a.exactBacklog t s).toNat }
      else .error .overflow s := by
  have hbehind : ¬a.tuning.audioWaitResetUs < t.audioWaitUs := UInt32.not_lt.mpr hwait
  -- The subtraction that stops at 0 is the lower end of the range.
  have hexact : (a.exactBacklog t s).toNat =
      min (s.backlogUs.toNat + t.workUs.toNat - t.budgetUs.toNat) (a.backlogBound t) := by
    rw [exactBacklog]
    omega
  by_cases hbound : a.backlogBound t < 2 ^ 63
  · rw [endFrame_ok (.inr hbound), if_pos hbound, hexact, frameEnd, if_neg hbehind]
  · rw [endFrame_overflow (not_or.mpr ⟨hbehind, hbound⟩), if_neg hbound]

/-- Keeping the low 32 bits is the same as saturating just for numbers that 32 bits hold. -/
theorem ofNat_eq_saturate_iff {n : Int} (hnonneg : 0 ≤ n) (hle : n ≤ 2 * 4294967295) :
    UInt32.ofNat n.toNat = saturate n ↔ n < 2 ^ 32 := by
  rw [saturate, ← UInt32.toNat_inj, UInt32.toNat_ofNat', UInt32.toNat_ofNat']
  omega

/-- **A slower frame owes more,** and so does one that began with more. -/
theorem exactBacklog_mono (a : Adaptive) (hbudget : t.budgetUs = t'.budgetUs)
    (hwork : t.workUs ≤ t'.workUs) (hbacklog : s.backlogUs ≤ s'.backlogUs) :
    a.exactBacklog t s ≤ a.exactBacklog t' s' := by
  have hbound : a.backlogBound t = a.backlogBound t' := by
    rw [Adaptive.backlogBound, hbudget, Adaptive.backlogBound]
  have hwork : t.workUs.toNat ≤ t'.workUs.toNat := UInt32.le_iff_toNat_le.mp hwork
  have hbacklog : s.backlogUs.toNat ≤ s'.backlogUs.toNat := UInt32.le_iff_toNat_le.mp hbacklog
  rw [Adaptive.exactBacklog, Adaptive.exactBacklog, hbudget, hbound]
  omega

theorem saturate_mono {m n : Int} (h : m ≤ n) : saturate m ≤ saturate n := by
  rw [saturate, saturate, UInt32.le_iff_toNat_le, UInt32.toNat_ofNat', UInt32.toNat_ofNat']
  omega

/-- A bound and an exact backlog that fit are stored as they are. -/
theorem Adaptive.endFrame_exact (hwait : t.audioWaitUs ≤ a.tuning.audioWaitResetUs)
    (hbound : a.backlogBound t < 2 ^ 63) (hfits : a.exactBacklog t s < 2 ^ 32) :
    a.endFrame t s = .ok () { s with backlogUs := saturate (a.exactBacklog t s) } := by
  rw [endFrame_eq hwait, if_pos hbound,
    (ofNat_eq_saturate_iff (exactBacklog_nonneg a t s) (exactBacklog_le a t s)).mpr hfits]

end

/-! ### The budgets of the frame loop -/

/-- A frame with less than 35 minutes' budget never has a bound that is a fault. -/
theorem Controller.endFrame_eq_finishFrame {c : Controller} {t : Timing}
    (hbudget : t.budgetUs.toNat < 2 ^ 31) : endFrame t c = .ok () (c.finishFrame t) := by
  obtain ⟨policy, state, maxConsecutive, stats⟩ := c
  have hend : policy.endFrame t state = .ok () (policy.frameEnd t state) := by
    cases policy with
    | pattern level => rfl
    | adaptive a =>
      have hbound : a.backlogBound t < 2 ^ 63 := by
        have hframes := a.tuning.maxBacklogFrames.toNat_lt
        calc t.budgetUs.toNat * a.tuning.maxBacklogFrames.toNat
            ≤ 2 ^ 31 * a.tuning.maxBacklogFrames.toNat :=
              Nat.mul_le_mul_right _ (Nat.le_of_lt hbudget)
          _ < 2 ^ 31 * 2 ^ 32 := Nat.mul_lt_mul_of_pos_left hframes (by decide)
          _ = 2 ^ 63 := by decide
      exact Adaptive.endFrame_ok (.inr hbound)
  rw [endFrame, Run.get_bind]
  exact Run.within_ok hend

/-- **The frame loop asks for no bound that is a fault:** its budgets are those of the regions. -/
theorem Controller.endFrame_sample (c : Controller) (r : Video.Registers) (workUs waitUs : UInt32) :
    endFrame ⟨workUs, waitUs, UInt32.ofNat (Video.Mode.sample r).budgetUs⟩ c =
      .ok () (c.finishFrame ⟨workUs, waitUs, UInt32.ofNat (Video.Mode.sample r).budgetUs⟩) := by
  apply endFrame_eq_finishFrame
  show (UInt32.ofNat r.region.frameBudgetUs).toNat < 2 ^ 31
  cases r.region <;> decide

/-! ### Exact backlogs -/

/-- **The backlog that a frame leaves is the exact one,** held between nothing and its bound, just
    where the bound fits 63 bits and the backlog itself 32. There, it grows with the work of the
    frame and with the backlog before. -/
theorem backlog_exact_iff (a : Adaptive) (t : Timing) (s : State)
    (hwait : t.audioWaitUs ≤ a.tuning.audioWaitResetUs) :
    (a.endFrame t s = .ok () { s with backlogUs := saturate (a.exactBacklog t s) } ↔
      a.backlogBound t < 2 ^ 63 ∧ a.exactBacklog t s < 2 ^ 32) ∧
    (a.backlogBound t < 2 ^ 63 → a.exactBacklog t s < 2 ^ 32 →
      ∀ workUs ≤ t.workUs, ∀ backlogUs ≤ s.backlogUs, ∃ lower upper,
        a.endFrame { t with workUs } { s with backlogUs } = .ok () { s with backlogUs := lower } ∧
        a.endFrame t s = .ok () { s with backlogUs := upper } ∧ lower ≤ upper) := by
  constructor
  · constructor
    · intro h
      rw [Adaptive.endFrame_eq hwait] at h
      by_cases hbound : a.backlogBound t < 2 ^ 63
      · rw [if_pos hbound] at h
        injection h with _ h
        injection h with _ h
        exact ⟨hbound,
          (ofNat_eq_saturate_iff (exactBacklog_nonneg a t s) (exactBacklog_le a t s)).mp h⟩
      · rw [if_neg hbound] at h
        cases h
    · rintro ⟨hbound, hfits⟩
      exact Adaptive.endFrame_exact hwait hbound hfits
  · intro hbound hfits workUs hwork backlogUs hbacklog
    -- Less work with less before owes no more, so it fits where the other does.
    have hmono : a.exactBacklog { t with workUs } { s with backlogUs } ≤ a.exactBacklog t s :=
      exactBacklog_mono a rfl hwork hbacklog
    exact ⟨_, _, Adaptive.endFrame_exact hwait hbound (Int.lt_of_le_of_lt hmono hfits),
      Adaptive.endFrame_exact hwait hbound hfits, saturate_mono hmono⟩

/-- A frame that takes a millisecond longer than its budget, and one that takes less. -/
theorem backlog_grows_by_default :
    (500 : UInt32) ≤ ({} : Tuning).audioWaitResetUs ∧
      (Adaptive.mk {} none 0).endFrame ⟨17666, 500, 16666⟩ { backlogUs := 1000 } =
        .ok () { backlogUs := 2000 } ∧
      ∃ lower upper,
        (Adaptive.mk {} none 0).endFrame ⟨17000, 500, 16666⟩ { backlogUs := 800 } =
          .ok () { backlogUs := lower } ∧
        (Adaptive.mk {} none 0).endFrame ⟨17666, 500, 16666⟩ { backlogUs := 1000 } =
          .ok () { backlogUs := upper } ∧ lower ≤ upper := by
  have h := backlog_exact_iff ⟨{}, none, 0⟩ ⟨17666, 500, 16666⟩ { backlogUs := 1000 } (by decide)
  exact ⟨by decide, h.1.mpr ⟨by decide, by decide⟩,
    h.2 (by decide) (by decide) 17000 (by decide) 800 (by decide)⟩

/-- One microsecond more of work, and nothing is left of a backlog that had been as large as can
    be. -/
example : (Adaptive.mk { maxBacklogFrames := 4294967295 } none 0).endFrame ⟨3, 0, 2⟩
    { backlogUs := 4294967295 } = .ok () { backlogUs := 0 } :=
  rfl

end ConsolePipeline.FrameSkip
