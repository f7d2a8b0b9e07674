namespace ConsolePipeline.Stereo

/-!
# Shares of a level

Both the decay and the ramp of a crossfade take a share of a level, rounded toward zero. Such a
share has the sign of the level, and its size is the share of the level's size, rounded down.

* `share` — a share of a level.
* `natAbs_share`, `share_nonneg`, `share_nonpos` — its size and its sign.
* `share_between`, `share_mono` — it lies between zero and the level, and grows with the part taken.
-/

/-- The share `part / whole` of a level, rounded toward zero. -/
def share (level : Int) (part whole : Nat) : Int :=
  (level * part).tdiv whole

variable {level : Int} {part part' whole : Nat}

theorem natAbs_share (level : Int) (part whole : Nat) :
    (share level part whole).natAbs = level.natAbs * part / whole := by
  rw [share, Int.natAbs_tdiv, Int.natAbs_mul, Int.natAbs_natCast, Int.natAbs_natCast]
  rfl

theorem share_nonneg (h : 0 ≤ level) (part whole : Nat) : 0 ≤ share level part whole :=
  Int.tdiv_nonneg (Int.mul_nonneg h (Int.natCast_nonneg part)) (Int.natCast_nonneg whole)

theorem share_neg (level : Int) (part whole : Nat) :
    share (-level) part whole = -share level part whole := by
  rw [share, share, Int.neg_mul, Int.neg_tdiv]

theorem share_nonpos (h : level ≤ 0) (part whole : Nat) : share level part whole ≤ 0 := by
  have hneg := share_nonneg (Int.neg_nonneg_of_nonpos h) part whole
  rw [share_neg] at hneg
  omega

/-- All of a level. -/
theorem share_self (level : Int) (h : 0 < whole) : share level whole whole = level := by
  rw [share, Int.mul_tdiv_cancel _ (by omega)]

/-- A part of a level is no larger than the level. -/
theorem natAbs_share_le (level : Int) (h : part ≤ whole) :
    (share level part whole).natAbs ≤ level.natAbs := by
  rw [natAbs_share]
  exact Nat.div_le_of_le_mul (by rw [Nat.mul_comm whole]; exact Nat.mul_le_mul_left _ h)

/-- Less than all of a level is smaller than the level. -/
theorem natAbs_share_lt (h : part < whole) (hlevel : level ≠ 0) :
    (share level part whole).natAbs < level.natAbs := by
  have hpos : 0 < level.natAbs := Int.natAbs_pos.mpr hlevel
  rw [natAbs_share, Nat.div_lt_iff_lt_mul (by omega)]
  exact Nat.mul_lt_mul_of_pos_left h hpos

/-- **A share lies between zero and the level.** -/
theorem share_between (level : Int) (h : part ≤ whole) :
    min 0 level ≤ share level part whole ∧ share level part whole ≤ max 0 level := by
  have hsize := natAbs_share_le level h
  rcases Int.le_total 0 level with hlevel | hlevel
  · have := share_nonneg hlevel part whole
    omega
  · have := share_nonpos hlevel part whole
    omega

/-- **A larger part is a larger share,** away from zero. -/
theorem share_mono (level : Int) (h : part ≤ part') (whole : Nat) :
    (0 ≤ level → share level part whole ≤ share level part' whole) ∧
      (level ≤ 0 → share level part' whole ≤ share level part whole) := by
  have hsize : (share level part whole).natAbs ≤ (share level part' whole).natAbs := by
    rw [natAbs_share, natAbs_share]
    exact Nat.div_le_div_right (Nat.mul_le_mul_left _ h)
  constructor
  · intro hlevel
    have := share_nonneg hlevel part whole
    have := share_nonneg hlevel part' whole
    omega
  · intro hlevel
    have := share_nonpos hlevel part whole
    have := share_nonpos hlevel part' whole
    omega

end ConsolePipeline.Stereo
