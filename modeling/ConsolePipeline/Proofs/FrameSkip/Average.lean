import ConsolePipeline.Proofs.FrameSkip.Turns

namespace ConsolePipeline.FrameSkip

/-!
# The average cost of a render

The first measured render is the average; each further one moves it an eighth of the way, rounded
down. An average of 0 stands for no measurement at all, and so does a measurement of 0. The rounding
leaves an average that comes from below short of its goal, by 7 microseconds at most.

* `blended`, `settled` — one measurement more, and where the same one again and again leads.
* `blended_eq_iff`, `iterate_blended` — the averages that stay where they are, and how soon one of
  them is reached.
* `costsSince` — the measurements since the last reset.
* `Averaged`, `Averaged.rendered` — an average of measurements, and one measurement more.
* `Steadily`, `History.run_steadily` — calls that measure the same cost all over.
* `Approaches` — an average on its way to a cost, after so many measurements of it.
* `average_well_behaved` — any calls, and then any such calls.
-/

/-! ### One measurement more -/

/-- The average after one more measurement, which is not 0. -/
def blended (cost average : Nat) : Nat :=
  if average = 0 then cost else (average * 7 + cost) / 8

/-- Where an average comes to rest if the same cost is measured again and again. -/
def settled (cost average : Nat) : Nat :=
  if average = 0 ∨ cost ≤ average then cost else max average (cost - 7)

section Blended

variable {cost average : Nat}

/-- Rounding down never takes an average back to 0. -/
theorem blended_pos (hcost : 0 < cost) : 0 < blended cost average := by
  unfold blended
  split_ifs <;> omega

/-- From below, the average rises and does not pass the cost. -/
theorem blended_of_le (h : average ≤ cost) :
    average ≤ blended cost average ∧ blended cost average ≤ cost := by
  unfold blended
  split_ifs <;> omega

/-- From above, it falls and does not pass it either. -/
theorem blended_of_ge (h : cost ≤ average) :
    cost ≤ blended cost average ∧ blended cost average ≤ average := by
  unfold blended
  split_ifs <;> omega

/-- **The averages that stay where they are** reach from 7 below the cost up to it. -/
theorem blended_eq_iff (haverage : 0 < average) :
    blended cost average = average ↔ average ≤ cost ∧ cost ≤ average + 7 := by
  rw [blended, if_neg (Nat.pos_iff_ne_zero.mp haverage)]
  omega

theorem settled_of_ge (h : cost ≤ average) : settled cost average = cost :=
  if_pos (.inr h)

/-- **An average comes to rest** at the cost, or short of it by 7 at most. -/
theorem settled_near (cost average : Nat) :
    settled cost average ≤ cost ∧ cost ≤ settled cost average + 7 := by
  unfold settled
  split_ifs <;> omega

/-- A measurement does not change where the average is going. -/
theorem settled_blended (hcost : 0 < cost) (average : Nat) :
    settled cost (blended cost average) = settled cost average := by
  unfold settled blended
  split_ifs <;> omega

/-- An average at rest is where it was going. -/
theorem settled_eq_self (haverage : 0 < average) (h : blended cost average = average) :
    settled cost average = average := by
  obtain ⟨hle, hnear⟩ := (blended_eq_iff haverage).mp h
  unfold settled
  split_ifs <;> omega

/-- **The same cost again and again:** as many measurements are enough as there are microseconds
    between the average and the cost. -/
theorem iterate_blended (hcost : 0 < cost) {n : Nat}
    (hn : (average - cost) + (cost - average) ≤ n) :
    (blended cost)^[n] average = settled cost average := by
  induction n generalizing average with
  | zero =>
    obtain rfl : average = cost := by omega
    exact (settled_of_ge (Nat.le_refl average)).symm
  | succ n ih =>
    rw [Function.iterate_succ_apply]
    by_cases hrest : 0 < average ∧ blended cost average = average
    · obtain ⟨hpos, hfixed⟩ := hrest
      rw [hfixed, Function.iterate_fixed hfixed, settled_eq_self hpos hfixed]
    · -- An average that is not at rest comes nearer.
      rw [← settled_blended hcost average]
      apply ih
      rcases Nat.le_total average cost with hle | hge
      · obtain ⟨hrises, hstops⟩ := blended_of_le hle
        have hpos : 0 < blended cost average := blended_pos hcost
        omega
      · obtain ⟨hstops, hfalls⟩ := blended_of_ge hge
        omega

/-- Any number of measurements from below. -/
theorem iterate_blended_of_le (h : average ≤ cost) (n : Nat) :
    average ≤ (blended cost)^[n] average ∧ (blended cost)^[n] average ≤ cost := by
  induction n with
  | zero => exact ⟨Nat.le_refl _, h⟩
  | succ n ih =>
    obtain ⟨hle, hcost⟩ := ih
    obtain ⟨hrises, hstops⟩ := blended_of_le hcost
    rw [Function.iterate_succ_apply']
    exact ⟨Nat.le_trans hle hrises, hstops⟩

/-- Any number of measurements from above. -/
theorem iterate_blended_of_ge (h : cost ≤ average) (n : Nat) :
    cost ≤ (blended cost)^[n] average ∧ (blended cost)^[n] average ≤ average := by
  induction n with
  | zero => exact ⟨h, Nat.le_refl _⟩
  | succ n ih =>
    obtain ⟨hcost, hle⟩ := ih
    obtain ⟨hstops, hfalls⟩ := blended_of_ge hcost
    rw [Function.iterate_succ_apply']
    exact ⟨hstops, Nat.le_trans hfalls hle⟩

end Blended

/-! ### The average of a controller -/

namespace Policy

/-- No decision touches the average. -/
@[simp] theorem renderCostUs_decided (p : Policy) (frame : Nat) (render : Bool) (s : State) :
    (p.decided frame render s).2.renderCostUs = s.renderCostUs := by
  cases p with
  | pattern level => rfl
  | adaptive a => cases render <;> rfl

/-- Nor does the end of a frame. -/
@[simp] theorem renderCostUs_frameEnd (p : Policy) (t : Timing) (s : State) :
    (p.frameEnd t s).renderCostUs = s.renderCostUs := by
  cases p with
  | pattern level => rfl
  | adaptive a =>
    show (a.frameEnd t s).renderCostUs = _
    unfold Adaptive.frameEnd
    split_ifs <;> rfl

end Policy

/-- A measurement of 0 leaves the average alone. -/
theorem Adaptive.rendered_zero (s : State) : Adaptive.rendered 0 s = s :=
  if_pos rfl

/-- **A measurement is blended in,** and the average of two 32-bit numbers is one. -/
theorem Adaptive.renderCostUs_rendered {us : UInt32} (hus : us ≠ 0) (s : State) :
    (Adaptive.rendered us s).renderCostUs.toNat = blended us.toNat s.renderCostUs.toNat := by
  have hzero : s.renderCostUs = 0 ↔ s.renderCostUs.toNat = 0 := UInt32.toNat_inj.symm
  have hfits : (s.renderCostUs.toNat * 7 + us.toNat) / 8 < UInt32.size := by
    have := s.renderCostUs.toNat_lt
    have := us.toNat_lt
    simp only [UInt32.size]
    omega
  unfold Adaptive.rendered blended
  simp only [hus, hzero, if_false]
  split_ifs
  · rfl
  · exact UInt32.toNat_ofNat_of_lt' hfits

/-! ### The measurements behind an average -/

/-- The measurements after one more call. A reset begins anew, and so does another policy. -/
def costsAfter : List UInt32 → Call → List UInt32
  | costs, .recordRender us => costs ++ [us]
  | _, .setPolicy _ => []
  | _, .reset => []
  | costs, _ => costs

/-- The measurements since the last reset, in order. -/
def costsSince (calls : List Call) : List UInt32 :=
  calls.foldl costsAfter []

/-- **An average of measurements:** 0 if there was none but 0, and else between the smallest and the
    largest that were not 0. -/
structure Averaged (costs : List UInt32) (average : UInt32) : Prop where
  zero_iff : average = 0 ↔ ∀ us ∈ costs, us = 0
  between : average ≠ 0 →
    (∃ low ∈ costs, low ≠ 0 ∧ low ≤ average) ∧ ∃ high ∈ costs, average ≤ high

namespace Averaged

variable {costs : List UInt32} {s : State}

/-- Nothing has been measured. -/
theorem none : Averaged [] 0 :=
  ⟨by simp, fun h => absurd rfl h⟩

/-- **One measurement more.** -/
theorem rendered (h : Averaged costs s.renderCostUs) (us : UInt32) :
    Averaged (costs ++ [us]) (Adaptive.rendered us s).renderCostUs := by
  by_cases hus : us = 0
  · subst hus
    rw [Adaptive.rendered_zero]
    constructor
    · rw [h.zero_iff]
      simp [or_imp]
    · intro hne
      obtain ⟨⟨low, hlow, hrest⟩, high, hhigh, hle⟩ := h.between hne
      exact ⟨⟨low, List.mem_append_left _ hlow, hrest⟩, high, List.mem_append_left _ hhigh, hle⟩
  have hlast : us ∈ costs ++ [us] := List.mem_append_right _ (List.mem_singleton_self us)
  have hblended := Adaptive.renderCostUs_rendered hus s
  have hcost : 0 < us.toNat := Nat.pos_of_ne_zero fun h0 => hus (UInt32.toNat_inj.mp h0)
  have hpos : 0 < blended us.toNat s.renderCostUs.toNat := blended_pos hcost
  have hne : (Adaptive.rendered us s).renderCostUs ≠ 0 := by
    intro h0
    rw [h0, UInt32.toNat_zero] at hblended
    omega
  refine ⟨⟨fun h0 => absurd h0 hne, fun hall => absurd (hall us hlast) hus⟩, fun _ => ?_⟩
  simp only [UInt32.le_iff_toNat_le, hblended]
  by_cases hfirst : s.renderCostUs = 0
  · -- The first measurement is the average.
    have hseed : blended us.toNat s.renderCostUs.toNat = us.toNat := by
      rw [hfirst]
      rfl
    rw [hseed]
    exact ⟨⟨us, hlast, hus, Nat.le_refl _⟩, us, hlast, Nat.le_refl _⟩
  · obtain ⟨⟨low, hlow, hlow0, hlowle⟩, high, hhigh, hhighle⟩ := h.between hfirst
    rw [UInt32.le_iff_toNat_le] at hlowle hhighle
    rcases Nat.le_total s.renderCostUs.toNat us.toNat with hle | hge
    · obtain ⟨hrises, hstops⟩ := blended_of_le hle
      exact ⟨⟨low, List.mem_append_left _ hlow, hlow0, by omega⟩, us, hlast, hstops⟩
    · obtain ⟨hstops, hfalls⟩ := blended_of_ge hge
      exact ⟨⟨us, hlast, hus, hstops⟩, high, List.mem_append_left _ hhigh, by omega⟩

end Averaged

namespace History

variable {h : History} {calls : List Call} {costs : List UInt32} {us : UInt32}

/-- The average of the measurements, if the policy keeps one. -/
def KeepsAverage (h : History) (costs : List UInt32) : Prop :=
  ∀ a, h.controller.policy = .adaptive a → Averaged costs h.controller.state.renderCostUs

/-- **One call more,** whatever it is. -/
theorem KeepsAverage.call (h : History) (hkeeps : h.KeepsAverage costs) (call : Call) :
    (h.call call).KeepsAverage (costsAfter costs call) := by
  obtain ⟨c, rs⟩ := h
  intro a ha
  cases call with
  | decide frame force =>
    -- A decision may change what the policy remembers, but not which policy it is.
    have hpolicy : ∃ b, c.policy = .adaptive b := by
      cases hp : c.policy with
      | pattern level => simp [History.call, Controller.decide, Policy.decided, hp] at ha
      | adaptive b => exact ⟨b, rfl⟩
    obtain ⟨b, hb⟩ := hpolicy
    show Averaged costs (c.policy.decided frame _ c.state).2.renderCostUs
    rw [Policy.renderCostUs_decided]
    exact hkeeps b hb
  | recordRender us =>
    have ha : c.policy = .adaptive a := ha
    show Averaged (costs ++ [us]) (c.policy.rendered us c.state).renderCostUs
    rw [ha]
    exact (hkeeps a ha).rendered us
  | finishFrame t =>
    show Averaged costs (c.policy.frameEnd t c.state).renderCostUs
    rw [Policy.renderCostUs_frameEnd]
    exact hkeeps a ha
  | setPolicy selection => exact .none
  | reset => exact .none

theorem KeepsAverage.run (hkeeps : h.KeepsAverage costs) (calls : List Call) :
    (h.run calls).KeepsAverage (calls.foldl costsAfter costs) := by
  induction calls generalizing h costs with
  | nil => exact hkeeps
  | cons first rest ih => exact ih (hkeeps.call h first)

end History

/-! ### The same cost again and again -/

/-- Whether a call reports a measured render. -/
def Call.measures : Call → Bool
  | .recordRender _ => true
  | _ => false

/-- Calls of one session that measure the same cost each time. -/
def Steadily (us : UInt32) (calls : List Call) : Prop :=
  ∀ call ∈ calls, match call with
    | .decide _ _ => True
    | .recordRender measured => measured = us
    | .finishFrame _ => True
    | .setPolicy _ => False
    | .reset => False

namespace History

variable {h : History} {us : UInt32}

/-- **Each measurement of the same cost is one more blend,** and nothing else moves the average. -/
theorem run_steadily {a : Adaptive} (hpolicy : h.controller.policy = .adaptive a) (hus : us ≠ 0)
    {calls : List Call} (hsteady : Steadily us calls) :
    (h.run calls).controller.state.renderCostUs.toNat =
      (blended us.toNat)^[calls.countP Call.measures] h.controller.state.renderCostUs.toNat := by
  -- By induction on the calls, from any state: a call measures, or leaves the average alone.
  induction calls generalizing h a with
  | nil => rfl
  | cons first rest ih =>
    obtain ⟨c, rs⟩ := h
    have hpolicy : c.policy = .adaptive a := hpolicy
    have hfirst := hsteady first List.mem_cons_self
    have hrest : Steadily us rest := fun call hcall => hsteady call (List.mem_cons_of_mem _ hcall)
    rw [List.countP_cons]
    cases first with
    | decide frame force =>
      have hdecided :
          ∃ b, (call ⟨c, rs⟩ (.decide frame force)).controller.policy = .adaptive b := by
        simp only [call, Controller.decide, Policy.decided, hpolicy]
        exact ⟨_, rfl⟩
      obtain ⟨b, hb⟩ := hdecided
      have hsame : (call ⟨c, rs⟩ (.decide frame force)).controller.state.renderCostUs =
          c.state.renderCostUs := Policy.renderCostUs_decided c.policy frame _ c.state
      exact (ih hb hrest).trans (by rw [hsame]; rfl)
    | recordRender measured =>
      obtain rfl : measured = us := hfirst
      have hblended : (call ⟨c, rs⟩ (.recordRender measured)).controller.state.renderCostUs.toNat =
          blended measured.toNat c.state.renderCostUs.toNat := by
        show (c.policy.rendered measured c.state).renderCostUs.toNat = _
        rw [hpolicy]
        exact Adaptive.renderCostUs_rendered hus c.state
      exact (ih hpolicy hrest).trans (by rw [hblended]; rfl)
    | finishFrame t =>
      have hsame : (call ⟨c, rs⟩ (.finishFrame t)).controller.state.renderCostUs =
          c.state.renderCostUs := Policy.renderCostUs_frameEnd c.policy t c.state
      exact (ih hpolicy hrest).trans (by rw [hsame]; rfl)
    | setPolicy selection => exact hfirst.elim
    | reset => exact hfirst.elim

end History

/-- **An average on its way to a cost,** after `n` measurements of it: it does not turn back and
    does not pass the cost, and it stays in the end at one value, the cost itself if it came from
    above and at most 7 less if it came from below. -/
structure Approaches (us before : UInt32) (n : Nat) (after : UInt32) : Prop where
  rises : before ≤ us → before ≤ after ∧ after ≤ us
  falls : us ≤ before → us ≤ after ∧ after ≤ before
  rests : (before.toNat - us.toNat) + (us.toNat - before.toNat) ≤ n →
    after.toNat = settled us.toNat before.toNat

theorem Approaches.iterate {us before after : UInt32} {n : Nat} (hus : us ≠ 0)
    (h : after.toNat = (blended us.toNat)^[n] before.toNat) : Approaches us before n after := by
  have hcost : 0 < us.toNat := Nat.pos_of_ne_zero fun h0 => hus (UInt32.toNat_inj.mp h0)
  constructor
  · intro hle
    simp only [UInt32.le_iff_toNat_le, h] at hle ⊢
    exact iterate_blended_of_le hle n
  · intro hge
    simp only [UInt32.le_iff_toNat_le, h] at hge ⊢
    exact iterate_blended_of_ge hge n
  · intro hn
    rw [h, iterate_blended hcost hn]

/-- **The average of an adaptive policy is well behaved.** After any calls, it is 0 just if nothing
    but 0 was measured since the last reset, and else it lies between measurements that were not 0.
    Calls that go on to measure one cost, with any decisions and ends of frames between them, move
    it to where it stays. -/
theorem average_well_behaved (selection : Selection) (cap : Nat) (calls : List Call) {a : Adaptive}
    (hpolicy : ((History.new selection cap).run calls).controller.policy = .adaptive a) :
    let average (calls : List Call) : UInt32 :=
      ((History.new selection cap).run calls).controller.state.renderCostUs
    Averaged (costsSince calls) (average calls) ∧
      ∀ us ≠ 0, ∀ goal, goal = settled us.toNat (average calls).toNat →
        goal ≤ us.toNat ∧ us.toNat ≤ goal + 7 ∧ (us ≤ average calls → goal = us.toNat) ∧
          ∀ more, Steadily us more →
            Approaches us (average calls) (more.countP Call.measures) (average (calls ++ more)) := by
  intro average
  have hnew : (History.new selection cap).KeepsAverage [] := fun _ _ => .none
  refine ⟨hnew.run calls a hpolicy, ?_⟩
  rintro us hus goal rfl
  obtain ⟨hle, hnear⟩ := settled_near us.toNat (average calls).toNat
  refine ⟨hle, hnear, fun hge => settled_of_ge (UInt32.le_iff_toNat_le.mp hge), ?_⟩
  intro more hsteady
  apply Approaches.iterate hus
  -- The calls made since go on from where the others left the average.
  have hmore := History.run_steadily hpolicy hus hsteady
  rwa [← History.run_append] at hmore

/-- A render of 8 ms, a missing measurement and a render of 16 ms average to 9 ms; further renders
    of 16 ms bring the average no nearer than 7 microseconds. -/
theorem average_of_three_renders :
    let calls : List Call :=
      [.recordRender 8000, .recordRender 0, .decide 0 false, .recordRender 16000]
    let average := ((History.new (.adaptive {}) 2).run calls).controller.state.renderCostUs
    average = 9000 ∧ Averaged [8000, 0, 16000] average ∧
      ∀ more, Steadily 16000 more → 7000 ≤ more.countP Call.measures →
        ((History.new (.adaptive {}) 2).run (calls ++ more)).controller.state.renderCostUs =
          15993 := by
  intro calls average
  have hpolicy : ((History.new (.adaptive {}) 2).run calls).controller.policy =
      .adaptive ⟨{}, some 0, 0⟩ := by decide
  obtain ⟨haveraged, happroaches⟩ := average_well_behaved (.adaptive {}) 2 calls hpolicy
  have haverage : average = 9000 := by decide
  refine ⟨haverage, haveraged, fun more hsteady hmany => ?_⟩
  have hgoal : 15993 = settled (16000 : UInt32).toNat average.toNat := by
    rw [haverage]
    rfl
  -- Each measurement brings the average nearer by one at least, until it rests.
  have hdistance : (average.toNat - (16000 : UInt32).toNat) +
      ((16000 : UInt32).toNat - average.toNat) = 7000 := by
    rw [haverage]
    rfl
  obtain ⟨-, -, -, hmore⟩ := happroaches 16000 (by decide) 15993 hgoal
  have hrests := (hmore more hsteady).rests (hdistance.trans_le hmany)
  exact UInt32.toNat_inj.mp (hrests.trans hgoal.symm)

end ConsolePipeline.FrameSkip
