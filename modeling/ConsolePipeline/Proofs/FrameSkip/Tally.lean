import Mathlib.Data.List.DropRight
import Mathlib.Order.Bounds.Basic
import ConsolePipeline.FrameSkip.Controller

namespace ConsolePipeline.FrameSkip

/-!
# What a controller counts

A controller keeps counts and forgets the decisions that they are counts of. Here its calls are
played with all decisions since the last reset written down beside it, so that each count can be
held against the decisions themselves.

* `Call`, `History` — what is asked of a controller, and its decisions so far.
* `Controller.choose_forced`, `reason_of_skip`, `reason_eq_limit_iff` — what a decision says.
* `trailingSkips`, `SkipsInRow`, `cappedWishes` — skips in a row, read off the decisions.
* `Tallied` — a controller whose counts are those of its decisions.
* `Tallied.decide`, `Tallied.call` — one decision more, one call more.
* `skips_tallied` — any policy, any cap, any calls.
-/

/-! ### Calls and their history -/

/-- What is asked of a controller. -/
inductive Call
  | decide (frame : Nat) (force : Bool)
  | recordRender (us : UInt32)
  | finishFrame (t : Timing)
  | setPolicy (selection : Selection)
  | reset
  deriving DecidableEq, Repr, Inhabited

/-- One decision with what it was made from. -/
structure Ruling where
  /-- Whether the policy by itself wanted the frame rendered. -/
  wished : Bool
  /-- Whether the frame had to be rendered. -/
  force : Bool
  decision : Decision
  deriving DecidableEq, Repr, Inhabited

/-- A frame that was skipped. -/
def Ruling.skips (r : Ruling) : Bool :=
  !r.decision.render

/-- A controller and its decisions since the last reset, in order. -/
structure History where
  controller : Controller
  rulings : List Ruling := []
  deriving DecidableEq, Repr, Inhabited

namespace History

/-- A new controller, which has decided nothing. -/
def new (selection : Selection) (cap : Nat) : History where
  controller := .new selection cap

/-- The decision of a controller on a frame, with what it was made from. -/
def ruling (c : Controller) (frame : Nat) (force : Bool) : Ruling :=
  ⟨c.policy.wantsRender frame c.state, force, (c.decide frame force).1⟩

/-- One call. A reset begins a new history, and so does another policy. -/
def call : History → Call → History
  | ⟨c, rulings⟩, .decide frame force =>
    ⟨(c.decide frame force).2, rulings ++ [ruling c frame force]⟩
  | ⟨c, rulings⟩, .recordRender us => ⟨c.recordRender us, rulings⟩
  | ⟨c, rulings⟩, .finishFrame t => ⟨c.finishFrame t, rulings⟩
  | ⟨c, _⟩, .setPolicy selection => ⟨c.setPolicy selection, []⟩
  | ⟨c, _⟩, .reset => ⟨c.reset, []⟩

/-- Any number of calls. -/
def run (h : History) (calls : List Call) : History :=
  calls.foldl call h

end History

/-! ### What a decision says -/

namespace Controller

variable {c : Controller} {frame : Nat} {force : Bool}

/-- A frame that has to be rendered is rendered. -/
theorem choose_forced (c : Controller) (frame : Nat) : (c.choose frame true).render = true := by
  unfold choose
  simp only [if_true]
  split_ifs <;> rfl

/-- **A frame is skipped** only for the policy's sake, below the cap, and if nobody objects. -/
theorem reason_of_skip (h : (c.choose frame force).render = false) :
    (c.choose frame force).reason = .policy ∧
      c.state.consecutiveSkipped < c.maxConsecutive := by
  unfold choose at h ⊢
  by_cases hwish : c.policy.wantsRender frame c.state = true
  · simp [hwish] at h
  by_cases hcap : c.maxConsecutive ≤ c.state.consecutiveSkipped
  · simp [hwish, hcap] at h
  · -- What is left of the rules can only add renders.
    simp only [hwish, hcap, if_false, Bool.false_eq_true] at h ⊢
    split_ifs at h ⊢
    exact ⟨rfl, by omega⟩

/-- **The cap decides** exactly when the policy wants a skip and the cap has been reached. -/
theorem reason_eq_limit_iff :
    (c.choose frame force).reason = .consecutiveLimit ↔
      c.policy.wantsRender frame c.state = false ∧
        c.maxConsecutive ≤ c.state.consecutiveSkipped := by
  unfold choose
  by_cases hwish : c.policy.wantsRender frame c.state = true
  · simp [hwish]
  by_cases hcap : c.maxConsecutive ≤ c.state.consecutiveSkipped
  · simp [hwish, hcap]
  · -- Below the cap the reasons left are others.
    simp only [hwish, hcap, if_false, Bool.false_eq_true, and_false, iff_false]
    split_ifs <;> simp

end Controller

namespace Policy

/-- No policy touches the run of skips when a decision is final. -/
@[simp] theorem consecutiveSkipped_decided (p : Policy) (frame : Nat) (render : Bool) (s : State) :
    (p.decided frame render s).2.consecutiveSkipped = s.consecutiveSkipped := by
  cases p with
  | pattern level => rfl
  | adaptive a => cases render <;> rfl

/-- Nor when a render has been measured. -/
@[simp] theorem consecutiveSkipped_rendered (p : Policy) (us : UInt32) (s : State) :
    (p.rendered us s).consecutiveSkipped = s.consecutiveSkipped := by
  cases p with
  | pattern level => rfl
  | adaptive a =>
    show (Adaptive.rendered us s).consecutiveSkipped = _
    unfold Adaptive.rendered
    split_ifs <;> rfl

/-- Nor when a frame is over. -/
@[simp] theorem consecutiveSkipped_frameEnd (p : Policy) (t : Timing) (s : State) :
    (p.frameEnd t s).consecutiveSkipped = s.consecutiveSkipped := by
  cases p with
  | pattern level => rfl
  | adaptive a =>
    show (a.frameEnd t s).consecutiveSkipped = _
    unfold Adaptive.frameEnd
    split_ifs <;> rfl

end Policy

/-! ### Skips in a row -/

/-- The skips at the end of a history: the run that is still going on. -/
def trailingSkips (rs : List Ruling) : Nat :=
  (rs.rtakeWhile Ruling.skips).length

/-- Whether so many frames were skipped in a row, anywhere in a history. -/
def SkipsInRow (rs : List Ruling) (n : Nat) : Prop :=
  ∃ run, run <:+: rs ∧ (∀ r ∈ run, r.skips = true) ∧ run.length = n

/-- The decisions for which the policy wanted a skip with `cap` skips already in a row. -/
def cappedWishes (cap : Nat) (rs : List Ruling) : Nat :=
  (List.range rs.length).countP fun i =>
    rs[i]?.any (fun r => !r.wished) && trailingSkips (rs.take i) == cap

section Rows

variable {rs : List Ruling} {r : Ruling} {n cap : Nat}

@[simp] theorem trailingSkips_nil : trailingSkips [] = 0 := rfl

/-- A skip goes on with the run, and a render ends it. -/
theorem trailingSkips_concat (rs : List Ruling) (r : Ruling) :
    trailingSkips (rs ++ [r]) = if r.skips then trailingSkips rs + 1 else 0 := by
  unfold trailingSkips
  rw [List.rtakeWhile_concat]
  split_ifs <;> simp

/-- Skips at the end are part of the run that is going on. -/
theorem length_le_trailingSkips {run : List Ruling} (h : run <:+ rs)
    (hskips : ∀ r ∈ run, r.skips = true) : run.length ≤ trailingSkips rs := by
  obtain ⟨before, rfl⟩ := h
  unfold trailingSkips List.rtakeWhile
  rw [List.reverse_append, List.takeWhile_append_of_pos (by simpa using hskips)]
  simp

theorem skipsInRow_trailing (rs : List Ruling) : SkipsInRow rs (trailingSkips rs) :=
  ⟨_, (List.rtakeWhile_suffix _ rs).isInfix, fun _ hr => List.mem_rtakeWhile_imp hr, rfl⟩

/-- **A longest run is an old one or the one that is going on.** -/
theorem isGreatest_concat (h : IsGreatest {n | SkipsInRow rs n} n) (r : Ruling) :
    IsGreatest {n | SkipsInRow (rs ++ [r]) n} (max n (trailingSkips (rs ++ [r]))) := by
  obtain ⟨hmem, hmax⟩ := h
  constructor
  · -- Both are there to be found.
    rcases Nat.le_total n (trailingSkips (rs ++ [r])) with hle | hle
    · rw [Nat.max_eq_right hle]
      exact skipsInRow_trailing _
    · rw [Nat.max_eq_left hle]
      obtain ⟨run, hinfix, hskips, hlength⟩ := hmem
      exact ⟨run, hinfix.trans (List.prefix_append rs [r]).isInfix, hskips, hlength⟩
  · -- A run either ends with the history, or was there before.
    rintro m ⟨run, hinfix, hskips, rfl⟩
    rcases List.infix_concat_iff.mp hinfix with hsuffix | hbefore
    · exact Nat.le_trans (length_le_trailingSkips hsuffix hskips) (Nat.le_max_right _ _)
    · exact Nat.le_trans (hmax ⟨run, hbefore, hskips, rfl⟩) (Nat.le_max_left _ _)

/-- The last decision counts if the policy wanted a skip at the cap. -/
theorem cappedWishes_concat (cap : Nat) (rs : List Ruling) (r : Ruling) :
    cappedWishes cap (rs ++ [r]) =
      cappedWishes cap rs + if r.wished = false ∧ trailingSkips rs = cap then 1 else 0 := by
  unfold cappedWishes
  rw [List.length_append, List.length_singleton, List.range_succ, List.countP_append]
  congr 1
  · -- Earlier decisions see the same history as before.
    apply List.countP_congr
    intro i hi
    have hi : i < rs.length := List.mem_range.mp hi
    rw [List.getElem?_append_left hi, List.take_append_of_le_length (Nat.le_of_lt hi)]
  · simp [List.countP_singleton]

end Rows

/-! ### Counts and decisions -/

/-- **A controller whose counts are those of its decisions** since the last reset, with at most
    `cap` skips in a row. -/
structure Tallied (cap : Nat) (h : History) : Prop where
  maxConsecutive : h.controller.maxConsecutive = cap
  /-- The skips in a row are those at the end. -/
  run : h.controller.state.consecutiveSkipped = trailingSkips h.rulings
  /-- They never exceed the cap. -/
  run_le : h.controller.state.consecutiveSkipped ≤ cap
  /-- No run of skips was longer than the longest one. -/
  longest : IsGreatest {n | SkipsInRow h.rulings n} h.controller.stats.longestSkipRun
  longest_le : h.controller.stats.longestSkipRun ≤ cap
  rendered : h.controller.stats.rendered = h.rulings.countP (·.decision.render)
  skipped : h.controller.stats.skipped = h.rulings.countP Ruling.skips
  /-- Every decision is counted once. -/
  decisions : h.controller.stats.rendered + h.controller.stats.skipped = h.rulings.length
  forced : h.controller.stats.forced = h.rulings.countP (·.force)
  /-- The cap is counted where the policy wanted a skip with as many already in a row. -/
  limitRenders : h.controller.stats.limitRenders = cappedWishes cap h.rulings
  /-- A frame that has to be rendered is rendered. -/
  force_renders : ∀ r ∈ h.rulings, r.force = true → r.decision.render = true
  /-- A skip is never anybody's wish but the policy's. -/
  skip_reason : ∀ r ∈ h.rulings, r.decision.render = false → r.decision.reason = .policy

namespace Tallied

variable {cap : Nat} {c : Controller} {rs : List Ruling} {h' : History}

/-- Nothing has been decided yet. -/
theorem start (hcap : c.maxConsecutive = cap) (hstate : c.state.consecutiveSkipped = 0)
    (hstats : c.stats = {}) : Tallied cap ⟨c, []⟩ := by
  have hlongest : c.stats.longestSkipRun = 0 := by rw [hstats]
  refine
    { maxConsecutive := hcap
      run := hstate
      run_le := by simp [hstate]
      longest := ?_
      longest_le := by simp [hlongest]
      rendered := by simp [hstats]
      skipped := by simp [hstats]
      decisions := by simp [hstats]
      forced := by simp [hstats]
      limitRenders := by simp [hstats, cappedWishes]
      force_renders := by simp
      skip_reason := by simp }
  -- The only run of skips in no decisions is the empty one.
  rw [hlongest]
  constructor
  · exact skipsInRow_trailing []
  · rintro n ⟨run, hinfix, -, rfl⟩
    simp [List.infix_nil.mp hinfix]

/-- A call that decides nothing keeps all counts. -/
theorem keep {c' : Controller} (h : Tallied cap ⟨c, rs⟩)
    (hcap : c'.maxConsecutive = c.maxConsecutive)
    (hstate : c'.state.consecutiveSkipped = c.state.consecutiveSkipped)
    (hstats : c'.stats = c.stats) : Tallied cap ⟨c', rs⟩ where
  maxConsecutive := hcap.trans h.maxConsecutive
  run := hstate.trans h.run
  run_le := hstate ▸ h.run_le
  longest := hstats ▸ h.longest
  longest_le := hstats ▸ h.longest_le
  rendered := hstats ▸ h.rendered
  skipped := hstats ▸ h.skipped
  decisions := hstats ▸ h.decisions
  forced := hstats ▸ h.forced
  limitRenders := hstats ▸ h.limitRenders
  force_renders := h.force_renders
  skip_reason := h.skip_reason

/-- The skips in a row after a decision are those at the end of the history. -/
theorem run_decide (h : Tallied cap ⟨c, rs⟩) (frame : Nat) (force : Bool) :
    (c.decide frame force).2.state.consecutiveSkipped =
      trailingSkips (rs ++ [History.ruling c frame force]) := by
  have hrun : c.state.consecutiveSkipped = trailingSkips rs := h.run
  have hdecision : (History.ruling c frame force).decision = c.choose frame force := rfl
  rw [trailingSkips_concat, ← hrun, Ruling.skips, hdecision]
  simp only [Controller.decide, Policy.consecutiveSkipped_decided]
  cases (c.choose frame force).render <;> rfl

/-- A frame is skipped only while fewer than `cap` have been. -/
theorem run_decide_le (h : Tallied cap ⟨c, rs⟩) (frame : Nat) (force : Bool) :
    (c.decide frame force).2.state.consecutiveSkipped ≤ cap := by
  have hrun : c.state.consecutiveSkipped = trailingSkips rs := h.run
  have hcap : c.maxConsecutive = cap := h.maxConsecutive
  have hdecision : (History.ruling c frame force).decision = c.choose frame force := rfl
  rw [h.run_decide, trailingSkips_concat, Ruling.skips, hdecision]
  split_ifs with hskip
  · have := (Controller.reason_of_skip (by simpa using hskip)).2
    omega
  · exact Nat.zero_le cap

/-- The reason given is the cap just where the history has such a wish at the cap. -/
theorem limitRenders_decide (h : Tallied cap ⟨c, rs⟩) (frame : Nat) (force : Bool) :
    (c.decide frame force).2.stats.limitRenders =
      cappedWishes cap (rs ++ [History.ruling c frame force]) := by
  have hrun : c.state.consecutiveSkipped = trailingSkips rs := h.run
  have hcap : c.maxConsecutive = cap := h.maxConsecutive
  have hlimit : c.stats.limitRenders = cappedWishes cap rs := h.limitRenders
  have hle : c.state.consecutiveSkipped ≤ cap := h.run_le
  have hreached : cap ≤ c.state.consecutiveSkipped ↔ c.state.consecutiveSkipped = cap := by
    omega
  rw [cappedWishes_concat, ← hrun]
  simp only [Controller.decide, Controller.count, hlimit, Controller.reason_eq_limit_iff, hcap,
    hreached]
  rfl

/-- **One decision more.** -/
theorem decide (h : Tallied cap ⟨c, rs⟩) (frame : Nat) (force : Bool) :
    Tallied cap ⟨(c.decide frame force).2, rs ++ [History.ruling c frame force]⟩ := by
  have hdecision : (History.ruling c frame force).decision = c.choose frame force := rfl
  have hstats : (c.decide frame force).2.stats = Controller.count c.stats (c.choose frame force)
      force (c.decide frame force).2.state.consecutiveSkipped := rfl
  refine
    { maxConsecutive := h.maxConsecutive
      run := h.run_decide frame force
      run_le := h.run_decide_le frame force
      longest := ?_
      longest_le := ?_
      rendered := ?_
      skipped := ?_
      decisions := ?_
      forced := ?_
      limitRenders := h.limitRenders_decide frame force
      force_renders := ?_
      skip_reason := ?_ }
  · simp only [hstats, Controller.count, h.run_decide]
    exact isGreatest_concat h.longest _
  · simp only [hstats, Controller.count]
    exact Nat.max_le.mpr ⟨h.longest_le, h.run_decide_le frame force⟩
  · have hrendered : c.stats.rendered = rs.countP (·.decision.render) := h.rendered
    simp [hstats, Controller.count, hrendered, List.countP_singleton, hdecision]
  · have hskipped : c.stats.skipped = rs.countP Ruling.skips := h.skipped
    simp only [hstats, Controller.count, hskipped, List.countP_append, List.countP_singleton,
      Ruling.skips, hdecision]
    cases (c.choose frame force).render <;> rfl
  · -- A frame is rendered or skipped, but never both.
    have hdecisions : c.stats.rendered + c.stats.skipped = rs.length := h.decisions
    simp only [hstats, Controller.count, List.length_append, List.length_singleton]
    cases (c.choose frame force).render <;> simp <;> omega
  · have hforced : c.stats.forced = rs.countP (·.force) := h.forced
    simp [hstats, Controller.count, hforced, List.countP_singleton, History.ruling]
  · intro r hr hforce
    rcases List.mem_append.mp hr with hr | hr
    · exact h.force_renders r hr hforce
    · obtain rfl := List.mem_singleton.mp hr
      obtain rfl : force = true := hforce
      exact c.choose_forced frame
  · intro r hr hskip
    rcases List.mem_append.mp hr with hr | hr
    · exact h.skip_reason r hr hskip
    · obtain rfl := List.mem_singleton.mp hr
      exact (Controller.reason_of_skip hskip).1

/-- **One call more,** whatever it is. -/
theorem call (h : Tallied cap h') (call : Call) : Tallied cap (h'.call call) := by
  obtain ⟨c, rs⟩ := h'
  have hcap : c.maxConsecutive = cap := h.maxConsecutive
  cases call with
  | decide frame force => exact h.decide frame force
  | recordRender us => exact h.keep rfl (Policy.consecutiveSkipped_rendered _ us _) rfl
  | finishFrame t => exact h.keep rfl (Policy.consecutiveSkipped_frameEnd _ t _) rfl
  | setPolicy selection => exact start hcap rfl rfl
  | reset => exact start hcap rfl rfl

/-- Any number of calls. -/
theorem calls (h : Tallied cap h') (calls : List Call) : Tallied cap (h'.run calls) := by
  induction calls generalizing h' with
  | nil => exact h
  | cons first rest ih => exact ih (h.call first)

end Tallied

/-- **A controller counts what it has decided.** For any policy, however it is tuned, any cap and
    any calls: the run of skips that it knows of is the one its decisions end with and stays within
    the cap, and each of its counters is the count of such decisions since the last reset. -/
theorem skips_tallied (selection : Selection) (cap : Nat) (calls : List Call) :
    Tallied cap ((History.new selection cap).run calls) := by
  have hnew : Tallied cap (History.new selection cap) := .start rfl rfl rfl
  exact hnew.calls calls

/-- With a cap of two, the last of three frames that the pattern would skip is rendered. -/
example :
    (((History.new (.pattern .extreme) 2).run [.decide 0 false, .decide 1 false, .decide 2 false,
      .decide 3 false]).rulings.map (·.decision)) =
        [⟨true, .policy⟩, ⟨false, .policy⟩, ⟨false, .policy⟩, ⟨true, .consecutiveLimit⟩] := by
  decide

end ConsolePipeline.FrameSkip
