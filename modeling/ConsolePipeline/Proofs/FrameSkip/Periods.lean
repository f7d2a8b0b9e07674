import Mathlib.Data.Nat.Periodic
import ConsolePipeline.Proofs.FrameSkip.Turns

namespace ConsolePipeline.FrameSkip

/-!
# Patterns run undisturbed

A pattern decides by the number of the frame alone. The controller around it adds a cap on skips in
a row, and no pattern has more than four: with a cap of four or more, it has nothing to say,
wherever in a period a run begins and whatever is forced on the way.

* `Level.renders_within_five` — no pattern skips five frames in a row.
* `Level.countP_periods` — what whole periods render.
* `OnPattern`, `OnPattern.decide` — a controller that has followed its pattern, one decision more.
* `rendersFrom` — the renders of a run as a function of the frames' numbers.
* `pattern_undisturbed` — a run over consecutive frames.
-/

/-! ### Patterns -/

namespace Level

/-- **No pattern skips five frames in a row.** -/
theorem renders_within_five (l : Level) (n : Nat) : ∃ i < 5, l.renders (n + i) = true := by
  have hphase : ∀ phase < l.period, ∃ i < 5, l.mask.testBit ((phase + i) % l.period) = true := by
    cases l <;> decide
  have hpos : 0 < l.period := by cases l <;> decide
  obtain ⟨i, hi, hbit⟩ := hphase (n % l.period) (Nat.mod_lt n hpos)
  rw [Nat.mod_add_mod] at hbit
  exact ⟨i, hi, hbit⟩

/-- The bits that are set in the mask. -/
def bits (l : Level) : Nat :=
  (List.range 32).countP l.mask.testBit

theorem renders_periodic (l : Level) :
    Function.Periodic (fun n => l.renders n = true) l.period := by
  intro n
  show (l.mask.testBit ((n + l.period) % l.period) = true) = _
  rw [Nat.add_mod_right]
  rfl

/-- A whole period renders as many frames as its mask has bits, wherever it begins. -/
theorem countP_period (l : Level) (n : Nat) :
    (List.range' n l.period).countP l.renders = l.bits := by
  have hperiod := Nat.filter_multiset_Ico_card_eq_of_periodic n l.period _ l.renders_periodic
  have hIco : Multiset.Ico n (n + l.period) = (List.range' n l.period : Multiset Nat) := by
    show ((List.range' n (n + l.period - n) : List Nat) : Multiset Nat) = _
    rw [Nat.add_sub_cancel_left]
  have hbits : Nat.count (fun n => l.renders n = true) l.period = l.bits := by
    cases l <;> decide
  rw [hIco, Multiset.filter_coe, Multiset.coe_card, hbits] at hperiod
  rw [List.countP_eq_length_filter, ← hperiod]
  simp

/-- **So do any number of periods.** -/
theorem countP_periods (l : Level) (n k : Nat) :
    (List.range' n (k * l.period)).countP l.renders = k * l.bits := by
  induction k generalizing n with
  | zero => simp
  | succ k ih =>
    rw [Nat.succ_mul, Nat.add_comm (k * l.period), ← List.range'_append_1, List.countP_append,
      countP_period, ih, Nat.succ_mul, Nat.add_comm]

end Level

/-! ### Controllers on a pattern -/

/-- The renders of consecutive frames, of which some are forced: those of the pattern, and the
    forced ones. -/
def rendersFrom (level : Level) (first : Nat) (forces : List Bool) : List Bool :=
  (forces.zipIdx first).map fun (force, n) => level.renders n || force

theorem length_rendersFrom (level : Level) (first : Nat) (forces : List Bool) :
    (rendersFrom level first forces).length = forces.length := by
  rw [rendersFrom, List.length_map, List.length_zipIdx]

theorem rendersFrom_append (level : Level) (first : Nat) (forces more : List Bool) :
    rendersFrom level first (forces ++ more) =
      rendersFrom level first forces ++ rendersFrom level (first + forces.length) more := by
  rw [rendersFrom, List.zipIdx_append, List.map_append]
  rfl

/-- Where nothing is forced, the pattern decides. -/
theorem rendersFrom_replicate (level : Level) (first n : Nat) :
    rendersFrom level first (List.replicate n false) = (List.range' first n).map level.renders := by
  induction n generalizing first with
  | zero => rfl
  | succ n ih =>
    rw [List.replicate_succ, List.range'_succ, List.map_cons, ← ih]
    simp [rendersFrom]

/-- **A controller that has followed its pattern** from frame `first` on, before the decision on
    frame `n`. -/
structure OnPattern (level : Level) (first n : Nat) (h : History) : Prop where
  policy : h.controller.policy = .pattern level
  cap : 4 ≤ h.controller.maxConsecutive
  /-- The frames skipped since the last render are frames that the pattern skips. -/
  skips_le : h.controller.state.consecutiveSkipped ≤ n
  skipped : ∀ f < n, n ≤ f + h.controller.state.consecutiveSkipped → level.renders f = false
  limitRenders : h.controller.stats.limitRenders = 0
  decisions : first + h.rulings.length = n
  renders : h.rulings.map (·.decision.render) = rendersFrom level first (h.rulings.map (·.force))

namespace OnPattern

variable {level : Level} {first n : Nat} {h : History}

theorem start {c : Controller} (hpolicy : c.policy = .pattern level) (hcap : 4 ≤ c.maxConsecutive)
    (first : Nat) : OnPattern level first first ⟨c.reset, []⟩ where
  policy := by rw [Controller.reset, hpolicy]; rfl
  cap := hcap
  skips_le := Nat.zero_le first
  skipped := fun f hlt hle => absurd hlt (Nat.not_lt.mpr hle)
  limitRenders := rfl
  decisions := rfl
  renders := rfl

/-- A pattern takes no notice of measurements. -/
theorem measure (p : OnPattern level first n h) (m : Measurement) :
    OnPattern level first n (h.call m.call) := by
  obtain ⟨⟨policy, state, cap, stats⟩, rs⟩ := h
  obtain rfl : policy = .pattern level := p.policy
  cases m <;> exact p

/-- **The cap is out of reach** when the pattern skips a frame. -/
theorem below_cap (p : OnPattern level first n h) (hskip : level.renders n = false) :
    h.controller.state.consecutiveSkipped < 4 := by
  by_contra hlong
  have hle := p.skips_le
  -- Four frames skipped and this one would be five of the pattern's.
  obtain ⟨i, hi, hrenders⟩ := level.renders_within_five (n - 4)
  have hquiet : level.renders (n - 4 + i) = false := by
    by_cases hlast : i = 4
    · rw [hlast, Nat.sub_add_cancel (by omega)]
      exact hskip
    · exact p.skipped _ (by omega) (by omega)
  rw [hquiet] at hrenders
  cases hrenders

/-- The pattern and force decide between them. -/
theorem choose_eq (p : OnPattern level first n h) (force : Bool) :
    (h.controller.choose n force).render = (level.renders n || force) ∧
      (h.controller.choose n force).reason ≠ .consecutiveLimit := by
  have hwish : h.controller.policy.wantsRender n h.controller.state = level.renders n := by
    rw [p.policy]
    rfl
  have hprotects : h.controller.policy.protects n = false := by
    rw [p.policy]
    rfl
  unfold Controller.choose
  rw [hwish, hprotects]
  cases hrenders : level.renders n with
  | true => simp
  | false =>
    -- A pattern skips fewer frames in a row than the cap allows.
    have hcap : ¬h.controller.maxConsecutive ≤ h.controller.state.consecutiveSkipped := by
      have := p.below_cap hrenders
      have := p.cap
      omega
    cases force <;> simp [hcap]

/-- **One decision more.** -/
theorem decide (p : OnPattern level first n h) (force : Bool) :
    OnPattern level first (n + 1) (h.call (.decide n force)) := by
  obtain ⟨hrender, hreason⟩ := p.choose_eq force
  obtain ⟨c, rs⟩ := h
  have hpolicy : c.policy = .pattern level := p.policy
  have hn : first + rs.length = n := p.decisions
  have hskips : (c.decide n force).2.state.consecutiveSkipped =
      if (level.renders n || force) = true then 0 else c.state.consecutiveSkipped + 1 := by
    rw [← hrender]
    simp only [Controller.decide, Policy.consecutiveSkipped_decided]
  rw [History.call_decide]
  refine
    { policy := ?_
      cap := p.cap
      skips_le := ?_
      skipped := ?_
      limitRenders := ?_
      decisions := ?_
      renders := ?_ }
  · simp only [Controller.decide, hpolicy]
    rfl
  · have hle : c.state.consecutiveSkipped ≤ n := p.skips_le
    rw [hskips]
    split_ifs <;> omega
  · intro f hlt hle
    rw [hskips] at hle
    split_ifs at hle with hrendered
    · omega
    · -- The frame is the one just skipped, or one skipped before.
      rcases Nat.lt_succ_iff_lt_or_eq.mp hlt with hbefore | rfl
      · have hle : n ≤ f + c.state.consecutiveSkipped := by omega
        exact p.skipped f hbefore hle
      · exact (Bool.or_eq_false_iff.mp (Bool.eq_false_iff.mpr hrendered)).1
  · show c.stats.limitRenders + (if (c.choose n force).reason = .consecutiveLimit then 1 else 0) = 0
    rw [if_neg hreason, Nat.add_zero]
    exact p.limitRenders
  · rw [List.length_append, List.length_singleton, ← hn]
    rfl
  · have hbefore : rs.map (·.decision.render) = rendersFrom level first (rs.map (·.force)) :=
      p.renders
    have hlast : (History.ruling c n force).decision.render = (level.renders n || force) := hrender
    rw [List.map_append, List.map_append, rendersFrom_append, hbefore, List.length_map, hn,
      List.map_singleton, hlast]
    rfl

end OnPattern

/-- **A pattern runs undisturbed** over consecutive frames since a reset, with a cap of four or more
    and whatever is forced and measured meanwhile. A frame is rendered if its place in the period is
    marked in the mask, or if it is forced; the cap never decides; and where nothing is forced,
    periods render as many frames as the mask has bits. -/
theorem pattern_undisturbed (level : Level) (c : Controller) (hpolicy : c.policy = .pattern level)
    (hcap : 4 ≤ c.maxConsecutive) (first : Nat) (turns : List Turn) :
    let h := (History.mk c []).run (.reset :: callsFrom first turns)
    h.rulings.map (·.decision.render) = (turns.zipIdx first).map (fun (turn, n) =>
      level.mask.testBit (n % level.period) || turn.force) ∧
    h.controller.stats.limitRenders = 0 ∧
    ∀ before stretch after k, turns = before ++ stretch ++ after →
      (∀ turn ∈ stretch, turn.force = false) → stretch.length = k * level.period →
      ((h.rulings.drop before.length).take stretch.length).countP (·.decision.render) =
        k * (List.range 32).countP level.mask.testBit := by
  intro h
  -- The run is one decision after the other on the pattern.
  have p : OnPattern level first (first + turns.length) h :=
    History.run_callsFrom (fun _ _ m p => p.measure m) (fun _ _ force p => p.decide force)
      (.start hpolicy hcap first) turns
  have hforces : h.rulings.map (·.force) = turns.map (·.force) :=
    History.forces_callsFrom _ first turns
  have hrenders : h.rulings.map (·.decision.render) =
      rendersFrom level first (turns.map (·.force)) := by
    rw [p.renders, hforces]
  refine ⟨?_, p.limitRenders, ?_⟩
  · rw [hrenders, rendersFrom, List.zipIdx_map, List.map_map]
    rfl
  · intro before stretch after k hturns hfree hlength
    -- The stretch asks for nothing to be forced, so the pattern alone decides about it.
    have hstretch : stretch.map (·.force) = List.replicate stretch.length false :=
      List.eq_replicate_iff.mpr ⟨List.length_map _, by simpa using hfree⟩
    have hcount : ∀ rs : List Ruling, rs.countP (·.decision.render) =
        (rs.map (·.decision.render)).countP id := by
      intro rs
      rw [List.countP_map]
      rfl
    have hbefore : (rendersFrom level first (before.map (·.force))).length = before.length := by
      rw [length_rendersFrom, List.length_map]
    have hlength' : (rendersFrom level (first + (before.map (·.force)).length)
        (List.replicate stretch.length false)).length = stretch.length := by
      rw [length_rendersFrom, List.length_replicate]
    rw [hcount, List.map_take, List.map_drop, hrenders, hturns, List.append_assoc, List.map_append,
      List.map_append, hstretch, rendersFrom_append, rendersFrom_append, List.drop_left' hbefore,
      List.take_left' hlength', rendersFrom_replicate, List.countP_map, hlength]
    exact level.countP_periods _ k

/-- The longest gaps there are, under the lowest cap that leaves them alone: a forced frame, and
    then two periods that begin in the middle of the pattern. -/
theorem extreme_undisturbed :
    let c := Controller.new (.pattern .extreme) 4
    let free : Turn := ⟨[.rendered 9000, .finished ⟨50000, 0, 16666⟩], false⟩
    let turns := { free with force := true } :: List.replicate 10 free
    let h := (History.mk c []).run (.reset :: callsFrom 1 turns)
    c.policy = .pattern .extreme ∧ 4 ≤ c.maxConsecutive ∧
      h.rulings.map (·.decision.render) =
        [true, false, false, false, true, false, false, false, false, true, false] ∧
      h.controller.stats.limitRenders = 0 ∧
      ((h.rulings.drop 1).take 10).countP (·.decision.render) = 2 := by
  intro c free turns h
  obtain ⟨hrenders, hlimit, hperiods⟩ := pattern_undisturbed .extreme c rfl (by decide) 1 turns
  have hfree : ∀ turn ∈ List.replicate 10 free, turn.force = false := by
    intro turn hturn
    rw [List.eq_of_mem_replicate hturn]
  exact ⟨rfl, by decide, hrenders.trans (by decide), hlimit,
    (hperiods [{ free with force := true }] (List.replicate 10 free) [] 2 rfl hfree rfl).trans
      (by decide)⟩

end ConsolePipeline.FrameSkip
