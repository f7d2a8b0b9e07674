import ConsolePipeline.Proofs.Machine.Indistinct

namespace ConsolePipeline.Machine

open Video

/-!
# The interrupts of a frame

The frame loop finds the lines on which a line interrupt is due by a counter, which it carries from
frame to frame and starts over in three situations. Seen from outside there is no counter: with a
reload value of `r`, every `r + 1`-th line of a frame is one, counted from its first line, up to the
one after the last visible line. What the processors do meanwhile decides only whether an interrupt
is enabled at that moment, and whether it is held back by a vertical interrupt that nobody has taken
yet.

* `LineDue`, `VblankDue` — on which lines an interrupt is due.
* `scheduled`, `machineAt` — a machine that is given its interrupts without a counter.
* `irqsAfter` — the interrupts that a line ends with.
* `Noted` — processors that note each interrupt they get.
* `OnSchedule`, `OnSchedule.keeps_lines` — the frame loop keeps to the schedule, line after line.
* `Emulation.sweep_on_schedule` — and so over a frame.
-/

/-! ### The schedule -/

/-- Whether a line interrupt is due at the end of a line. -/
def LineDue (mode : Mode) (reload line : Nat) (r : Registers) : Prop :=
  line ≤ mode.height ∧ reload + 1 ∣ line + 1 ∧ r.lineInterruptEnabled = true ∧
    r.vintPending = false

instance (mode : Mode) (reload line : Nat) (r : Registers) :
    Decidable (LineDue mode reload line r) :=
  inferInstanceAs (Decidable (_ ∧ _))

/-- Whether a vertical interrupt is due at the end of a line: as the visible ones end. -/
def VblankDue (mode : Mode) (line : Nat) (r : Registers) : Prop :=
  line + 1 = mode.height ∧ r.vblankInterruptEnabled = true

instance (mode : Mode) (line : Nat) (r : Registers) : Decidable (VblankDue mode line r) :=
  inferInstanceAs (Decidable (_ ∧ _))

section

variable {P : Type} [Processors P] (mode : Mode) (reload line : Nat) (m : P × Board)

/-- Both processors have come to the end of a line. -/
def ended : P × Board :=
  runTo .z80 ((line + 1) * cyclesPerLine) (runTo .m68k ((line + 1) * cyclesPerLine) m)

/-- Then comes the line interrupt, if it is due. -/
def warned : P × Board :=
  let m := ended line m
  if LineDue mode reload line m.2.registers then Processors.setIrq .m68k lineIrq m else m

/-- Then the vertical interrupt, which is marked as pending first. -/
def blanked : P × Board :=
  let m := warned mode reload line m
  if VblankDue mode line m.2.registers then
    Processors.setIrq .m68k vblankIrq (m.1, m.2.mapRegisters (·.raiseVint))
  else m

/-- And then the second processor's interrupt, which lasts for one line. -/
def scheduled : P × Board :=
  let m := blanked mode reload line m
  if line + 1 = mode.height then Processors.setIrq .z80 1 m
  else if line = mode.height then Processors.setIrq .z80 0 m
  else m

/-- The interrupts that a line ends with, in their order. -/
def irqsAfter : List (Cpu × Nat) :=
  (if LineDue mode reload line (ended line m).2.registers then [(.m68k, lineIrq)] else []) ++
  (if VblankDue mode line (warned mode reload line m).2.registers then [(.m68k, vblankIrq)]
    else []) ++
  (if line + 1 = mode.height then [(.z80, 1)]
    else if line = mode.height then [(.z80, 0)] else [])

/-- The machine before a line of a frame, if it is given its interrupts as scheduled. -/
def machineAt (start : P × Board) : Nat → P × Board
  | 0 => start
  | line + 1 => scheduled mode reload line (machineAt start line)

end

/-! ### The frame loop and the schedule -/

/-- A counter that counts down from `reload` runs out on every line that is due. -/
theorem counter_runs_out_iff (reload line : Nat) :
    (reload : Int) - (line % (reload + 1) : Nat) - 1 < 0 ↔ reload + 1 ∣ line + 1 := by
  have hlt : line % (reload + 1) < reload + 1 := Nat.mod_lt line (Nat.succ_pos reload)
  rw [Nat.dvd_iff_mod_eq_zero, Nat.succ_mod_succ_eq_zero_iff]
  omega

/-- One that has not run out goes on with the next line. -/
theorem counter_goes_on {reload line : Nat} (h : ¬reload + 1 ∣ line + 1) :
    (reload : Int) - (line % (reload + 1) : Nat) - 1 =
      reload - ((line + 1) % (reload + 1) : Nat) := by
  have hlt := Nat.mod_lt line (Nat.succ_pos reload)
  have hleft := mt (counter_runs_out_iff reload line).mp h
  rw [← Nat.mod_add_mod, Nat.mod_eq_of_lt (by omega : line % (reload + 1) + 1 < reload + 1)]
  omega

section

variable {P : Type} [Processors P] {mode : Mode} {reload line : Nat} {start : P × Board}

/-- **A sweep before line `line` that has kept to the schedule.** -/
structure OnSchedule (mode : Mode) (reload : Nat) (start : P × Board) (line : Nat) (s : Sweep P) :
    Prop where
  machine : s.machine = machineAt mode reload start line
  /-- The counter tells how far the line is from the next one that is due. -/
  hint : 0 < line → line ≤ mode.height → s.hint = reload - (line % (reload + 1) : Nat)
  lineInterrupts : s.lineInterrupts = (List.range line).countP fun l =>
    LineDue mode reload l (ended l (machineAt mode reload start l)).2.registers
  vblankRaised : s.vblankRaised = (List.range line).any fun l =>
    VblankDue mode l (warned mode reload l (machineAt mode reload start l)).2.registers

namespace Sweep

variable {s : Sweep P}

omit [Processors P] in
theorem lineIrqDue_iff (hdvd : reload + 1 ∣ line + 1) :
    s.lineIrqDue mode line = true ↔ LineDue mode reload line s.registers := by
  rw [lineIrqDue, LineDue, Bool.and_eq_true, Bool.and_eq_true, decide_eq_true_eq, Bool.not_eq_true']
  constructor
  · rintro ⟨⟨henabled, hline⟩, hfree⟩
    exact ⟨hline, hdvd, henabled, hfree⟩
  · rintro ⟨hline, -, henabled, hfree⟩
    exact ⟨⟨henabled, hline⟩, hfree⟩

/-- What counting a line comes to: the machine gets a line interrupt if one is due, and the counter
    is where it has to be for the next line. -/
structure Counted (mode : Mode) (reload line : Nat) (s s' : Sweep P) : Prop where
  machine : s'.machine = if LineDue mode reload line s.registers
    then Processors.setIrq .m68k lineIrq s.machine else s.machine
  lineInterrupts : s'.lineInterrupts =
    s.lineInterrupts + if LineDue mode reload line s.registers then 1 else 0
  vblankRaised : s'.vblankRaised = s.vblankRaised
  hint : line < mode.height → s'.hint = reload - ((line + 1) % (reload + 1) : Nat)

theorem counted_due {hint : Int} (h : LineDue mode reload line s.registers)
    (hhint : line < mode.height → hint = reload - ((line + 1) % (reload + 1) : Nat)) :
    Counted mode reload line s (s.raiseLineIrq.setHint hint) where
  machine := (if_pos h).symm
  lineInterrupts := by
    rw [if_pos h]
    rfl
  vblankRaised := rfl
  hint := hhint

theorem counted_not_due {hint : Int} (h : ¬LineDue mode reload line s.registers)
    (hhint : line < mode.height → hint = reload - ((line + 1) % (reload + 1) : Nat)) :
    Counted mode reload line s (s.setHint hint) where
  machine := (if_neg h).symm
  lineInterrupts := by
    rw [if_neg h]
    rfl
  vblankRaised := rfl
  hint := hhint

/-- **The counter is not needed to tell when a line interrupt is due.** -/
theorem counted_countLine (hhint : 0 < line → line ≤ mode.height →
      s.hint = reload - (line % (reload + 1) : Nat)) :
    Counted mode reload line s (s.countLine mode reload line) := by
  rw [countLine]
  by_cases hline : line ≤ mode.height
  · have hcounter : (if line = 0 ∨ mode.height < line then (reload : Int) else s.hint) =
        reload - (line % (reload + 1) : Nat) := by
      rcases Nat.eq_zero_or_pos line with rfl | hpos
      · rw [if_pos (.inl rfl), Nat.zero_mod]
        omega
      · rw [if_neg (by omega), hhint hpos hline]
    simp only [hcounter]
    by_cases hdvd : reload + 1 ∣ line + 1
    · -- The counter has run out, and starts over for the next line.
      have hnext : (reload : Int) = reload - ((line + 1) % (reload + 1) : Nat) := by
        rw [Nat.mod_eq_zero_of_dvd hdvd]
        omega
      rw [if_pos ((counter_runs_out_iff reload line).mpr hdvd)]
      by_cases hdue : LineDue mode reload line s.registers
      · rw [if_pos ((lineIrqDue_iff hdvd).mpr hdue)]
        exact counted_due hdue fun _ => hnext
      · rw [if_neg (mt (lineIrqDue_iff hdvd).mp hdue)]
        exact counted_not_due hdue fun _ => hnext
    · -- It has not, and it stands right for the next line.
      rw [if_neg (mt (counter_runs_out_iff reload line).mp hdvd)]
      exact counted_not_due (fun hdue => hdvd hdue.2.1) fun _ => counter_goes_on hdvd
  · -- Past the lines on which an interrupt can be due, the counter only starts over.
    have hquiet : s.lineIrqDue mode line = false := by
      rw [lineIrqDue, decide_eq_false hline, Bool.and_false, Bool.false_and]
    have hdue : ¬LineDue mode reload line s.registers := fun hdue => hline hdue.1
    have hpast : ¬line < mode.height := fun hlt => hline (Nat.le_of_lt hlt)
    simp only [hquiet, Bool.false_eq_true, if_false, ← apply_ite (s.setHint ·)]
    exact counted_not_due hdue fun hlt => absurd hlt hpast

/-- What the end of a line comes to, for a machine that has its line interrupt. -/
structure Left (mode : Mode) (reload line : Nat) (m : P × Board) (s s' : Sweep P) : Prop where
  machine : s'.machine = scheduled mode reload line m
  hint : s'.hint = s.hint
  lineInterrupts : s'.lineInterrupts = s.lineInterrupts
  vblankRaised : s'.vblankRaised =
    (s.vblankRaised || VblankDue mode line (warned mode reload line m).2.registers)

theorem left_leaveLine {m : P × Board} (hm : s.machine = warned mode reload line m) :
    Left mode reload line m s (s.leaveLine mode line) := by
  have hregisters : s.registers = (warned mode reload line m).2.registers :=
    congrArg (·.2.registers) hm
  rw [leaveLine]
  -- Only the last line of the picture raises the vertical blank, and only where that interrupt is
  -- enabled does anything see it.
  by_cases hlast : line + 1 = mode.height
  · rw [if_pos hlast, raiseVblank, hregisters]
    by_cases henabled : (warned mode reload line m).2.registers.vblankInterruptEnabled = true
    · have hdue : VblankDue mode line (warned mode reload line m).2.registers := ⟨hlast, henabled⟩
      rw [if_pos henabled]
      refine ⟨?_, rfl, rfl, ?_⟩
      · rw [scheduled, if_pos hlast, blanked, if_pos hdue, ← hm]
        rfl
      · rw [decide_eq_true hdue, Bool.or_true]
        rfl
    · have hdue : ¬VblankDue mode line (warned mode reload line m).2.registers :=
        fun hdue => henabled hdue.2
      rw [if_neg henabled]
      refine ⟨?_, rfl, rfl, ?_⟩
      · rw [scheduled, if_pos hlast, blanked, if_neg hdue, ← hm]
        rfl
      · rw [decide_eq_false hdue, Bool.or_false]
        rfl
  · have hdue : ¬VblankDue mode line (warned mode reload line m).2.registers :=
      fun hdue => hlast hdue.1
    rw [if_neg hlast]
    refine ⟨?_, ?_, ?_, ?_⟩
    · rw [scheduled, if_neg hlast, blanked, if_neg hdue, ← hm]
      split <;> rfl
    · split <;> rfl
    · split <;> rfl
    · rw [decide_eq_false hdue, Bool.or_false]
      split <;> rfl

end Sweep

namespace OnSchedule

variable {s : Sweep P}

/-- A frame begins on schedule, whatever the counter has been left at. -/
theorem begin (mode : Mode) (reload : Nat) (start : P × Board) (hint : Int) :
    OnSchedule mode reload start 0 { machine := start, hint } :=
  ⟨rfl, fun hpos => absurd hpos (Nat.lt_irrefl 0), rfl, rfl⟩

/-- **One line keeps to the schedule.** -/
theorem keeps_line (h : OnSchedule mode reload start line s) :
    OnSchedule mode reload start (line + 1) (s.line mode reload line) := by
  -- The line is run, counted and left: each part is followed from the machine that the one before
  -- it leaves.
  let m := machineAt mode reload start line
  have hended : (s.execute line).machine = ended line m := congrArg (ended line) h.machine
  have hregisters : (s.execute line).registers = (ended line m).2.registers :=
    congrArg (·.2.registers) hended
  have hcounted : Sweep.Counted mode reload line (s.execute line)
      ((s.execute line).countLine mode reload line) := Sweep.counted_countLine h.hint
  have hwarned : ((s.execute line).countLine mode reload line).machine =
      warned mode reload line m := by
    rw [hcounted.machine, hregisters, hended]
    rfl
  have hleft : Sweep.Left mode reload line m ((s.execute line).countLine mode reload line)
      (s.line mode reload line) := Sweep.left_leaveLine hwarned
  refine ⟨hleft.machine, fun _ hle => ?_, ?_, ?_⟩
  · exact hleft.hint.trans (hcounted.hint hle)
  · refine (hleft.lineInterrupts.trans hcounted.lineInterrupts).trans ?_
    rw [hregisters, List.range_succ, List.countP_append, List.countP_singleton]
    simp only [decide_eq_true_eq]
    exact congrArg (· + _) h.lineInterrupts
  · refine hleft.vblankRaised.trans ?_
    rw [List.range_succ, List.any_append, List.any_cons, List.any_nil, Bool.or_false]
    exact congrArg (· || _) (hcounted.vblankRaised.trans h.vblankRaised)

/-- **And so does any number of lines.** -/
theorem keeps_lines (h : OnSchedule mode reload start line s) (n : Nat) :
    OnSchedule mode reload start (line + n) (s.lines mode reload n line) := by
  induction n generalizing line s with
  | zero => exact h
  | succ n ih =>
    rw [show line + (n + 1) = line + 1 + n by omega]
    exact ih h.keeps_line

end OnSchedule

end

/-! ### What the processors get -/

/-- Processors that note each interrupt level they are set to. -/
structure Noted (P : Type) where
  processors : P
  irqs : List (Cpu × Nat)

/-- A machine whose processors have noted so much. -/
def noting {P : Type} (irqs : List (Cpu × Nat)) (m : P × Board) : Noted P × Board :=
  (⟨m.1, irqs⟩, m.2)

section

variable {P : Type} [Processors P]

instance : Processors (Noted P) where
  cycles p := Processors.cycles p.processors
  execute cpu target m :=
    noting m.1.irqs (Processors.execute cpu target (m.1.processors, m.2))
  setIrq cpu level m :=
    noting (m.1.irqs ++ [(cpu, level)]) (Processors.setIrq cpu level (m.1.processors, m.2))
  endFrame cpu cycles p := ⟨Processors.endFrame cpu cycles p.processors, p.irqs⟩
  reset cpu p := ⟨Processors.reset cpu p.processors, p.irqs⟩

variable (mode : Mode) (reload line : Nat) (irqs : List (Cpu × Nat)) (m start : P × Board)

theorem setIrq_noting (cpu : Cpu) (level : Nat) :
    Processors.setIrq cpu level (noting irqs m) =
      noting (irqs ++ [(cpu, level)]) (Processors.setIrq cpu level m) :=
  rfl

theorem runTo_noting (cpu : Cpu) (target : Nat) :
    runTo cpu target (noting irqs m) = noting irqs (runTo cpu target m) := by
  simp only [runTo, apply_ite (noting irqs)]
  rfl

theorem ended_noting : ended line (noting irqs m) = noting irqs (ended line m) := by
  rw [ended, runTo_noting, runTo_noting, ended]

theorem warned_noting : warned mode reload line (noting irqs m) =
    noting (irqs ++ if LineDue mode reload line (ended line m).2.registers
      then [(.m68k, lineIrq)] else []) (warned mode reload line m) := by
  simp only [warned, ended_noting]
  split
  · next h =>
    have h : LineDue mode reload line (ended line m).2.registers := h
    rw [if_pos h, if_pos h, setIrq_noting]
  · next h =>
    have h : ¬LineDue mode reload line (ended line m).2.registers := h
    rw [if_neg h, if_neg h, List.append_nil]

theorem blanked_noting : blanked mode reload line (noting irqs m) =
    noting (irqs ++ ((if LineDue mode reload line (ended line m).2.registers
      then [(.m68k, lineIrq)] else []) ++
      if VblankDue mode line (warned mode reload line m).2.registers
      then [(.m68k, vblankIrq)] else [])) (blanked mode reload line m) := by
  simp only [blanked, warned_noting, ← List.append_assoc]
  generalize irqs ++ (if LineDue mode reload line (ended line m).2.registers
      then [(Cpu.m68k, lineIrq)] else []) = before
  split
  · next h =>
    have h : VblankDue mode line (warned mode reload line m).2.registers := h
    rw [if_pos h, if_pos h]
    rfl
  · next h =>
    have h : ¬VblankDue mode line (warned mode reload line m).2.registers := h
    rw [if_neg h, if_neg h, List.append_nil]

/-- **A line ends with the interrupts listed,** and with no others. -/
theorem scheduled_noting : scheduled mode reload line (noting irqs m) =
    noting (irqs ++ irqsAfter mode reload line m) (scheduled mode reload line m) := by
  simp only [scheduled, blanked_noting, irqsAfter, ← List.append_assoc]
  split
  · rfl
  · split
    · rfl
    · rw [List.append_nil]

/-- The interrupts of the first lines of a frame. -/
def irqsBefore (line : Nat) : List (Cpu × Nat) :=
  (List.range line).flatMap fun l => irqsAfter mode reload l (machineAt mode reload start l)

theorem irqsBefore_succ : irqsBefore mode reload start (line + 1) =
    irqsBefore mode reload start line ++
      irqsAfter mode reload line (machineAt mode reload start line) := by
  rw [irqsBefore, List.range_succ, List.flatMap_append, List.flatMap_singleton]
  rfl

theorem machineAt_noting : machineAt mode reload (noting [] start) line =
    noting (irqsBefore mode reload start line) (machineAt mode reload start line) := by
  induction line with
  | zero => rfl
  | succ line ih => rw [machineAt, ih, scheduled_noting, irqsBefore_succ, machineAt]

/-- The second processor's interrupts after one line. -/
theorem filter_irqsAfter : (irqsAfter mode reload line m).filter (·.1 = .z80) =
    if line + 1 = mode.height then [(.z80, 1)]
    else if line = mode.height then [(.z80, 0)] else [] := by
  have hline : ∀ p : Prop, [Decidable p] → ∀ level,
      (if p then [(Cpu.m68k, level)] else []).filter (·.1 = .z80) = ([] : List (Cpu × Nat)) := by
    intro p _ level
    split <;> rfl
  rw [irqsAfter, List.filter_append, List.filter_append, hline, hline, List.nil_append,
    List.nil_append]
  split
  · rfl
  · split <;> rfl

/-- **The second processor gets its interrupt once, and is rid of it one line later.** -/
theorem filter_irqsBefore : (irqsBefore mode reload start line).filter (·.1 = .z80) =
    (if 0 < mode.height ∧ mode.height ≤ line then [(.z80, 1)] else []) ++
      if mode.height < line then [(.z80, 0)] else [] := by
  induction line with
  | zero =>
    rw [if_neg (by omega), if_neg (by omega)]
    rfl
  | succ line ih =>
    rw [irqsBefore_succ, List.filter_append, ih, filter_irqsAfter]
    -- Something is added on two lines only.
    by_cases hlast : line + 1 = mode.height
    · rw [if_neg (by omega), if_neg (by omega), if_pos hlast, if_pos (by omega), if_neg (by omega)]
      rfl
    · by_cases hnext : line = mode.height
      · rw [if_neg hlast, if_neg (by omega : ¬mode.height < line), if_pos hnext,
          if_pos (by omega : mode.height < line + 1), List.append_nil]
        simp only [show mode.height ≤ line ↔ mode.height ≤ line + 1 by omega]
      · rw [if_neg hlast, if_neg hnext, List.append_nil]
        simp only [show mode.height ≤ line ↔ mode.height ≤ line + 1 by omega,
          show mode.height < line ↔ mode.height < line + 1 by omega]

end

/-! ### A frame -/

/-- A mark that is set is seen. -/
theorem vintPending_raiseVint (r : Registers) : r.raiseVint.vintPending = true := by
  have hbit : (r.status ||| Registers.vintPendingBit) &&& Registers.vintPendingBit =
      Registers.vintPendingBit := by
    apply UInt16.toBitVec_inj.mp
    ext i
    simp +contextual
  show ((r.status ||| Registers.vintPendingBit) &&& Registers.vintPendingBit != 0) = true
  rw [hbit]
  decide

namespace Emulation

variable {P R : Type} [Processors P]

/-- The emulation side with processors that note their interrupts. -/
def noted : Emulation P R → Emulation (Noted P) R
  | ⟨processors, board, renderer, loop, sender, notices⟩ =>
    ⟨⟨processors, []⟩, board, renderer, loop, sender, notices⟩

/-- A frame's sweep is on schedule as it ends. -/
theorem onSchedule_sweep (mode : Mode) (e : Emulation P R) :
    OnSchedule mode e.board.registers.lineReload.toNat e.machine mode.linesPerFrame
      (Sweep.lines mode e.board.registers.lineReload.toNat mode.linesPerFrame 0
        { machine := e.machine, hint := e.loop.hint }) := by
  have hlines := (OnSchedule.begin mode e.board.registers.lineReload.toNat e.machine
    e.loop.hint).keeps_lines mode.linesPerFrame
  rwa [Nat.zero_add] at hlines

/-- **The interrupts of a frame come on schedule,** whatever the processors do, and wherever the
    counter was left. -/
theorem sweep_on_schedule (mode : Mode) (e : Emulation P R) :
    let reload := e.board.registers.lineReload.toNat
    let before := machineAt mode reload e.machine
    let irqs := irqsBefore mode reload e.machine mode.linesPerFrame
    let out := sweep mode e
    out.2.2.2.machine = before mode.linesPerFrame ∧
      (sweep mode e.noted).2.2.2.machine = noting irqs (before mode.linesPerFrame) ∧
      out.2.1 = (List.range mode.linesPerFrame).countP (fun line =>
        LineDue mode reload line (ended line (before line)).2.registers) ∧
      (out.2.2.1 = true ↔ 0 < mode.height ∧ mode.height ≤ mode.linesPerFrame ∧
        (warned mode reload (mode.height - 1)
          (before (mode.height - 1))).2.registers.vblankInterruptEnabled = true) ∧
      (∀ r : Registers, r.raiseVint.vintPending = true) ∧
      irqs.filter (·.1 = .z80) =
        (if 0 < mode.height ∧ mode.height ≤ mode.linesPerFrame then [(.z80, 1)] else []) ++
          if mode.height < mode.linesPerFrame then [(.z80, 0)] else [] := by
  intro reload before irqs out
  have hsweep := e.onSchedule_sweep mode
  refine ⟨hsweep.machine, ?_, hsweep.lineInterrupts, ?_, vintPending_raiseVint,
    filter_irqsBefore mode reload mode.linesPerFrame e.machine⟩
  · -- Processors that note their interrupts are on the same schedule as those that do not.
    exact (e.noted.onSchedule_sweep mode).machine.trans
      (machineAt_noting mode reload mode.linesPerFrame e.machine)
  · -- Only one line can be the last visible one, and it has to be in the frame.
    have hraised : out.2.2.1 = _ := hsweep.vblankRaised
    rw [hraised, List.any_eq_true]
    constructor
    · rintro ⟨line, hline, hdue⟩
      have hline := List.mem_range.mp hline
      obtain ⟨hlast, henabled⟩ := of_decide_eq_true hdue
      obtain rfl : line = mode.height - 1 := by omega
      exact ⟨by omega, by omega, henabled⟩
    · rintro ⟨hpos, hle, henabled⟩
      exact ⟨mode.height - 1, List.mem_range.mpr (by omega),
        decide_eq_true ⟨by omega, henabled⟩⟩

end Emulation

end ConsolePipeline.Machine
