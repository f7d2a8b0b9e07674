import ConsolePipeline.Proofs.Bench.Quiet
import ConsolePipeline.Proofs.Machine.Metered

namespace ConsolePipeline.Bench

open Machine Sound Video

/-!
# The pace of stand-ins

A stand-in processor comes to the end of a line in whole steps, and so a little past it. As long as
a step is no longer than a line, it never comes past the end of the next line as well: each line
takes one slice of each processor, and what it has come too far is less than a step.

* `reach` — how far a processor comes in so many lines; `le_reach`, `reach_lt`, `stepTo_reach`.
* `Program.Prompt`, `Paced` — stand-ins whose slices take the time that they are set to.
* `Standing` — a metered machine at a given place, with a given record, at a given time.
* `lineDuties`, `Along` — the record of a line, and a sweep that has come so far;
  `Along.keeps_line`, `keeps_lines` — one line more, and any number of them.
-/

/-! ### Steps and lines -/

section Steps

variable {step target target' cycles : Nat}

/-- A target that has been passed takes no step. -/
theorem stepTo_of_le (h : target ≤ cycles) : stepTo step target cycles = cycles :=
  if_pos h

/-- Where whole steps first come to a target. -/
theorem stepTo_eq {k : Nat} (hcycles : cycles < target) (hthere : target ≤ cycles + k * step)
    (hfirst : cycles + k * step < target + step) :
    stepTo step target cycles = cycles + k * step := by
  have hsteps : (target - cycles + step - 1) / step = k := by
    apply Nat.div_eq_of_lt_le
    · omega
    · rw [Nat.succ_mul]
      omega
  rw [stepTo, if_neg (Nat.not_le.mpr hcycles), hsteps]

/-- **A slice ends in whole steps,** at the target or less than a step past it. -/
theorem stepTo_bounds (hstep : 0 < step) (hcycles : cycles < target) :
    ∃ k, stepTo step target cycles = cycles + k * step ∧ target ≤ cycles + k * step ∧
      cycles + k * step < target + step := by
  refine ⟨(target - cycles + step - 1) / step, ?_, ?_, ?_⟩
  · rw [stepTo, if_neg (Nat.not_le.mpr hcycles)]
  · have hlt := Nat.lt_mul_div_succ (target - cycles + step - 1) hstep
    rw [Nat.mul_succ, Nat.mul_comm] at hlt
    omega
  · have hle := Nat.div_mul_le_self (target - cycles + step - 1) step
    omega

/-- **To stop on the way makes no difference.** -/
theorem stepTo_stepTo (hstep : 0 < step) (hle : target ≤ target') :
    stepTo step target' (stepTo step target cycles) = stepTo step target' cycles := by
  by_cases hthere : target ≤ cycles
  · rw [stepTo_of_le hthere]
  obtain ⟨k, hstop, hpast, hnear⟩ := stepTo_bounds hstep (Nat.not_le.mp hthere)
  rw [hstop]
  by_cases hover : target' ≤ cycles + k * step
  · -- The stop is past the second target as well.
    rw [stepTo_of_le hover]
    exact (stepTo_eq (by omega) hover (by omega)).symm
  · obtain ⟨j, hgoal, hpast', hnear'⟩ := stepTo_bounds hstep (Nat.not_le.mp hover)
    have hsum : cycles + k * step + j * step = cycles + (k + j) * step := by
      rw [Nat.add_mul, Nat.add_assoc]
    rw [hgoal, hsum]
    rw [hsum] at hpast' hnear'
    exact (stepTo_eq (by omega) hpast' hnear').symm

/-- How far a processor comes in so many lines of a frame. -/
def reach (step cycles line : Nat) : Nat :=
  stepTo step (line * cyclesPerLine) cycles

theorem reach_zero (step cycles : Nat) : reach step cycles 0 = cycles := by
  rw [reach, Nat.zero_mul, stepTo_of_le (Nat.zero_le _)]

/-- It comes to the end of the last of them. -/
theorem le_reach (hstep : 0 < step) (cycles line : Nat) :
    line * cyclesPerLine ≤ reach step cycles line := by
  by_cases hthere : line * cyclesPerLine ≤ cycles
  · rw [reach, stepTo_of_le hthere]
    exact hthere
  · obtain ⟨k, hreach, hpast, -⟩ := stepTo_bounds hstep (Nat.not_le.mp hthere)
    rw [reach, hreach]
    exact hpast

/-- And it does not come a whole step past it. -/
theorem reach_lt (hstep : 0 < step) (hcycles : cycles < step) (line : Nat) :
    reach step cycles line < line * cyclesPerLine + step := by
  by_cases hthere : line * cyclesPerLine ≤ cycles
  · rw [reach, stepTo_of_le hthere]
    omega
  · obtain ⟨k, hreach, -, hnear⟩ := stepTo_bounds hstep (Nat.not_le.mp hthere)
    rw [reach, hreach]
    exact hnear

/-- **The next line takes a slice,** since a step is no longer than a line. -/
theorem reach_lt_next (hstep : 0 < step) (hline : step ≤ cyclesPerLine) (hcycles : cycles < step)
    (line : Nat) : reach step cycles line < (line + 1) * cyclesPerLine := by
  have hlt := reach_lt hstep hcycles line
  rw [Nat.succ_mul]
  omega

/-- And the slice takes the processor to where it comes in so many lines. -/
theorem stepTo_reach (hstep : 0 < step) (cycles line : Nat) :
    stepTo step ((line + 1) * cyclesPerLine) (reach step cycles line) =
      reach step cycles (line + 1) :=
  stepTo_stepTo hstep (Nat.mul_le_mul_right _ (Nat.le_succ line))

end Steps

/-! ### Programs that take no time -/

/-- A program that does not charge the clock. -/
def Program.Prompt : Program → Prop
  | .idle => True
  | .melody _ => True
  | .script cues _ => ∀ cue ∈ cues, ∀ act ∈ cue.acts, ∀ us, act ≠ .clock us

/-- What each of some acts keeps, all of them keep. -/
theorem foldl_now {α : Type} {f : Wiring × Board → α → Wiring × Board} (acts : List α)
    (hf : ∀ a ∈ acts, ∀ m, (f m a).2.now = m.2.now) (m : Wiring × Board) :
    (acts.foldl f m).2.now = m.2.now := by
  induction acts generalizing m with
  | nil => rfl
  | cons a rest ih =>
    rw [List.foldl_cons, ih (fun b hb => hf b (List.mem_cons_of_mem _ hb)),
      hf a List.mem_cons_self]

/-- Nothing but the charge of an act takes time. -/
theorem Act.perform_now {act : Act} (hact : ∀ us, act ≠ .clock us) (cycle : Nat)
    (m : Wiring × Board) : (act.perform cycle m).2.now = m.2.now := by
  obtain ⟨wiring, board⟩ := m
  cases act with
  | registers act => cases wiring <;> rfl
  | clock us => exact absurd rfl (hact us)
  | fm value offset => rfl
  | psg value offset => rfl

/-- **Such a program begins a slice in no time,** and goes on as such. -/
theorem Program.Prompt.begin {program : Program} (h : program.Prompt) (cycle : Nat)
    (m : Wiring × Board) :
    (program.begin cycle m).1.Prompt ∧ (program.begin cycle m).2.2.now = m.2.now := by
  cases program with
  | idle => exact ⟨trivial, rfl⟩
  | melody frame =>
    simp only [Program.begin]
    -- The melody is played only in a slice that begins in the first line.
    split
    · have hplayed : ∀ b ∈ melodyBytes frame, ∀ m : Wiring × Board,
          (mapBus (·.writePsg b cycle) m).2.now = m.2.now := fun _ _ _ => rfl
      exact ⟨trivial, foldl_now _ hplayed m⟩
    · exact ⟨trivial, rfl⟩
  | script cues slice =>
    have hperformed : ∀ act ∈ (cues.filter (·.slice == slice)).flatMap (·.acts),
        ∀ m : Wiring × Board, (act.perform cycle m).2.now = m.2.now := by
      intro act hact m
      obtain ⟨cue, hcue, hact⟩ := List.mem_flatMap.mp hact
      exact Act.perform_now (h cue (List.mem_filter.mp hcue).1 act hact) cycle m
    exact ⟨h, foldl_now _ hperformed m⟩

/-! ### Stand-ins -/

/-- **Stepping stand-ins that have come to given cycles,** whose programs take no time. -/
def Paced (step : Cpu → Nat) (us : Cpu → UInt32) (cycles : Cpu → Nat) (p : StandIns) : Prop :=
  ∀ cpu, ∃ program : Program, program.Prompt ∧
    p.get cpu = ⟨.stepping (step cpu) (us cpu), program, cycles cpu⟩

namespace Paced

variable {step : Cpu → Nat} {us : Cpu → UInt32} {cycles : Cpu → Nat} {p : StandIns}

theorem cycles_eq (h : Paced step us cycles p) (cpu : Cpu) :
    Processors.cycles p cpu = cycles cpu := by
  obtain ⟨program, -, hcpu⟩ := h cpu
  exact congrArg StandIn.cycles hcpu

/-- One of them goes on, and the other stays where it is. -/
theorem update (h : Paced step us cycles p) {cpu : Cpu} {p' : StandIns} {program : Program}
    {n : Nat} (hprogram : program.Prompt)
    (hcpu : p'.get cpu = ⟨.stepping (step cpu) (us cpu), program, n⟩)
    (hother : ∀ other, other ≠ cpu → p'.get other = p.get other) :
    Paced step us (Function.update cycles cpu n) p' := by
  intro other
  by_cases hsame : other = cpu
  · subst hsame
    rw [Function.update_self]
    exact ⟨program, hprogram, hcpu⟩
  · rw [Function.update_of_ne hsame, hother other hsame]
    exact h other

/-- **A slice** takes one of them on, and costs what it is set to. -/
theorem execute (h : Paced step us cycles p) (cpu : Cpu) (target : Nat) (board : Board) :
    Paced step us (Function.update cycles cpu (stepTo (step cpu) target (cycles cpu)))
        (StandIns.execute cpu target (p, board)).1 ∧
      (StandIns.execute cpu target (p, board)).2.now = board.now.after (us cpu).toUInt64 := by
  obtain ⟨program, hprompt, hcpu⟩ := h cpu
  obtain ⟨hnext, hnow⟩ := hprompt.begin (cycles cpu) (p.wiring, board)
  -- What a slice does is the same for both processors, each in its own place.
  have hslice : (StandIns.execute cpu target (p, board)).1.get cpu =
        ⟨.stepping (step cpu) (us cpu), (program.begin (cycles cpu) (p.wiring, board)).1,
          stepTo (step cpu) target (cycles cpu)⟩ ∧
      (StandIns.execute cpu target (p, board)).2.now =
        (program.begin (cycles cpu) (p.wiring, board)).2.2.now.after (us cpu).toUInt64 := by
    obtain ⟨m68k, z80, wiring, acknowledges, counts, events⟩ := p
    cases cpu with
    | m68k =>
      obtain rfl : m68k = _ := hcpu
      exact ⟨rfl, rfl⟩
    | z80 =>
      obtain rfl : z80 = _ := hcpu
      exact ⟨rfl, rfl⟩
  obtain ⟨hrun, hspent⟩ := hslice
  -- The other processor has not moved.
  refine ⟨h.update hnext hrun fun other hother => ?_, hspent.trans (by rw [hnow])⟩
  cases cpu <;> cases other <;> first | rfl | exact absurd rfl hother

/-- An interrupt moves neither of them. -/
theorem setIrq (h : Paced step us cycles p) (cpu : Cpu) (level : Nat) (board : Board) :
    Paced step us cycles (StandIns.setIrq cpu level (p, board)).1 := by
  have hsame : ∀ other, (StandIns.setIrq cpu level (p, board)).1.get other = p.get other := by
    obtain ⟨program, -, hcpu⟩ := h cpu
    obtain ⟨m68k, z80, wiring, acknowledges, counts, events⟩ := p
    intro other
    simp only [StandIns.setIrq, hcpu]
    split
    · cases wiring <;> cases other <;> rfl
    · cases other <;> rfl
  intro other
  rw [hsame]
  exact h other

/-- At the end of a frame, its cycles are taken off. -/
theorem endFrame (h : Paced step us cycles p) (cpu : Cpu) (n : Nat) :
    Paced step us (Function.update cycles cpu (cycles cpu - n)) (Processors.endFrame cpu n p) := by
  obtain ⟨program, hprompt, hcpu⟩ := h cpu
  refine h.update hprompt ?_ fun other hother => ?_
  · cases cpu <;> exact congrArg (fun q : StandIn => { q with cycles := q.cycles - n }) hcpu
  · cases cpu <;> cases other <;> first | rfl | exact absurd rfl hother

/-- A reset takes them back to the start. -/
theorem reset (h : Paced step us cycles p) (cpu : Cpu) :
    Paced step us (Function.update cycles cpu 0) (Processors.reset cpu p) := by
  obtain ⟨program, hprompt, hcpu⟩ := h cpu
  refine h.update hprompt ?_ fun other hother => ?_
  · cases cpu <;> exact congrArg (fun q : StandIn => { q with cycles := 0 }) hcpu
  · cases cpu <;> cases other <;> first | rfl | exact absurd rfl hother

end Paced

/-! ### Metered machines -/

/-- **A metered machine at a given place:** so far its processors have come, this is the record, and
    this is the time. -/
structure Standing (step : Cpu → Nat) (us : Cpu → UInt32) (cycles : Cpu → Nat)
    (duties : List Duty) (now : Instant) (m : Metered StandIns × Board) : Prop where
  paced : Paced step us cycles m.1.processors
  duties : m.1.duties = duties
  now : m.2.now = now

section Standing

variable {step : Cpu → Nat} {us : Cpu → UInt32} {cycles : Cpu → Nat} {duties : List Duty}
  {now : Instant} {m : Metered StandIns × Board}

/-- **A processor that is short of its target is given a slice.** -/
theorem Standing.runTo (h : Standing step us cycles duties now m) {cpu : Cpu} {target : Nat}
    (hshort : cycles cpu < target) :
    Standing step us (Function.update cycles cpu (stepTo (step cpu) target (cycles cpu)))
      (duties ++ [.slice cpu (cycles cpu) (stepTo (step cpu) target (cycles cpu))])
      (now.after (us cpu).toUInt64) (runTo cpu target m) := by
  have hcycles : Processors.cycles m.1 cpu = cycles cpu := h.paced.cycles_eq cpu
  have hrun : Machine.runTo cpu target m = Processors.execute cpu target m := by
    rw [Machine.runTo, hcycles, if_neg (Nat.not_le.mpr hshort)]
  obtain ⟨hpaced, hspent⟩ := h.paced.execute cpu target m.2
  rw [hrun]
  refine ⟨hpaced, ?_, ?_⟩
  · have hcame := hpaced.cycles_eq cpu
    rw [Function.update_self] at hcame
    show m.1.duties ++ [.slice cpu (Processors.cycles m.1 cpu) (Processors.cycles
      (StandIns.execute cpu target (m.1.processors, m.2)).1 cpu)] = _
    rw [h.duties, hcycles, hcame]
  · rw [← h.now]
    exact hspent

/-- Interrupts change none of it. -/
theorem Standing.setIrq (h : Standing step us cycles duties now m) (cpu : Cpu) (level : Nat) :
    Standing step us cycles duties now (Processors.setIrq cpu level m) :=
  ⟨h.paced.setIrq cpu level m.2, h.duties,
    (setIrq_now cpu level (m.1.processors, m.2)).trans h.now⟩

end Standing

/-! ### Lines -/

/-- How far processors come in so many lines of a frame. -/
def reaches (step cycles : Cpu → Nat) (line : Nat) : Cpu → Nat :=
  fun cpu => reach (step cpu) (cycles cpu) line

/-- **The duties of a line:** a slice for each processor. -/
def lineDuties (step cycles : Cpu → Nat) (line : Nat) : List Duty :=
  [.slice .m68k (reaches step cycles line .m68k) (reaches step cycles (line + 1) .m68k),
    .slice .z80 (reaches step cycles line .z80) (reaches step cycles (line + 1) .z80)]

/-- The duties of the first lines of a frame. -/
def slices (step cycles : Cpu → Nat) (lines : Nat) : List Duty :=
  (List.range lines).flatMap (lineDuties step cycles)

theorem slices_succ (step cycles : Cpu → Nat) (line : Nat) :
    slices step cycles (line + 1) = slices step cycles line ++ lineDuties step cycles line := by
  rw [slices, List.range_succ, List.flatMap_append, List.flatMap_singleton]
  rfl

/-- **Processors that keep pace:** their steps are no longer than a line, and they have come less
    than a step past the beginning of the frame. -/
structure KeepPace (step cycles : Cpu → Nat) : Prop where
  step_le : ∀ cpu, step cpu ≤ cyclesPerLine
  cycles_lt : ∀ cpu, cycles cpu < step cpu

namespace KeepPace

variable {step cycles : Cpu → Nat}

theorem step_pos (h : KeepPace step cycles) (cpu : Cpu) : 0 < step cpu :=
  Nat.lt_of_le_of_lt (Nat.zero_le _) (h.cycles_lt cpu)

/-- Before each line, both of them are short of its end. -/
theorem short (h : KeepPace step cycles) (line : Nat) (cpu : Cpu) :
    reaches step cycles line cpu < (line + 1) * cyclesPerLine :=
  reach_lt_next (h.step_pos cpu) (h.step_le cpu) (h.cycles_lt cpu) line

/-- A slice takes each of them one line further. -/
theorem stepTo_reaches (h : KeepPace step cycles) (line : Nat) (cpu : Cpu) :
    stepTo (step cpu) ((line + 1) * cyclesPerLine) (reaches step cycles line cpu) =
      reaches step cycles (line + 1) cpu :=
  stepTo_reach (h.step_pos cpu) (cycles cpu) line

end KeepPace

/-- Both processors, one after the other. -/
theorem update_both (cycles cycles' : Cpu → Nat) :
    Function.update (Function.update cycles .m68k (cycles' .m68k)) .z80 (cycles' .z80) =
      cycles' := by
  funext cpu
  cases cpu <;> rfl

theorem later_after (now : Instant) (us : UInt32) : Later us.toNat now (now.after us.toUInt64) := by
  rw [Later, UInt64.ofNat_uInt32ToNat]
  rfl

end ConsolePipeline.Bench

namespace ConsolePipeline.Machine.Sweep

open Bench Video

/-! ### The lines of a frame -/

section

variable {step : Cpu → Nat} {us : Cpu → UInt32} {cycles : Cpu → Nat} {duties : List Duty}
  {start now : Instant} {line : Nat} {s : Sweep (Metered StandIns)}

theorem undisturbed_standing : Undisturbed (Standing step us cycles duties now) where
  setIrq h := h.setIrq
  raiseVint h := ⟨h.paced, h.duties, h.now⟩

/-- **A sweep that has come to a line:** each line before it took a slice of each processor, and
    cost what these are set to. -/
structure Along (step : Cpu → Nat) (us : Cpu → UInt32) (cycles : Cpu → Nat) (duties : List Duty)
    (start : Instant) (line : Nat) (s : Sweep (Metered StandIns)) : Prop where
  standing : ∃ now, Later (line * lineUs us) start now ∧
    Standing step us (reaches step cycles line) (duties ++ slices step cycles line) now s.machine
  /-- Unless the clock wraps, it is measured so. -/
  measured : Room (line * lineUs us) start →
    s.m68kUs = UInt32.ofNat (line * (us .m68k).toNat) ∧
      s.z80Us = UInt32.ofNat (line * (us .z80).toNat)

theorem along_begin {m : Metered StandIns × Board} (h : Standing step us cycles duties start m)
    (hint : Int) : Along step us cycles duties start 0 { machine := m, hint } := by
  refine ⟨⟨start, ?_, ?_⟩, fun _ => ?_⟩
  · rw [Nat.zero_mul]
    exact later_refl start
  · have hreaches : reaches step cycles 0 = cycles := funext fun _ => reach_zero _ _
    rw [hreaches]
    exact ⟨h.paced, h.duties.trans (List.append_nil _).symm, h.now⟩
  · rw [Nat.zero_mul, Nat.zero_mul]
    exact ⟨rfl, rfl⟩

/-- **One line more.** -/
theorem Along.keeps_line (h : Along step us cycles duties start line s)
    (hpace : KeepPace step cycles) (mode : Mode) (reload : Nat) :
    Along step us cycles duties start (line + 1) (s.line mode reload line) := by
  obtain ⟨now, hlater, hstanding⟩ := h.standing
  -- Both processors are short of the end of the line.
  have hfirst := hstanding.runTo (hpace.short line .m68k)
  rw [hpace.stepTo_reaches] at hfirst
  have hother : Function.update (reaches step cycles line) .m68k
      (reaches step cycles (line + 1) .m68k) .z80 = reaches step cycles line .z80 :=
    Function.update_of_ne (by decide) _ _
  have hsecond := hfirst.runTo (hother ▸ hpace.short line .z80)
  rw [hother, hpace.stepTo_reaches, update_both] at hsecond
  have hm68k := later_after now (us .m68k)
  have hz80 := later_after (now.after (us .m68k).toUInt64) (us .z80)
  have hsum : (line + 1) * lineUs us =
      line * lineUs us + ((us .m68k).toNat + (us .z80).toNat) := Nat.succ_mul _ _
  have hexecuted : Standing step us (reaches step cycles (line + 1))
      (duties ++ slices step cycles (line + 1))
      ((now.after (us .m68k).toUInt64).after (us .z80).toUInt64) (s.execute line).machine := by
    rw [List.append_assoc, List.append_assoc] at hsecond
    rw [slices_succ]
    exact hsecond
  have hkept := kept_line (undisturbed_standing : Undisturbed (Standing step us
    (reaches step cycles (line + 1)) (duties ++ slices step cycles (line + 1))
    ((now.after (us .m68k).toUInt64).after (us .z80).toUInt64))) mode reload line s
  refine ⟨⟨_, ?_, hkept.machine hexecuted⟩, fun hroom => ?_⟩
  · rw [hsum]
    exact hlater.trans (hm68k.trans hz80)
  · rw [hsum] at hroom
    have hrest := hroom.right hlater
    obtain ⟨hm68kUs, hz80Us⟩ := h.measured hroom.left
    rw [hkept.m68kUs, hkept.z80Us]
    constructor
    · show s.m68kUs + elapsedLowUs s.machine.2.now
        (runTo .m68k ((line + 1) * cyclesPerLine) s.machine).2.now = _
      rw [hstanding.now, hfirst.now, hm68k.elapsedLowUs hrest.left, hm68kUs, Nat.succ_mul,
        UInt32.ofNat_add]
    · show s.z80Us + elapsedUs (runTo .m68k ((line + 1) * cyclesPerLine) s.machine).2.now
        (runTo .z80 ((line + 1) * cyclesPerLine)
          (runTo .m68k ((line + 1) * cyclesPerLine) s.machine)).2.now = _
      have hfits : min (us .z80).toNat 4294967295 = (us .z80).toNat :=
        Nat.min_eq_left (Nat.le_of_lt_succ (us .z80).toNat_lt)
      rw [hfirst.now, hsecond.now, hz80.elapsedUs (hrest.right hm68k), hfits, hz80Us,
        Nat.succ_mul, UInt32.ofNat_add]

/-- **And any number of lines.** -/
theorem Along.keeps_lines (h : Along step us cycles duties start line s)
    (hpace : KeepPace step cycles) (mode : Mode) (reload n : Nat) :
    Along step us cycles duties start (line + n) (s.lines mode reload n line) := by
  induction n generalizing line s with
  | zero => exact h
  | succ n ih =>
    rw [show line + (n + 1) = line + 1 + n by omega]
    exact ih (h.keeps_line hpace mode reload)

end

end ConsolePipeline.Machine.Sweep
