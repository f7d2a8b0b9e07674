import Mathlib.Algebra.Group.Nat.Defs
import ConsolePipeline.Bench.Assembly
import ConsolePipeline.Proofs.Bench.StandIns
import ConsolePipeline.Proofs.Sound.Live

namespace ConsolePipeline.Bench

open Machine Sound Video

/-!
# Quiet stand-ins

Stand-in processors without a program leave the chips alone. All that their slices change is how far
they have come and what time it is, so two machines with the same processors pass a frame alike even
if their buffers have different pasts, and in the same time.

* `Quiet` — such processors, with the cost of a slice of each.
* `Again` — two machines in the same place of a frame; `indistinct_again` — no frame can tell them
  apart.
* `Later`, `Room` — a clock that has gone on, and one that does not wrap by then.
* `Sweep.Undisturbed`, `Sweep.kept_line` — what no interrupt changes, nothing does after the slices
  of a line.
* `Sweep.lines_clock` — what the scanlines cost, and what is measured of it unless the clock wraps.
-/

/-! ### Processors without a program -/

/-- **Stepping processors without a program,** on the registers of the board. -/
structure Quiet (us : Cpu → UInt32) (p : StandIns) : Prop where
  wiring : p.wiring = none
  idle : ∀ cpu, ∃ cycles, p.get cpu = ⟨.stepping (stepCycles cpu) (us cpu), .idle, cycles⟩

section Quiet

variable {us : Cpu → UInt32} {p : StandIns}

/-- What one slice of a processor changes. -/
theorem Quiet.execute (h : Quiet us p) (cpu : Cpu) (target : Nat) (board : Board) :
    StandIns.execute cpu target (p, board) =
      (p.map cpu fun q => { q with cycles := stepTo (stepCycles cpu) target q.cycles },
        ⟨board.now.after (us cpu).toUInt64, board.registers, board.bus⟩) := by
  obtain ⟨m68k, z80, wiring, acknowledges, counts, events⟩ := p
  obtain ⟨now, registers, bus⟩ := board
  obtain rfl : wiring = none := h.wiring
  obtain ⟨cycles, hcpu⟩ := h.idle cpu
  cases cpu with
  | m68k =>
    obtain rfl : m68k = _ := hcpu
    rfl
  | z80 =>
    obtain rfl : z80 = _ := hcpu
    rfl

theorem Quiet.map (h : Quiet us p) (cpu : Cpu) (f : Nat → Nat) :
    Quiet us (p.map cpu fun q => { q with cycles := f q.cycles }) := by
  refine ⟨?_, fun other => ?_⟩
  · cases cpu <;> exact h.wiring
  · obtain ⟨cycles, hother⟩ := h.idle other
    obtain ⟨m68k, z80, wiring, acknowledges, counts, events⟩ := p
    cases cpu <;> cases other
    · obtain rfl : m68k = _ := hother
      exact ⟨_, rfl⟩
    · exact ⟨cycles, hother⟩
    · exact ⟨cycles, hother⟩
    · obtain rfl : z80 = _ := hother
      exact ⟨_, rfl⟩

/-- An interrupt is counted, and the vertical one may be acknowledged. -/
theorem Quiet.setIrq (h : Quiet us p) (cpu : Cpu) (level : Nat) (board : Board) :
    StandIns.setIrq cpu level (p, board) =
      ({ p with counts := StandIns.count cpu level p.counts },
        if cpu = .m68k ∧ level = vblankIrq ∧ p.acknowledges then
          board.mapRegisters (·.acknowledgeVint)
        else board) := by
  obtain ⟨m68k, z80, wiring, acknowledges, counts, events⟩ := p
  obtain ⟨now, registers, bus⟩ := board
  obtain rfl : wiring = none := h.wiring
  obtain ⟨cycles, hcpu⟩ := h.idle cpu
  simp only [StandIns.setIrq, hcpu]
  split <;> rfl

theorem Quiet.counted (h : Quiet us p) (counts : IrqCounts) : Quiet us { p with counts } :=
  ⟨h.wiring, h.idle⟩

end Quiet

/-! ### Two machines in the same place of a frame -/

/-- Two pairs of processors that have come equally far. What they have counted has no part in it. -/
structure SameCpus (us : Cpu → UInt32) (p p' : StandIns) : Prop where
  quiet : Quiet us p
  quiet' : Quiet us p'
  cpus : ∀ cpu, p'.get cpu = p.get cpu
  acknowledges : p'.acknowledges = p.acknowledges

theorem SameCpus.map {us : Cpu → UInt32} {p p' : StandIns} (h : SameCpus us p p') (cpu : Cpu)
    (f : Nat → Nat) :
    SameCpus us (p.map cpu fun q => { q with cycles := f q.cycles })
      (p'.map cpu fun q => { q with cycles := f q.cycles }) := by
  refine ⟨h.quiet.map cpu f, h.quiet'.map cpu f, fun other => ?_, ?_⟩
  · have hm68k : p'.m68k = p.m68k := h.cpus .m68k
    have hz80 : p'.z80 = p.z80 := h.cpus .z80
    cases cpu <;> cases other <;> simp only [StandIns.map, StandIns.get, hm68k, hz80]
  · cases cpu <;> exact h.acknowledges

/-- **Two machines in the same place of the same frame.** Their clocks may differ. -/
structure Again (us : Cpu → UInt32) (m m' : StandIns × Board) : Prop where
  processors : SameCpus us m.1 m'.1
  registers : m'.2.registers = m.2.registers
  bus : Bus.Same m.2.bus m'.2.bus

section Again

variable {us : Cpu → UInt32} {m m' : StandIns × Board}

theorem Again.execute (h : Again us m m') (cpu : Cpu) (target : Nat) :
    Again us (StandIns.execute cpu target m) (StandIns.execute cpu target m') := by
  obtain ⟨p, board⟩ := m
  obtain ⟨p', board'⟩ := m'
  rw [h.processors.quiet.execute, h.processors.quiet'.execute]
  exact ⟨h.processors.map cpu _, h.registers, h.bus⟩

theorem Again.setIrq (h : Again us m m') (cpu : Cpu) (level : Nat) :
    Again us (StandIns.setIrq cpu level m) (StandIns.setIrq cpu level m') := by
  obtain ⟨p, board⟩ := m
  obtain ⟨p', board'⟩ := m'
  have hprocessors : SameCpus us { p with counts := StandIns.count cpu level p.counts }
      { p' with counts := StandIns.count cpu level p'.counts } :=
    ⟨h.processors.quiet.counted _, h.processors.quiet'.counted _, h.processors.cpus,
      h.processors.acknowledges⟩
  rw [h.processors.quiet.setIrq, h.processors.quiet'.setIrq]
  have hsame : p'.acknowledges = p.acknowledges := h.processors.acknowledges
  -- The interrupt is acknowledged on both sides or on neither.
  by_cases hack : cpu = .m68k ∧ level = vblankIrq ∧ p.acknowledges
  · rw [if_pos hack, if_pos (by rw [hsame]; exact hack)]
    exact ⟨hprocessors, congrArg (·.acknowledgeVint) h.registers, h.bus⟩
  · rw [if_neg hack, if_neg (by rw [hsame]; exact hack)]
    exact ⟨hprocessors, h.registers, h.bus⟩

/-- **No frame can tell two such machines apart.** -/
theorem indistinct_again (us : Cpu → UInt32) : Indistinct (P := StandIns) (Again us) where
  cycles h cpu := congrArg StandIn.cycles (h.processors.cpus cpu)
  registers h := h.registers
  samples h := h.bus.sampleCounts
  execute h := h.execute
  setIrq h := h.setIrq
  raiseVint h := ⟨h.processors, congrArg (·.raiseVint) h.registers, h.bus⟩
  flush h cycle := ⟨h.processors, h.registers, h.bus.flush cycle⟩

end Again

/-! ### The clock -/

/-- The clock has gone on by so many microseconds. -/
def Later (k : Nat) (a b : Instant) : Prop :=
  b = a + UInt64.ofNat k

/-- The clock has so many microseconds to go before it wraps. -/
def Room (k : Nat) (now : Instant) : Prop :=
  now.toNat + k < 2 ^ 64

section Clock

variable {a b c a' b' : Instant} {j k : Nat}

theorem later_refl (a : Instant) : Later 0 a a := by
  rw [Later]
  exact (UInt64.add_zero a).symm

theorem Later.trans (h : Later j a b) (h' : Later k b c) : Later (j + k) a c := by
  rw [Later, h', h, UInt64.ofNat_add, UInt64.add_assoc]

/-- A clock that has room does not wrap. -/
theorem Later.toNat (h : Later k a b) (hroom : Room k a) : b.toNat = a.toNat + k := by
  have hk : k < 2 ^ 64 := by
    rw [Room] at hroom
    omega
  rw [h, UInt64.toNat_add, UInt64.toNat_ofNat', Nat.mod_eq_of_lt hk, Nat.mod_eq_of_lt hroom]

theorem Room.left (h : Room (j + k) a) : Room j a := by
  rw [Room] at h ⊢
  omega

theorem Room.right (h : Room (j + k) a) (hlater : Later j a b) : Room k b := by
  rw [Room, hlater.toNat h.left]
  rw [Room] at h
  omega

/-- **What is measured is what has passed,** if the clock has room for it. -/
theorem Later.elapsedUs (h : Later k a b) (hroom : Room k a) :
    elapsedUs a b = UInt32.ofNat (min k 4294967295) := by
  rw [ConsolePipeline.elapsedUs, h.toNat hroom, Nat.add_sub_cancel_left]

theorem Later.elapsedLowUs (h : Later k a b) (hroom : Room k a) :
    elapsedLowUs a b = UInt32.ofNat k := by
  rw [ConsolePipeline.elapsedLowUs, h.toNat hroom, Nat.add_sub_cancel_left]

/-- A clock that has gone on without being seen to go back has had room for it. -/
theorem Later.room (h : Later k a b) (hk : k < 2 ^ 64) (hle : a ≤ b) : Room k a := by
  have hle := UInt64.le_iff_toNat_le.mp hle
  rw [h, UInt64.toNat_add, UInt64.toNat_ofNat', Nat.mod_eq_of_lt hk] at hle
  rw [Room]
  have ha := a.toNat_lt
  omega

end Clock

/-! ### The time that scanlines take -/

/-- What a line costs at most. -/
def lineUs (us : Cpu → UInt32) : Nat :=
  (us .m68k).toNat + (us .z80).toNat

/-- A slice costs the same on both sides: nothing, if the processor is there already. -/
theorem Again.runTo_clock {us : Cpu → UInt32} {m m' : StandIns × Board} (h : Again us m m')
    (cpu : Cpu) (target : Nat) :
    ∃ k ≤ (us cpu).toNat, Later k m.2.now (runTo cpu target m).2.now ∧
      Later k m'.2.now (runTo cpu target m').2.now := by
  -- Both processors are equally far, so they run on both sides or on neither.
  have hcycles : Processors.cycles m'.1 cpu = Processors.cycles m.1 cpu :=
    (indistinct_again us).cycles h cpu
  rw [runTo, runTo, hcycles]
  by_cases hthere : target ≤ Processors.cycles m.1 cpu
  · rw [if_pos hthere, if_pos hthere]
    exact ⟨0, Nat.zero_le _, later_refl _, later_refl _⟩
  · rw [if_neg hthere, if_neg hthere]
    refine ⟨(us cpu).toNat, Nat.le_refl _, ?_, ?_⟩
    · show (StandIns.execute cpu target (m.1, m.2)).2.now = _
      rw [h.processors.quiet.execute, UInt64.ofNat_uInt32ToNat]
      rfl
    · show (StandIns.execute cpu target (m'.1, m'.2)).2.now = _
      rw [h.processors.quiet'.execute, UInt64.ofNat_uInt32ToNat]
      rfl

/-- An interrupt takes no time. -/
theorem setIrq_now (cpu : Cpu) (level : Nat) (m : StandIns × Board) :
    (StandIns.setIrq cpu level m).2.now = m.2.now := by
  obtain ⟨⟨m68k, z80, wiring, acknowledges, counts, events⟩, ⟨now, registers, bus⟩⟩ := m
  simp only [StandIns.setIrq]
  split
  · rfl
  · split
    · cases wiring <;> rfl
    · rfl

end ConsolePipeline.Bench

namespace ConsolePipeline.Machine.Sweep

open Bench Video

/-! ### The interrupts of a line -/

section

variable {P : Type} [Processors P] {K : P × Board → Prop} {s s' t : Sweep P}

/-- What no interrupt changes of a machine. -/
structure Undisturbed (K : P × Board → Prop) : Prop where
  setIrq : ∀ {m}, K m → ∀ cpu level, K (Processors.setIrq cpu level m)
  raiseVint : ∀ {m}, K m → K (m.1, m.2.mapRegisters (·.raiseVint))

/-- Two states of a sweep of which the second one has kept that, with the same measured. -/
structure Kept (K : P × Board → Prop) (s s' : Sweep P) : Prop where
  machine : K s.machine → K s'.machine
  m68kUs : s'.m68kUs = s.m68kUs
  z80Us : s'.z80Us = s.z80Us

omit [Processors P] in
theorem Kept.trans (h : Kept K s s') (h' : Kept K s' t) : Kept K s t :=
  ⟨h'.machine ∘ h.machine, h'.m68kUs.trans h.m68kUs, h'.z80Us.trans h.z80Us⟩

theorem kept_setIrq (hK : Undisturbed K) (cpu : Cpu) (level : Nat) (s : Sweep P) :
    Kept K s (s.setIrq cpu level) :=
  ⟨fun h => hK.setIrq h cpu level, rfl, rfl⟩

theorem kept_countLine (hK : Undisturbed K) (mode : Mode) (reload line : Nat) (s : Sweep P) :
    Kept K s (s.countLine mode reload line) := by
  have hraise : Kept K s s.raiseLineIrq := (kept_setIrq hK .m68k lineIrq s).trans ⟨id, rfl, rfl⟩
  have hset : ∀ (s : Sweep P) hint, Kept K s (s.setHint hint) := fun _ _ => ⟨id, rfl, rfl⟩
  rw [countLine]
  generalize (if line = 0 ∨ mode.height < line then (reload : Int) else s.hint) - 1 = counter
  by_cases hout : counter < 0
  · rw [if_pos hout]
    by_cases hdue : s.lineIrqDue mode line = true
    · rw [if_pos hdue]
      exact hraise.trans (hset _ _)
    · rw [if_neg hdue]
      exact hset _ _
  · rw [if_neg hout]
    exact hset _ _

theorem kept_raiseVblank (hK : Undisturbed K) (s : Sweep P) : Kept K s s.raiseVblank := by
  have hraise : Kept K s s.raiseVint := ⟨fun h => hK.raiseVint h, rfl, rfl⟩
  rw [raiseVblank]
  split
  · exact (hraise.trans (kept_setIrq hK .m68k vblankIrq _)).trans ⟨id, rfl, rfl⟩
  · exact ⟨id, rfl, rfl⟩

theorem kept_leaveLine (hK : Undisturbed K) (mode : Mode) (line : Nat) (s : Sweep P) :
    Kept K s (s.leaveLine mode line) := by
  rw [leaveLine]
  split
  · exact (kept_raiseVblank hK s).trans (kept_setIrq hK .z80 1 _)
  · split
    · exact kept_setIrq hK .z80 0 s
    · exact ⟨id, rfl, rfl⟩

/-- **After the slices of a line,** nothing of it changes. -/
theorem kept_line (hK : Undisturbed K) (mode : Mode) (reload line : Nat) (s : Sweep P) :
    Kept K (s.execute line) (s.line mode reload line) :=
  (kept_countLine hK mode reload line _).trans (kept_leaveLine hK mode line _)

end

/-! ### The time of a line -/

variable {us : Cpu → UInt32} {s s' t : Sweep StandIns}

/-- The time it is in a sweep. -/
def now (s : Sweep StandIns) : Instant :=
  s.machine.2.now

/-- Two states of a sweep between which no time has passed. -/
structure SameTime (s t : Sweep StandIns) : Prop where
  now : t.now = s.now
  m68kUs : t.m68kUs = s.m68kUs
  z80Us : t.z80Us = s.z80Us

theorem undisturbed_now (now : Instant) :
    Undisturbed fun m : StandIns × Board => m.2.now = now where
  setIrq h cpu level := (setIrq_now cpu level _).trans h
  raiseVint h := h

/-- The time of a line is that of its two slices. -/
theorem sameTime_line (mode : Mode) (reload line : Nat) (s : Sweep StandIns) :
    SameTime (s.execute line) (s.line mode reload line) := by
  have hkept := kept_line (undisturbed_now (s.execute line).now) mode reload line s
  exact ⟨hkept.machine rfl, hkept.m68kUs, hkept.z80Us⟩

/-- **One line takes the same time on both sides,** and the same is measured unless a clock
    wraps. -/
theorem line_clock (h : Alike (Again us) s s') (mode : Mode) (reload line : Nat) :
    ∃ k ≤ lineUs us, Later k s.now (s.line mode reload line).now ∧
      Later k s'.now (s'.line mode reload line).now ∧
      (Room k s.now → Room k s'.now → s'.m68kUs = s.m68kUs → s'.z80Us = s.z80Us →
        (s'.line mode reload line).m68kUs = (s.line mode reload line).m68kUs ∧
          (s'.line mode reload line).z80Us = (s.line mode reload line).z80Us) := by
  have hR := indistinct_again us
  obtain ⟨j, hj, hfirst, hfirst'⟩ := h.machine.runTo_clock .m68k ((line + 1) * cyclesPerLine)
  obtain ⟨k, hk, hsecond, hsecond'⟩ :=
    (hR.runTo h.machine .m68k ((line + 1) * cyclesPerLine)).runTo_clock .z80
      ((line + 1) * cyclesPerLine)
  have hline := sameTime_line mode reload line s
  have hline' := sameTime_line mode reload line s'
  refine ⟨j + k, Nat.add_le_add hj hk, ?_, ?_, fun hroom hroom' hm68k hz80 => ?_⟩
  · rw [hline.now]
    exact hfirst.trans hsecond
  · rw [hline'.now]
    exact hfirst'.trans hsecond'
  · -- The second processor measures from where the first one has left the clock.
    rw [hline.m68kUs, hline'.m68kUs, hline.z80Us, hline'.z80Us]
    constructor
    · show s'.m68kUs + elapsedLowUs _ _ = s.m68kUs + elapsedLowUs _ _
      rw [hm68k, hfirst.elapsedLowUs hroom.left, hfirst'.elapsedLowUs hroom'.left]
    · show s'.z80Us + elapsedUs _ _ = s.z80Us + elapsedUs _ _
      rw [hz80, hsecond.elapsedUs (hroom.right hfirst), hsecond'.elapsedUs (hroom'.right hfirst')]

/-- **And so do any lines.** -/
theorem lines_clock (h : Alike (Again us) s s') (mode : Mode) (reload n line : Nat) :
    ∃ k ≤ n * lineUs us, Later k s.now (lines mode reload n line s).now ∧
      Later k s'.now (lines mode reload n line s').now ∧
      (Room k s.now → Room k s'.now → s'.m68kUs = s.m68kUs → s'.z80Us = s.z80Us →
        (lines mode reload n line s').m68kUs = (lines mode reload n line s).m68kUs ∧
          (lines mode reload n line s').z80Us = (lines mode reload n line s).z80Us) := by
  induction n generalizing line s s' with
  | zero =>
    exact ⟨0, Nat.zero_le _, later_refl _, later_refl _, fun _ _ hm68k hz80 => ⟨hm68k, hz80⟩⟩
  | succ n ih =>
    obtain ⟨j, hj, hfirst, hfirst', hmeasured⟩ := line_clock h mode reload line
    obtain ⟨k, hk, hrest, hrest', hmeasuredRest⟩ :=
      ih (h.line (indistinct_again us) mode reload line) (line + 1)
    refine ⟨j + k, ?_, hfirst.trans hrest, hfirst'.trans hrest', fun hroom hroom' hm68k hz80 => ?_⟩
    · rw [Nat.succ_mul]
      omega
    · obtain ⟨hm68k, hz80⟩ := hmeasured hroom.left hroom'.left hm68k hz80
      exact hmeasuredRest (hroom.right hfirst) (hroom'.right hfirst') hm68k hz80

end ConsolePipeline.Machine.Sweep
