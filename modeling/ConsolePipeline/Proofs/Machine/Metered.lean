import ConsolePipeline.Proofs.Machine.Recorded

namespace ConsolePipeline

open FrameSkip Handoff Sound Video

/-!
# Processors with a record of their duties

A frame asks its processors for slices of their time, and takes its cycles off them at its end.
Processors that keep a record of both show how often each of them was run, how far, and what was
left over. For everything else the record is not there.

* `Forgets` — what can be left out of the state of processors.
* `Sweep.lines_seen`, `Emulation.prepare_seen` — the scanlines of a frame, and all of it up to the
  drawing, go as they do without what is left out.
* `Pipeline.step_seen`, `play_seen` — and so do frames in lockstep.
* `Duty`, `Metered` — the record, and processors that keep it.
* `Pipeline.step_metered`, `play_metered` — a pipeline with a record plays the same frames.
-/

/-- If an outcome is seen to be good, it is. -/
theorem Run.seenBy_ok {σ τ α : Type} {φ : σ → τ} {outcome : EStateM.Result Fault σ α} {a : α}
    {t : τ} (h : seenBy φ outcome = .ok a t) : ∃ s, outcome = .ok a s ∧ φ s = t := by
  cases outcome with
  | ok b s =>
    cases h
    exact ⟨s, rfl, rfl⟩
  | error fault s => cases h

namespace Machine

variable {P Q R κ : Type}

/-- A machine of whose processors only a part is seen. -/
def seen (f : P → Q) (m : P × Board) : Q × Board :=
  (f m.1, m.2)

/-- **What can be left out of processors:** what `f` keeps of their state goes on by itself. -/
structure Forgets [Processors P] [Processors Q] (f : P → Q) : Prop where
  cycles : ∀ p cpu, Processors.cycles (f p) cpu = Processors.cycles p cpu
  execute : ∀ cpu target m,
    Processors.execute cpu target (seen f m) = seen f (Processors.execute cpu target m)
  setIrq : ∀ cpu level m,
    Processors.setIrq cpu level (seen f m) = seen f (Processors.setIrq cpu level m)
  endFrame : ∀ cpu cycles p,
    Processors.endFrame cpu cycles (f p) = f (Processors.endFrame cpu cycles p)

/-! ### Scanlines -/

/-- A sweep of whose processors only a part is seen. -/
def Sweep.seen (f : P → Q) : Sweep P → Sweep Q
  | ⟨machine, hint, m68kUs, z80Us, lineInterrupts, vblankRaised⟩ =>
    ⟨Machine.seen f machine, hint, m68kUs, z80Us, lineInterrupts, vblankRaised⟩

section

variable [Processors P] [Processors Q] {f : P → Q}

theorem Forgets.runTo (hf : Forgets f) (cpu : Cpu) (target : Nat) (m : P × Board) :
    runTo cpu target (seen f m) = seen f (runTo cpu target m) := by
  have hcycles : Processors.cycles (seen f m).1 cpu = Processors.cycles m.1 cpu :=
    hf.cycles m.1 cpu
  simp only [Machine.runTo, hcycles, hf.execute, apply_ite (seen f)]

namespace Sweep

theorem execute_seen (hf : Forgets f) (line : Nat) (s : Sweep P) :
    (s.seen f).execute line = (s.execute line).seen f := by
  simp only [seen, execute, hf.runTo]
  rfl

theorem setIrq_seen (hf : Forgets f) (cpu : Cpu) (level : Nat) (s : Sweep P) :
    (s.seen f).setIrq cpu level = (s.setIrq cpu level).seen f := by
  simp only [seen, setIrq, hf.setIrq]

theorem raiseLineIrq_seen (hf : Forgets f) (s : Sweep P) :
    (s.seen f).raiseLineIrq = s.raiseLineIrq.seen f := by
  simp only [raiseLineIrq, setIrq_seen hf]
  rfl

theorem countLine_seen (hf : Forgets f) (mode : Mode) (reload line : Nat) (s : Sweep P) :
    (s.seen f).countLine mode reload line = (s.countLine mode reload line).seen f := by
  have hhint : (s.seen f).hint = s.hint := rfl
  have hdue : (s.seen f).lineIrqDue mode line = s.lineIrqDue mode line := rfl
  have hset : ∀ hint, (s.seen f).setHint hint = (s.setHint hint).seen f := fun _ => rfl
  rw [countLine, countLine, hhint, hdue, raiseLineIrq_seen hf]
  generalize (if line = 0 ∨ mode.height < line then (reload : Int) else s.hint) - 1 = counter
  by_cases hout : counter < 0
  · rw [if_pos hout, if_pos hout]
    split <;> rfl
  · rw [if_neg hout, if_neg hout, hset]

theorem raiseVblank_seen (hf : Forgets f) (s : Sweep P) :
    (s.seen f).raiseVblank = s.raiseVblank.seen f := by
  have hregisters : (s.seen f).registers = s.registers := rfl
  have hraise : (s.seen f).raiseVint = s.raiseVint.seen f := rfl
  simp only [raiseVblank, hregisters, hraise, setIrq_seen hf]
  split <;> rfl

theorem leaveLine_seen (hf : Forgets f) (mode : Mode) (line : Nat) (s : Sweep P) :
    (s.seen f).leaveLine mode line = (s.leaveLine mode line).seen f := by
  simp only [leaveLine, raiseVblank_seen hf, setIrq_seen hf]
  split
  · rfl
  · split <;> rfl

theorem line_seen (hf : Forgets f) (mode : Mode) (reload line : Nat) (s : Sweep P) :
    (s.seen f).line mode reload line = (s.line mode reload line).seen f := by
  rw [Sweep.line, execute_seen hf, countLine_seen hf, leaveLine_seen hf, Sweep.line]

/-- **The scanlines go as they do** without what is left out. -/
theorem lines_seen (hf : Forgets f) (mode : Mode) (reload n line : Nat) (s : Sweep P) :
    (s.seen f).lines mode reload n line = (s.lines mode reload n line).seen f := by
  induction n generalizing line s with
  | zero => rfl
  | succ n ih => rw [lines, line_seen hf, ih, lines]

end Sweep

end

/-! ### A frame -/

namespace Emulation

/-- An emulation side of whose processors only a part is seen. -/
def seen (f : P → Q) : Emulation P R → Emulation Q R
  | ⟨processors, board, renderer, loop, sender, notices⟩ =>
    ⟨f processors, board, renderer, loop, sender, notices⟩

/-- The same, with the exchange beside it. -/
def seenBeside (f : P → Q) (s : Emulation P R × Exchange) : Emulation Q R × Exchange :=
  (s.1.seen f, s.2)

variable {f : P → Q}

section

variable [Renderer R]

theorem enterMode_seen (mode : Mode) (e : Emulation P R) :
    enterMode mode (e.seen f) = ((enterMode mode e).1, (enterMode mode e).2.seen f) := by
  have hloop : (e.seen f).loop = e.loop := rfl
  simp only [enterMode, hloop]
  split
  · rfl
  · split <;> rfl

theorem mirrors_render_seen (mode : Mode) :
    Run.Mirrors (seen (R := R) f) (render mode) (render mode) := by
  rw [render_eq, render_eq]
  refine .get_bind fun e => .bind (.same _ (fun _ => rfl) fun _ _ => rfl) fun _ => ?_
  exact .get_bind fun e' => .bind (.modifyGet fun _ => rfl) fun _ => .pure _

theorem mirrors_draw_seen (d : Draft) :
    Run.Mirrors (seen (R := R) f) (draw d) (draw d) := by
  have hmeasure : ∀ us, Run.Mirrors (seen (R := R) f) (measure d us) (measure d us) :=
    fun _ => .get_bind fun _ => .pure _
  rw [draw_eq, draw_eq]
  split
  · exact (mirrors_render_seen d.mode).bind hmeasure
  · exact hmeasure 0

end

theorem mirrors_alone_seen {α : Type} {act : Run (Emulation P R) α} {act' : Run (Emulation Q R) α}
    (h : Run.Mirrors (seen f) act act') :
    Run.Mirrors (seenBeside f) (alone act) (alone act') :=
  h.within (fun _ => rfl) fun _ _ => rfl

theorem mirrors_onOutlet_seen {α : Type} (act : Run Outlet α) :
    Run.Mirrors (seenBeside (R := R) f) (onOutlet act) (onOutlet act) :=
  .same act (fun _ => rfl) fun _ _ => rfl

variable [Processors P] [Processors Q]

/-- A sweep goes as it does without what is left out. -/
theorem sweep_seen (hf : Forgets f) (mode : Mode) (e : Emulation P R) :
    sweep mode (e.seen f) = ((sweep mode e).1, (sweep mode e).2.1, (sweep mode e).2.2.1,
      (sweep mode e).2.2.2.seen f) := by
  obtain ⟨processors, board, renderer, loop, sender, notices⟩ := e
  have hlines := Sweep.lines_seen hf mode board.registers.lineReload.toNat mode.linesPerFrame 0
    { machine := (processors, board), hint := loop.hint }
  have hstart : Sweep.seen f { machine := (processors, board), hint := loop.hint } =
      { machine := (f processors, board), hint := loop.hint } := rfl
  rw [hstart] at hlines
  simp only [seen, sweep, hlines]
  rfl

/-- **Up to the drawing,** a frame goes as it does without what is left out. -/
theorem prepare_seen [Renderer R] (hf : Forgets f) (e : Emulation P R) :
    (e.seen f).prepare = (e.prepare.1, e.prepare.2.seen f) := by
  have hboard : (e.seen f).board = e.board := rfl
  have hdecide : ∀ force (e : Emulation P R), decide force (e.seen f) =
      ((decide force e).1, (decide force e).2.seen f) := fun _ _ => rfl
  have hbegin : ∀ e : Emulation P R,
      (e.seen f).mapBus (·.beginFrame) = (e.mapBus (·.beginFrame)).seen f := fun _ => rfl
  have hflush : ∀ e : Emulation P R, (e.seen f).flush = e.flush.seen f := fun _ => rfl
  simp only [prepare, hboard, enterMode_seen, hdecide, hbegin, sweep_seen hf, hflush]
  rfl

theorem conclude_seen (hf : Forgets f) (d : Draft) (waitUs : UInt32) (e : Emulation P R) :
    conclude d waitUs (e.seen f) = ((conclude d waitUs e).1, (conclude d waitUs e).2.seen f) := by
  obtain ⟨processors, board, renderer, loop, sender, notices⟩ := e
  simp only [conclude, profile, seen, mapLoop, rebase, hf.endFrame]
  split <;> rfl

theorem mirrors_handOver_seen (hf : Forgets f) (d : Draft) :
    Run.Mirrors (seenBeside (R := R) f) (handOver d) (handOver d) := by
  have hfetch : Run.Mirrors (seenBeside (R := R) f) fetch fetch :=
    .get_bind fun _ => (mirrors_onOutlet_seen _).bind fun _ => mirrors_onOutlet_seen _
  have hship : ∀ a, Run.Mirrors (seenBeside (R := R) f) (ship a) (ship a) :=
    fun _ => (mirrors_onOutlet_seen _).bind fun _ => mirrors_alone_seen (.modifyGet fun _ => rfl)
  exact hfetch.bind fun a => (hship a).bind fun _ =>
    mirrors_alone_seen (.modifyGet fun e => conclude_seen hf d 0 e)

/-- **A whole frame goes as it does** without what is left out. -/
theorem mirrors_runFrame_seen [Renderer R] (hf : Forgets f) :
    Run.Mirrors (seenBeside (R := R) f) runFrame runFrame := by
  rintro ⟨e, x⟩
  have hfinish : Run.Mirrors (seenBeside (R := R) f) (finish e.prepare.1) (finish e.prepare.1) :=
    (mirrors_alone_seen (mirrors_draw_seen _)).bind (mirrors_handOver_seen hf)
  show runFrame (e.seen f, x) = _
  rw [runFrame_eq, runFrame_eq, prepare_seen hf]
  exact hfinish (e.prepare.2, x)

end Emulation

/-! ### Frames in lockstep -/

namespace Pipeline

/-- A pipeline of whose processors only a part is seen. -/
def seen (f : P → Q) : Pipeline P R κ → Pipeline Q R κ
  | ⟨emulation, exchange, audio, notices⟩ => ⟨emulation.seen f, exchange, audio, notices⟩

section

variable [Processors P] [Processors Q] [Renderer R] {f : P → Q}

/-- **A frame in lockstep goes as it does** without what is left out. -/
theorem step_seen (hf : Forgets f) :
    Run.Mirrors (seen (R := R) (κ := κ) f) step step := by
  have hemulation : Run.Mirrors (seen (R := R) (κ := κ) f) (onEmulation Emulation.runFrame)
      (onEmulation Emulation.runFrame) :=
    (Emulation.mirrors_runFrame_seen hf).within (fun _ => rfl) fun _ _ => rfl
  have haudio : Run.Mirrors (seen (R := R) (κ := κ) f) (onAudio AudioCore.service)
      (onAudio AudioCore.service) :=
    .same _ (fun _ => rfl) fun _ _ => rfl
  refine hemulation.bind fun report => haudio.bind fun mixed => ?_
  cases mixed with
  | true => exact .pure report
  | false => exact Run.Mirrors.bind (.modifyGet fun _ => rfl) fun _ => .pure report

/-- **And so do any frames** with any writes in between. -/
theorem play_seen (hf : Forgets f) (writes : List Writes) :
    Run.Mirrors (seen (R := R) (κ := κ) f) (play writes) (play writes) := by
  induction writes with
  | nil => exact .pure []
  | cons w rest ih =>
    refine Run.Mirrors.bind (.modifyGet fun _ => rfl) fun _ => ?_
    exact (step_seen hf).bind fun _ => ih.bind fun _ => .pure _

end

end Pipeline

/-! ### The record -/

/-- What a processor is asked to do in a frame. -/
inductive Duty
  /-- A slice of time, which takes it from one cycle of the frame to another. -/
  | slice (cpu : Cpu) (before after : Nat)
  /-- To take the cycles of the frame off those it has come to. -/
  | endFrame (cpu : Cpu) (cycles frame : Nat)
  deriving DecidableEq, Repr, Inhabited

namespace Duty

/-- Whether a processor is given a slice. -/
def isSlice (cpu : Cpu) : Duty → Bool
  | slice other _ _ => other = cpu
  | endFrame .. => false

/-- The cycles that a processor executes. -/
def executed (cpu : Cpu) : Duty → Nat
  | slice other before after => if other = cpu then after - before else 0
  | endFrame .. => 0

end Duty

/-- Processors with a record of their duties. -/
structure Metered (P : Type) where
  processors : P
  duties : List Duty := []

instance [Processors P] : Processors (Metered P) where
  cycles p := Processors.cycles p.processors
  execute cpu target m :=
    let out := Processors.execute cpu target (m.1.processors, m.2)
    (⟨out.1, m.1.duties ++
      [.slice cpu (Processors.cycles m.1.processors cpu) (Processors.cycles out.1 cpu)]⟩, out.2)
  setIrq cpu level m :=
    let out := Processors.setIrq cpu level (m.1.processors, m.2)
    (⟨out.1, m.1.duties⟩, out.2)
  endFrame cpu cycles p :=
    ⟨Processors.endFrame cpu cycles p.processors,
      p.duties ++ [.endFrame cpu (Processors.cycles p.processors cpu) cycles]⟩
  reset cpu p := ⟨Processors.reset cpu p.processors, p.duties⟩

/-- **The record can be left out.** -/
theorem forgets_duties [Processors P] : Forgets (Metered.processors (P := P)) where
  cycles _ _ := rfl
  execute _ _ _ := rfl
  setIrq _ _ _ := rfl
  endFrame _ _ _ := rfl

/-- A pipeline whose processors begin a record. -/
def Pipeline.metered (p : Pipeline P R κ) : Pipeline (Metered P) R κ :=
  p.seen fun processors => ⟨processors, []⟩

namespace Pipeline

variable [Processors P] [Renderer R] {p s : Pipeline P R κ} {q : Pipeline (Metered P) R κ}

/-- **A pipeline with a record makes the same frame** as without. -/
theorem step_metered {r : FrameReport} (h : step (q.seen Metered.processors) = .ok r s) :
    ∃ q', step q = .ok r q' ∧ q'.seen Metered.processors = s :=
  Run.seenBy_ok ((step_seen forgets_duties q).symm.trans h)

/-- **And a pipeline that begins one plays the same frames,** with any writes in between. -/
theorem play_metered {writes : List Writes} {reports : List FrameReport}
    (h : play writes p = .ok reports s) :
    ∃ q, play writes p.metered = .ok reports q ∧ q.seen Metered.processors = s :=
  Run.seenBy_ok ((play_seen forgets_duties writes p.metered).symm.trans h)

end Pipeline

end Machine

end ConsolePipeline
