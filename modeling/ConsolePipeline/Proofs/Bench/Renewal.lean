import ConsolePipeline.Proofs.Bench.Twins
import ConsolePipeline.Proofs.Machine.Restart

namespace ConsolePipeline

open FrameSkip Handoff Handoff.Rendezvous Machine Mixing Playback Sound Stereo Video

/-!
# What a reset brings back

Whatever a quiet pipeline has run through, a reset finds in it what it began with: the chips repeat
the same waveforms, the processors have the same costs, the policy and the mixer the same settings.

* `Loop.renewed`, `renewed_prepare`, `renewed_loopAfter` — no frame changes what a loop is renewed
  to.
* `Kept` — a machine that a reset takes back to power-on; `indistinct_kept` — frames keep it one.
* `Bench.Renewable` — the same of a pipeline; `Renewable.frame` — one frame keeps it.
* `Bench.reset_ok` — a reset between two frames ends; `twins_reset` — what it leaves is the twin of
  a new pipeline.
-/

/-! ### Chips -/

namespace Sound

theorem Waveform.reset_take (n : Nat) (w : Waveform) (b : SampleBuffer) :
    (w.take n b).1.reset = w.reset := by
  induction n generalizing w b with
  | zero => rfl
  | succ n ih =>
    rw [take]
    split
    · rfl
    · exact ih w.advance _

theorem Chip.reset_runTo (c : Chip) (target : Nat) (b : SampleBuffer) :
    (c.runTo target b).1.reset = c.reset := by
  cases c with
  | psg p => rfl
  | waveform w => exact congrArg waveform (Waveform.reset_take _ w b)

theorem Chip.reset_beginFrame (c : Chip) : c.beginFrame.reset = c.reset := by
  cases c <;> rfl

/-- Only a chip that repeats a waveform is reset to one. -/
theorem Chip.repeats_of_reset {c : Chip} {w : Waveform} (h : c.reset = .waveform w) :
    c.Repeats := by
  cases c with
  | psg p => cases h
  | waveform w => exact ⟨w, rfl⟩

theorem Chip.Repeats.capacity_runTo {c : Chip} (h : c.Repeats) (target : Nat) (b : SampleBuffer) :
    (c.runTo target b).2.capacity = b.capacity := by
  obtain ⟨w, rfl⟩ := h
  exact Waveform.capacity_take _ w b

/-- **A bus that a reset takes back** to two waveforms. -/
structure Bus.Renews (fm psg : Waveform) (bus : Bus) : Prop where
  fm : bus.fm.reset = .waveform fm
  psg : bus.psg.reset = .waveform psg
  roomy : bus.buffers.Roomy

theorem Bus.Renews.beginFrame {fm psg : Waveform} {bus : Bus} (h : Renews fm psg bus) :
    Renews fm psg bus.beginFrame :=
  ⟨(Chip.reset_beginFrame bus.fm).trans h.fm, (Chip.reset_beginFrame bus.psg).trans h.psg,
    h.roomy.fm, h.roomy.psg⟩

theorem Bus.Renews.flush {fm psg : Waveform} {bus : Bus} (h : Renews fm psg bus) (cycle : Nat) :
    Renews fm psg (bus.flush cycle) := by
  obtain ⟨fmChip, psgChip, fmOut, psgOut⟩ := bus
  have hfm : fmChip.reset = .waveform fm := h.fm
  have hpsg : psgChip.reset = .waveform psg := h.psg
  refine ⟨(Chip.reset_runTo _ _ _).trans hfm, (Chip.reset_runTo _ _ _).trans hpsg, ?_, ?_⟩
  · exact ((Chip.repeats_of_reset hfm).capacity_runTo _ _).trans h.roomy.fm
  · exact ((Chip.repeats_of_reset hpsg).capacity_runTo _ _).trans h.roomy.psg

end Sound

/-! ### Loops -/

namespace FrameSkip

theorem Policy.reset_decided (p : Policy) (frame : Nat) (render : Bool) (s : State) :
    (p.decided frame render s).1.reset = p.reset := by
  cases p with
  | pattern level => rfl
  | adaptive a => cases render <;> rfl

theorem Controller.reset_decide (c : Controller) (frame : Nat) (force : Bool) :
    (c.decide frame force).2.reset = c.reset := by
  rw [decide, reset, reset]
  exact congrArg (fun policy => Controller.mk policy {} c.maxConsecutive {})
    (Policy.reset_decided c.policy frame _ c.state)

end FrameSkip

theorem Profiler.reset_onFrame (p : Profiler) (t : PhaseTimes) (rendered : Bool) :
    (p.onFrame t rendered).2.reset = p.reset := by
  rw [onFrame]
  split
  · rfl
  · dsimp only
    split <;> rfl

namespace Machine

/-- A loop as a reset leaves it. -/
def Loop.renewed (l : Loop) : Loop :=
  { l with
    skip := l.skip.reset, profiler := l.profiler.reset, frame := 0, lastMode := none, hint := 0 }

namespace Emulation

variable {P R : Type}

section

variable [Processors P] [Renderer R]

theorem renewed_prepare (e : Emulation P R) : e.prepare.2.loop.renewed = e.loop.renewed := by
  obtain ⟨renderer, lastMode, notices, hentered⟩ := enterMode_eq (Mode.sample e.board.registers) e
  simp only [prepare, hentered]
  exact congrArg (fun skip => Loop.mk skip e.loop.profiler.reset e.loop.flushCycle 0 none 0)
    (Controller.reset_decide e.loop.skip e.loop.frame _)

theorem renewed_loopAfter (d : Draft) (now : Instant) (l : Loop) :
    (loopAfter d now l).renewed = l.renewed :=
  congrArg (fun profiler => Loop.mk l.skip.reset profiler l.flushCycle 0 none 0)
    (Profiler.reset_onFrame l.profiler _ _)

end

end Emulation

end Machine

namespace Bench

/-! ### Machines -/

/-- **What can be chosen about quiet stand-ins:** what they cost, how loud the test tones are, and
    whether vertical interrupts are acknowledged. -/
structure Plain where
  m68kUs : UInt32 := 20
  z80Us : UInt32 := 10
  renderUs : UInt32 := 4000
  fmAmplitude : Int16 := 6000
  psgAmplitude : Int16 := 3000
  acknowledgeVint : Bool := true
  deriving DecidableEq, Repr, Inhabited

namespace Plain

/-- What a slice of each processor costs. -/
def us (o : Plain) : Cpu → UInt32
  | .m68k => o.m68kUs
  | .z80 => o.z80Us

/-- The stand-ins, without a melody, scripts or spikes. -/
def options (o : Plain) : Options where
  m68kUs := o.m68kUs
  z80Us := o.z80Us
  render := { base := o.renderUs }
  fmAmplitude := o.fmAmplitude
  psgAmplitude := o.psgAmplitude
  acknowledgeVint := o.acknowledgeVint

end Plain

/-- **A machine that a reset takes back to power-on.** -/
structure Kept (o : Plain) (len : Nat) (m : StandIns × Board) : Prop where
  quiet : Quiet o.us m.1
  acknowledges : m.1.acknowledges = o.acknowledgeVint
  bus : m.2.bus.Renews (.triangle o.fmAmplitude len) (.triangle o.psgAmplitude len)

section Kept

variable {o : Plain} {len : Nat} {m : StandIns × Board}

theorem Kept.map (h : Kept o len m) (cpu : Cpu) (f : Nat → Nat) (now : Instant) (r : Registers) :
    Kept o len (m.1.map cpu fun q => { q with cycles := f q.cycles }, ⟨now, r, m.2.bus⟩) := by
  refine ⟨h.quiet.map cpu f, ?_, h.bus⟩
  cases cpu <;> exact h.acknowledges

theorem Kept.execute (h : Kept o len m) (cpu : Cpu) (target : Nat) :
    Kept o len (StandIns.execute cpu target m) := by
  obtain ⟨p, board⟩ := m
  rw [h.quiet.execute]
  exact h.map cpu _ _ _

theorem Kept.setIrq (h : Kept o len m) (cpu : Cpu) (level : Nat) :
    Kept o len (StandIns.setIrq cpu level m) := by
  obtain ⟨p, board⟩ := m
  rw [h.quiet.setIrq]
  refine ⟨h.quiet.counted _, h.acknowledges, ?_⟩
  dsimp only
  split <;> exact h.bus

/-- **Nothing in a frame takes this from a machine.** -/
theorem indistinct_kept (o : Plain) (len : Nat) :
    Indistinct (P := StandIns) fun m m' => m' = m ∧ Kept o len m where
  cycles h cpu := by rw [h.1]
  registers h := by rw [h.1]
  samples h := by rw [h.1]
  execute h cpu target := ⟨congrArg _ h.1, h.2.execute cpu target⟩
  setIrq h cpu level := ⟨congrArg _ h.1, h.2.setIrq cpu level⟩
  raiseVint h := ⟨by rw [h.1], h.2.quiet, h.2.acknowledges, h.2.bus⟩
  flush h cycle := ⟨by rw [h.1], h.2.quiet, h.2.acknowledges, h.2.bus.flush cycle⟩

end Kept

/-! ### Pipelines -/

section Pipelines

variable {κ : Type} {o : Plain} {c : Config} {len : Nat} {heard : List (Array Word) → List Word}
  {L : Lockstep Player.rig len heard} {frames : List (Array Word)} {d : Draft}
  {e : Emulation StandIns TestCard} {p s : Pipeline StandIns TestCard κ}

/-- **A pipeline that a reset takes back to the start.** -/
structure Renewable (o : Plain) (c : Config) (p : Pipeline StandIns TestCard κ) : Prop where
  machine : Kept o c.frameLength p.emulation.machine
  loop : p.emulation.loop.renewed = (Pipeline.emulationFor c (parts c o.options)).loop
  steady : Steady (flatCost o.renderUs) p.emulation.renderer
  roomy : (Emulation.nextBuffers p.emulation.sender p.exchange).Roomy
  mixer : p.audio.desk.mixer.config = c.mixer

theorem Renewable.write (h : Renewable o c p) (w : Writes) : Renewable o c (p.write w) :=
  ⟨⟨h.machine.quiet, h.machine.acknowledges, h.machine.bus⟩, h.loop, h.steady, h.roomy, h.mixer⟩

/-- The end of a frame takes nothing from a machine, if the next buffers have room. -/
theorem Kept.closed {e : Emulation StandIns TestCard} {d d' : Draft} {t : TestCard} {x : Exchange}
    (h : Kept o c.frameLength e.machine) (hroomy : (Emulation.nextBuffers e.sender x).Roomy) :
    Kept o c.frameLength ((drawn d t e).closed d' x).machine := by
  refine ⟨(h.quiet.map .m68k (· - _)).map .z80 (· - _), h.acknowledges, ?_⟩
  exact ⟨h.bus.fm, h.bus.psg, hroomy⟩

/-- No frame changes what its loop is renewed to. -/
theorem renewed_closed (e : Emulation StandIns TestCard) (t : TestCard) {x : Exchange} :
    ((drawn e.prepare.1 t e.prepare.2).closed (drawnDraft e.prepare.1 e.prepare.2) x).loop.renewed =
      e.loop.renewed := by
  refine (Emulation.renewed_loopAfter _ _ _).trans (Eq.trans ?_ e.renewed_prepare)
  show Loop.renewed { e.prepare.2.loop with skip := _ } = _
  split <;> rfl

/-- **One frame keeps a pipeline renewable.** -/
theorem Renewable.frame (h : Renewable o c p) (hmixed : Mixed L frames p d e s) :
    Renewable o c s := by
  have hsender := (Emulation.sameFrame_produce hmixed.made).sender
  obtain ⟨t, ht, rfl, rfl⟩ := hmixed.drawn h.steady
  -- A side is compared with itself: what is of interest is that its machine stays one to keep.
  have halike : Emulation.Alike
      (fun m m' => m' = m ∧ Kept o c.frameLength m) p.emulation p.emulation :=
    ⟨⟨rfl, h.machine⟩, rfl, rfl, rfl, rfl⟩
  obtain ⟨-, hprepared⟩ := halike.prepare (indistinct_kept o c.frameLength) (fun h => by rw [h.1])
    fun h => ⟨by rw [h.1], h.2.quiet, h.2.acknowledges, h.2.bus.beginFrame⟩
  have hkept := hprepared.machine.2
  refine ⟨?_, ?_, ?_, ?_, ?_⟩
  · rw [hmixed.emulation]
    exact hkept.closed (hsender ▸ h.roomy)
  · rw [hmixed.emulation]
    exact (renewed_closed _ t).trans h.loop
  · rw [hmixed.emulation]
    exact ht
  · rw [hmixed.emulation, hmixed.exchange]
    exact hkept.bus.roomy
  · rw [hmixed.mixer, Mixer.config_mix]
    exact h.mixer

/-- What a reset leaves of a pipeline whose frames are all back. -/
def resetTo (sender : Sender) (notices : Array Log.Entry) (p : Pipeline StandIns TestCard κ) :
    Pipeline StandIns TestCard κ where
  emulation := ({ p.emulation with sender } : Emulation StandIns TestCard).restart.collected
  audio := p.audio.collected.reset.collected
  notices := notices

/-- **A reset between two frames ends.** -/
theorem reset_ok (h : Rests p.emulation.sender p.exchange) :
    ∃ sender notices, Pipeline.reset p = .ok () (resetTo sender notices p) ∧
      sender.inFlight = false ∧
      Emulation.nextBuffers sender {} = Emulation.nextBuffers p.emulation.sender p.exchange := by
  obtain ⟨sender, notices, hreset, hfree, -, hbuffers⟩ := Pipeline.reset_ok h
  exact ⟨sender, notices, hreset, hfree, hbuffers⟩

variable {sender : Sender}

/-- What plays goes on after a reset. -/
theorem Going.reset (h : Going L frames p) (hfree : sender.inFlight = false)
    (notices : Array Log.Entry) : Going L frames (resetTo sender notices p) :=
  ⟨⟨h.audio.player, h.audio.frameLength, h.audio.pacing⟩, .first hfree, h.steady⟩

/-- A processor that is reset is as it was at power-on. -/
theorem Quiet.reset {p : StandIns} (h : Quiet o.us p) (c : Config) (cpu : Cpu) :
    (Processors.reset .z80 (Processors.reset .m68k p)).get cpu =
      (parts c o.options).processors.get cpu := by
  obtain ⟨cycles, hidle⟩ := h.idle cpu
  cases cpu with
  | m68k =>
    show { p.m68k with cycles := 0 } = _
    rw [show p.m68k = _ from hidle]
    rfl
  | z80 =>
    show { p.z80 with cycles := 0 } = _
    rw [show p.z80 = _ from hidle]
    rfl

end Pipelines

end Bench

end ConsolePipeline
