import ConsolePipeline.Proofs.Bench.Lockstep
import ConsolePipeline.Proofs.Bench.Quiet

namespace ConsolePipeline.Bench

open Handoff Handoff.Rendezvous Machine Mixing Playback Sound Stereo Video

/-!
# Twins on the bench

Two pipelines of quiet stand-ins may have different pasts: other clocks, other buffers, other slots
played before. If their processors, chips, registers, mixers and controls are the same, they make
the same frames and mix them to the same slots from then on. If their loops are the same as well,
they report the same, as long as the clocks do not wrap.

* `Before` — two machines before the same frame.
* `Twins` — two pipelines before the same frame; `Abreast` — with the same loops.
* `prepare_clock` — the time that a frame takes up to the drawing.
* `Twins.step` — one frame keeps both.
-/

/-- What a picture costs on the bench, without spikes. -/
def flatCost (renderUs : UInt32) : Option RenderCost :=
  some { base := renderUs }

/-- **Two machines before the same frame.** -/
structure Before (us : Cpu → UInt32) (m m' : StandIns × Board) : Prop where
  processors : SameCpus us m.1 m'.1
  registers : m'.2.registers = m.2.registers
  bus : Bus.Apart m.2.bus m'.2.bus

theorem Before.beginFrame {us : Cpu → UInt32} {m m' : StandIns × Board} (h : Before us m m') :
    Again us (m.1, m.2.mapBus (·.beginFrame)) (m'.1, m'.2.mapBus (·.beginFrame)) :=
  ⟨h.processors, h.registers, h.bus.beginFrame⟩

/-! ### One frame on the emulation side -/

section Emulation

variable {us : Cpu → UInt32} {e e' : Emulation StandIns TestCard} {d d' : Draft}

/-- **The time that a frame takes up to the drawing** is the same on both sides, and the same is
    measured unless a clock wraps. -/
theorem prepare_clock (h : Emulation.Alike (Before us) e e') :
    ∃ k ≤ e.prepare.1.mode.linesPerFrame * lineUs us,
      Later k e.board.now e.prepare.2.board.now ∧ Later k e'.board.now e'.prepare.2.board.now ∧
      (Room k e.board.now → Room k e'.board.now → e'.prepare.1.times = e.prepare.1.times) := by
  have hregisters : e'.board.registers = e.board.registers := h.machine.registers
  have hstart : Sweep.Alike (Again us)
      { machine := (e.processors, e.board.mapBus (·.beginFrame)), hint := e.loop.hint }
      { machine := (e'.processors, e'.board.mapBus (·.beginFrame)), hint := e'.loop.hint } :=
    ⟨h.machine.beginFrame, h.loop.hint, rfl, rfl⟩
  obtain ⟨k, hk, hlater, hlater', hmeasured⟩ := Sweep.lines_clock hstart
    (Mode.sample e.board.registers) e.board.registers.lineReload.toNat
    (Mode.sample e.board.registers).linesPerFrame 0
  obtain ⟨htimes, hnow⟩ := e.prepare_measured
  obtain ⟨htimes', hnow'⟩ := e'.prepare_measured
  rw [Emulation.swept] at htimes hnow
  rw [Emulation.swept, hregisters] at htimes' hnow'
  refine ⟨k, hk, hnow ▸ hlater, hnow' ▸ hlater', fun hroom hroom' => ?_⟩
  obtain ⟨hm68k, hz80⟩ := hmeasured hroom hroom' rfl rfl
  rw [htimes, htimes', hm68k, hz80]

theorem pictureUs_flat {renderUs : UInt32} {t : TestCard} (h : Steady (flatCost renderUs) t) :
    pictureUs t = renderUs := by
  rw [pictureUs, TestCard.begin, h.cost]
  rfl

/-- **Two emulation sides with the same loops,** the second one's clock being no earlier. -/
structure Abreast (e e' : Emulation StandIns TestCard) : Prop where
  loop : e'.loop = e.loop
  now : e.board.now.toNat ≤ e'.board.now.toNat

/-- What a drawing costs. -/
def drawingUs (d : Draft) (renderUs : UInt32) : Nat :=
  if d.decision.render then renderUs.toNat else 0

theorem drawnAt_later {renderUs : UInt32} (d : Draft) (h : Steady (flatCost renderUs) e.renderer) :
    Later (drawingUs d renderUs) e.board.now (drawnAt d e) := by
  rw [drawnAt, drawingUs, pictureUs_flat h]
  split
  · rw [Later, UInt64.ofNat_uInt32ToNat]
    rfl
  · exact later_refl _

theorem loop_ext {l l' : Loop} (h : l.Alike l') (hskip : l'.skip = l.skip)
    (hprofiler : l'.profiler = l.profiler) : l' = l := by
  obtain ⟨skip, profiler, flushCycle, frame, lastMode, hint⟩ := l
  obtain ⟨skip', profiler', flushCycle', frame', lastMode', hint'⟩ := l'
  obtain rfl : skip' = skip := hskip
  obtain rfl : profiler' = profiler := hprofiler
  obtain rfl : flushCycle' = flushCycle := h.flushCycle
  obtain rfl : frame' = frame := h.frame
  obtain rfl : lastMode' = lastMode := h.lastMode
  obtain rfl : hint' = hint := h.hint
  rfl

/-- No mode has more lines than those of a PAL console. -/
theorem lines_le (r : Registers) : (Mode.sample r).linesPerFrame ≤ 313 := by
  show r.region.linesPerFrame ≤ 313
  cases r.region <;> decide

/-- A frame takes far less time than a clock goes round in. -/
theorem frame_time_lt (r : Registers) (renderUs : UInt32) {k : Nat} (d : Draft)
    (hk : k ≤ (Mode.sample r).linesPerFrame * lineUs us) :
    k + drawingUs d renderUs < 2 ^ 64 := by
  have hlines := lines_le r
  have hm68k := (us .m68k).toNat_lt
  have hz80 := (us .z80).toNat_lt
  have hrender : drawingUs d renderUs < 2 ^ 32 := by
    rw [drawingUs]
    split
    · exact renderUs.toNat_lt
    · decide
  have hline : lineUs us ≤ 2 ^ 33 := by
    rw [lineUs]
    omega
  have hframe : (Mode.sample r).linesPerFrame * lineUs us ≤ 313 * 2 ^ 33 :=
    Nat.mul_le_mul hlines hline
  omega

/-- Two sides before the same frame prepare it alike and draw it alike. -/
theorem made_alike (h : Emulation.Alike (Before us) e e') (t t' : TestCard) :
    e.prepare.1.Alike e'.prepare.1 ∧
      (drawnDraft e.prepare.1 e.prepare.2).Alike (drawnDraft e'.prepare.1 e'.prepare.2) ∧
      Emulation.Alike (Again us) (drawn e.prepare.1 t e.prepare.2)
        (drawn e'.prepare.1 t' e'.prepare.2) := by
  obtain ⟨hdraft, hprepared⟩ := h.prepare (indistinct_again us) (fun h => h.registers)
    Before.beginFrame
  exact ⟨hdraft, drawn_alike (indistinct_again us)
    (fun h _ _ => ⟨h.processors, h.registers, h.bus⟩) hdraft hprepared t t'⟩

/-- **Two frames that were made in the same time,** by sides that know the same then. -/
structure InTime (d d' : Draft) (e e' : Emulation StandIns TestCard) : Prop where
  decision : d'.decision = d.decision
  times : d'.times = d.times
  workUs : d'.workUs = d.workUs
  frameUs : elapsedUs d'.start e'.board.now = elapsedUs d.start e.board.now
  abreast : Abreast e e'

/-- **Two emulation sides with the same loops take the same time for a frame,** unless the second
    one's clock is seen to go back. -/
theorem inTime_drawn {renderUs : UInt32} (t t' : TestCard) (h : Emulation.Alike (Before us) e e')
    (hsteady : Steady (flatCost renderUs) e.renderer)
    (hsteady' : Steady (flatCost renderUs) e'.renderer) (habreast : Abreast e e')
    (hback : e'.board.now ≤ drawnAt e'.prepare.1 e'.prepare.2) :
    InTime (drawnDraft e.prepare.1 e.prepare.2) (drawnDraft e'.prepare.1 e'.prepare.2)
      (drawn e.prepare.1 t e.prepare.2) (drawn e'.prepare.1 t' e'.prepare.2) := by
  obtain ⟨hdraft, -, hdrawn⟩ := made_alike h t t'
  obtain ⟨k, hk, hlines, hlines', hmeasured⟩ := prepare_clock h
  -- The skip controllers decide the same.
  obtain ⟨hdecided, hprofiler⟩ := e.prepare_decided
  obtain ⟨hdecided', hprofiler'⟩ := e'.prepare_decided
  rw [habreast.loop, hdraft.modeChanged, ← hdecided] at hdecided'
  obtain ⟨hdecision, hskip⟩ := Prod.mk.inj hdecided'
  rw [habreast.loop, ← hprofiler] at hprofiler'
  -- Neither clock wraps: the second is not seen to go back, and the first is behind it.
  have hdrawing := drawnAt_later e.prepare.1 hsteady.prepare
  have hdrawing' := drawnAt_later e'.prepare.1 hsteady'.prepare
  rw [drawingUs, hdecision, ← drawingUs] at hdrawing'
  have hframe := hlines.trans hdrawing
  have hframe' := hlines'.trans hdrawing'
  have hroom' := hframe'.room (frame_time_lt e.board.registers renderUs e.prepare.1 hk) hback
  have hnow := habreast.now
  have hroom : Room (k + drawingUs e.prepare.1 renderUs) e.board.now := by
    rw [Room] at hroom' ⊢
    omega
  have hrender : elapsedUs e'.prepare.2.board.now (drawnAt e'.prepare.1 e'.prepare.2) =
      elapsedUs e.prepare.2.board.now (drawnAt e.prepare.1 e.prepare.2) := by
    rw [hdrawing.elapsedUs (hroom.right hlines), hdrawing'.elapsedUs (hroom'.right hlines')]
  have hwork : elapsedUs e'.board.now (drawnAt e'.prepare.1 e'.prepare.2) =
      elapsedUs e.board.now (drawnAt e.prepare.1 e.prepare.2) := by
    rw [hframe.elapsedUs hroom, hframe'.elapsedUs hroom']
  refine ⟨hdecision, ?_, hwork, hwork, loop_ext hdrawn.loop ?_ hprofiler', ?_⟩
  · simp only [drawnDraft, hmeasured hroom.left hroom'.left, hrender]
  · simp only [drawn, hdecision, hskip, hrender]
  · show (drawnAt _ _).toNat ≤ (drawnAt _ _).toNat
    rw [hframe.toNat hroom, hframe'.toNat hroom']
    omega

/-- Two frames made in the same time are reported the same, and leave the same loops. -/
theorem InTime.report (h : InTime d d' e e') (hdraft : d.Alike d') :
    Emulation.reportOn d' e'.board.now e'.loop = Emulation.reportOn d e.board.now e.loop ∧
      Emulation.loopAfter d' e'.board.now e'.loop = Emulation.loopAfter d e.board.now e.loop := by
  simp only [Emulation.reportOn, Emulation.loopAfter, Emulation.fullTimes, h.abreast.loop,
    h.decision, h.times, h.workUs, h.frameUs, hdraft.mode, hdraft.modeChanged, hdraft.samples,
    hdraft.lineInterrupts, hdraft.vblankRaised, and_self]

/-- What has been made on both sides shows the same. -/
theorem heldFrame_same (h : Emulation.Alike (Again us) e e') : e.heldFrame.Same e'.heldFrame where
  frame := h.loop.frame
  buffers := ⟨_, _, _, _, rfl, rfl, rfl, rfl, h.machine.bus.fmOut, h.machine.bus.psgOut,
    h.machine.bus.fmFills.sampleCount, h.machine.bus.psgFills.sampleCount⟩
  fmCount := congrArg Chip.sampleCount h.machine.bus.fm
  psgCount := congrArg Chip.sampleCount h.machine.bus.psg

theorem SameCpus.endFrame {p p' : StandIns} (h : SameCpus us p p') (cpu : Cpu) (cycles : Nat) :
    SameCpus us (Processors.endFrame cpu cycles p) (Processors.endFrame cpu cycles p') :=
  h.map cpu (· - cycles)

/-- **The next frame finds both sides alike,** whatever buffers they go on with. -/
theorem closed_before {x x' : Exchange} (hdraft : d.Alike d') (h : Emulation.Alike (Again us) e e')
    (hfresh : (Emulation.nextBuffers e.sender x).Roomy)
    (hfresh' : (Emulation.nextBuffers e'.sender x').Roomy) :
    Emulation.Alike (Before us) (e.closed d x) (e'.closed d' x') where
  machine :=
    { processors := by
        show SameCpus us (Emulation.rebased d e.processors) (Emulation.rebased d' e'.processors)
        rw [Emulation.rebased, Emulation.rebased, hdraft.mode]
        exact (h.machine.processors.endFrame .m68k _).endFrame .z80 _
      registers := h.machine.registers
      bus := h.machine.bus.apart hfresh hfresh' }
  loop := ⟨h.loop.flushCycle, congrArg (· + 1) h.loop.frame, h.loop.lastMode, h.loop.hint⟩

end Emulation

/-! ### One frame -/

section Pipelines

variable {κ : Type} {us : Cpu → UInt32} {renderUs : UInt32} {len : Nat}
  {heard : List (Array Word) → List Word} {L : Lockstep Player.rig len heard}
  {frames frames' : List (Array Word)} {p p' : Pipeline StandIns TestCard κ}

/-- **Two pipelines before the same frame.** -/
structure Twins (us : Cpu → UInt32) (renderUs : UInt32) (p p' : Pipeline StandIns TestCard κ) :
    Prop where
  emulation : Emulation.Alike (Before us) p.emulation p'.emulation
  mixer : p'.audio.desk.mixer = p.audio.desk.mixer
  controls : p'.audio.controls = p.audio.controls
  steady : Steady (flatCost renderUs) p.emulation.renderer
  steady' : Steady (flatCost renderUs) p'.emulation.renderer
  roomy : (Emulation.nextBuffers p.emulation.sender p.exchange).Roomy
  roomy' : (Emulation.nextBuffers p'.emulation.sender p'.exchange).Roomy

/-- What is seen of a frame from outside: the report, what was published, and the words mixed. -/
structure Outcome where
  report : FrameReport
  published : Nat × (Int × Int) × Option (Array Int16) × Option (Array Int16)
  slot : Array Word
  deriving DecidableEq, Repr

/-- One frame more, watched. -/
def watch : Run (Pipeline StandIns TestCard κ) Outcome := do
  let before ← get
  let report ← Pipeline.step
  let a := (← get).exchange.returned.getD default
  return ⟨report, a.shown, nextSlot before a⟩

/-- Two outcomes that differ in times and decision at most. -/
structure SameOutcome (o o' : Outcome) : Prop where
  report : SameReport o.report o'.report
  published : o'.published = o.published
  slot : o'.slot = o.slot

theorem watch_mixed {d : Draft} {e : Emulation StandIns TestCard}
    {s : Pipeline StandIns TestCard κ} (h : Mixed L frames p d e s) :
    watch p = .ok ⟨Emulation.reportOn d e.board.now e.loop, e.heldFrame.shown,
      nextSlot p e.heldFrame⟩ s := by
  rw [watch, Run.get_bind, Run.bind_ok h.step, Run.get_bind, h.exchange]
  rfl

/-- **One frame more keeps two pipelines twins.** The same frame is published and mixed to the same
    slot. If the loops are the same and the clock is not seen to go back, the outcome is the same
    altogether, and so are the loops after it. -/
theorem Twins.watch (h : Twins us renderUs p p') (hgoing : Going L frames p)
    (hgoing' : Going L frames' p') :
    ∃ o o' s s', watch p = .ok o s ∧ watch p' = .ok o' s' ∧ SameOutcome o o' ∧
      Twins us renderUs s s' ∧ Going L (frames ++ [o.slot]) s ∧ Going L (frames' ++ [o'.slot]) s' ∧
      (Abreast p.emulation p'.emulation → p'.emulation.board.now ≤ s'.emulation.board.now →
        o' = o ∧ Abreast s.emulation s'.emulation) := by
  obtain ⟨t, s, ht, hmixed⟩ := hgoing.mixed h.steady
  obtain ⟨t', s', ht', hmixed'⟩ := hgoing'.mixed h.steady'
  obtain ⟨-, hdrafts, hdrawn⟩ := made_alike h.emulation t t'
  have hsender := (Emulation.sameFrame_produce hmixed.made).sender
  have hsender' := (Emulation.sameFrame_produce hmixed'.made).sender
  -- The frames show the same, and mixers with the same settings and past mix them to the same.
  have hheld := heldFrame_same hdrawn
  have hslot : nextSlot p' (drawn p'.emulation.prepare.1 t' p'.emulation.prepare.2).heldFrame =
      nextSlot p (drawn p.emulation.prepare.1 t p.emulation.prepare.2).heldFrame := by
    rw [nextSlot, nextSlot, h.mixer, h.controls, hgoing.audio.frameLength,
      hgoing'.audio.frameLength, Mixer.mix_same hheld]
  refine ⟨_, _, s, s', watch_mixed hmixed, watch_mixed hmixed',
    ⟨sameReport hdrafts hdrawn.loop _ _, hheld.shown, hslot⟩, ?_, hmixed.going, hmixed'.going,
    fun habreast hback => ?_⟩
  · refine ⟨?_, ?_, hmixed'.controls.trans (h.controls.trans hmixed.controls.symm), ?_, ?_, ?_, ?_⟩
    · rw [hmixed.emulation, hmixed'.emulation]
      exact closed_before hdrafts hdrawn (hsender ▸ h.roomy) (hsender' ▸ h.roomy')
    · rw [hmixed.mixer, hmixed'.mixer, h.mixer, h.controls, hgoing.audio.frameLength,
        hgoing'.audio.frameLength, Mixer.mix_same hheld]
    · rw [hmixed.emulation]
      exact ht
    · rw [hmixed'.emulation]
      exact ht'
    · rw [hmixed.emulation, hmixed.exchange]
      exact hdrawn.machine.bus.roomy
    · rw [hmixed'.emulation, hmixed'.exchange]
      exact hdrawn.machine.bus.roomy'
  · rw [hmixed'.emulation] at hback
    have hintime := inTime_drawn t t' h.emulation h.steady h.steady' habreast hback
    obtain ⟨hreport, hloop⟩ := hintime.report hdrafts
    rw [hmixed.emulation, hmixed'.emulation, hreport, hheld.shown, hslot]
    exact ⟨rfl, hloop, hintime.abreast.now⟩

/-- **The time that a frame takes,** for the scanlines up to some time `t` and for the drawing from
    then on, and what is measured of the latter. -/
theorem Twins.clock (h : Twins us renderUs p p') {d : Draft} {e : Emulation StandIns TestCard}
    {s : Pipeline StandIns TestCard κ} (hmixed : Mixed L frames p' d e s) :
    ∃ t, ∃ k ≤ 313 * lineUs us, Later k p'.emulation.board.now t ∧
      Later (drawingUs d renderUs) t s.emulation.board.now ∧
      d.times.renderUs = elapsedUs t s.emulation.board.now := by
  obtain ⟨card, -, rfl, rfl⟩ := hmixed.drawn h.steady'
  obtain ⟨k, hk, -, hlater, -⟩ := prepare_clock h.emulation
  rw [hmixed.emulation]
  refine ⟨_, k, Nat.le_trans hk (Nat.mul_le_mul_right _ ?_), hlater,
    drawnAt_later p'.emulation.prepare.1 h.steady'.prepare, rfl⟩
  exact lines_le p.emulation.board.registers

end Pipelines

end ConsolePipeline.Bench
