import ConsolePipeline.Proofs.Bench.Pace
import ConsolePipeline.Proofs.Machine.Counters

namespace ConsolePipeline

open Handoff Handoff.Rendezvous Mixing Playback Sound Stereo Video

/-!
# Cycles and time, frame after frame

A processor that comes too far in one frame has that much less to do in the next one, so nothing is
lost, however many frames there are and however long each of them is. The same goes for the time:
all that a frame takes is measured in one of its phases.

* `frameDuties`, `leftOver`, `ledger` — the duties of frames, and what is left over after them.
* `executed_ledger`, `settled_ledger` — the ledger is balanced.
* `prepare_standing` — a frame up to the drawing.
* `Charged` — times that are those of slices and picture, and nothing else.
* `OnPace` — a metered pipeline between two frames; `OnPace.frame`, `OnPace.play` — frames more.
* `Ready`, `Ready.sessions` — processors at the start, to which each reset takes them back.
* `Balanced` — duties in balance; `accounts_balanced` — any sessions, and then any frames.
-/

namespace Bench

open Machine

/-! ### The ledger -/

/-- **The duties of a frame:** its slices, and then its cycles are taken off. -/
def frameDuties (step cycles : Cpu → Nat) (lines : Nat) : List Duty :=
  slices step cycles lines ++
    [.endFrame .m68k (reaches step cycles lines .m68k) (lines * cyclesPerLine),
      .endFrame .z80 (reaches step cycles lines .z80) (lines * cyclesPerLine)]

/-- What is left over after a frame. -/
def leftOver (step cycles : Cpu → Nat) (lines : Nat) : Cpu → Nat :=
  fun cpu => reaches step cycles lines cpu - lines * cyclesPerLine

/-- **The duties of frames** of so many lines each. -/
def ledger (step : Cpu → Nat) : (cycles : Cpu → Nat) → (frames : List Nat) → List Duty
  | _, [] => []
  | cycles, lines :: rest =>
    frameDuties step cycles lines ++ ledger step (leftOver step cycles lines) rest

/-- What is left over after them. -/
def leftAfter (step cycles : Cpu → Nat) (frames : List Nat) : Cpu → Nat :=
  frames.foldl (leftOver step) cycles

section Ledger

variable {step cycles : Cpu → Nat} {frames : List Nat} {lines : Nat} {cpu : Cpu}

/-- **No frame takes off more than there is,** and what it leaves is less than a step. -/
theorem KeepPace.settled (h : KeepPace step cycles) (lines : Nat) (cpu : Cpu) :
    lines * cyclesPerLine ≤ reaches step cycles lines cpu ∧
      reaches step cycles lines cpu - lines * cyclesPerLine < step cpu := by
  have hle := le_reach (h.step_pos cpu) (cycles cpu) lines
  have hlt := reach_lt (h.step_pos cpu) (h.cycles_lt cpu) lines
  refine ⟨hle, ?_⟩
  rw [reaches]
  omega

/-- So the processors keep pace in the next one. -/
theorem KeepPace.leftOver (h : KeepPace step cycles) (lines : Nat) :
    KeepPace step (leftOver step cycles lines) :=
  ⟨h.step_le, fun cpu => (h.settled lines cpu).2⟩

theorem KeepPace.leftAfter (h : KeepPace step cycles) (frames : List Nat) :
    KeepPace step (leftAfter step cycles frames) := by
  induction frames generalizing cycles with
  | nil => exact h
  | cons lines rest ih => exact ih (h.leftOver lines)

/-- Each line of a frame has one slice of each processor. -/
theorem countP_slices (step cycles : Cpu → Nat) (lines : Nat) (cpu : Cpu) :
    (slices step cycles lines).countP (Duty.isSlice cpu) = lines := by
  induction lines with
  | zero => rfl
  | succ lines ih =>
    have hline : (lineDuties step cycles lines).countP (Duty.isSlice cpu) = 1 := by
      cases cpu <;> rfl
    rw [slices_succ, List.countP_append, ih, hline]

/-- **As many slices as there are lines.** -/
theorem countP_ledger (step cycles : Cpu → Nat) (frames : List Nat) (cpu : Cpu) :
    (ledger step cycles frames).countP (Duty.isSlice cpu) = frames.sum := by
  induction frames generalizing cycles with
  | nil => rfl
  | cons lines rest ih =>
    rw [ledger, frameDuties, List.countP_append, List.countP_append, countP_slices, ih,
      List.sum_cons]
    rfl

/-- The slices of a frame take a processor from where it was to where it comes. -/
theorem executed_slices (h : KeepPace step cycles) (lines : Nat) (cpu : Cpu) :
    cycles cpu + ((slices step cycles lines).map (Duty.executed cpu)).sum =
      reaches step cycles lines cpu := by
  induction lines with
  | zero => exact (reach_zero _ _).symm
  | succ lines ih =>
    have hline : ((lineDuties step cycles lines).map (Duty.executed cpu)).sum =
        reaches step cycles (lines + 1) cpu - reaches step cycles lines cpu := by
      cases cpu <;> simp [lineDuties, Duty.executed]
    have hforth : reaches step cycles lines cpu ≤ reaches step cycles (lines + 1) cpu := by
      have hshort := h.short lines cpu
      have hthere := le_reach (h.step_pos cpu) (cycles cpu) (lines + 1)
      exact Nat.le_of_lt (Nat.lt_of_lt_of_le hshort hthere)
    rw [slices_succ, List.map_append, List.sum_append, hline, ← Nat.add_assoc, ih]
    omega

/-- **Nothing drifts:** what has been executed is what the frames have taken off, and what is left
    over. -/
theorem executed_ledger (h : KeepPace step cycles) (frames : List Nat) (cpu : Cpu) :
    cycles cpu + ((ledger step cycles frames).map (Duty.executed cpu)).sum =
      frames.sum * cyclesPerLine + leftAfter step cycles frames cpu := by
  induction frames generalizing cycles with
  | nil => simp [ledger, leftAfter]
  | cons lines rest ih =>
    have hrest := ih (h.leftOver lines)
    have hframe := executed_slices h lines cpu
    have hsettled := (h.settled lines cpu).1
    have hends : ((frameDuties step cycles lines).map (Duty.executed cpu)).sum =
        ((slices step cycles lines).map (Duty.executed cpu)).sum := by
      simp [frameDuties, Duty.executed]
    have hleft : leftOver step cycles lines cpu =
        reaches step cycles lines cpu - lines * cyclesPerLine := rfl
    rw [ledger, List.map_append, List.sum_append, hends, List.sum_cons, Nat.add_mul]
    show _ = _ + leftAfter step (leftOver step cycles lines) rest cpu
    omega

/-- **Each frame is settled:** it takes off no more than there is, and leaves less than a step. -/
theorem settled_ledger (h : KeepPace step cycles) {came frame : Nat}
    (hmem : .endFrame cpu came frame ∈ ledger step cycles frames) :
    frame ≤ came ∧ came - frame < step cpu := by
  induction frames generalizing cycles with
  | nil => cases hmem
  | cons lines rest ih =>
    rw [ledger, frameDuties, List.mem_append, List.mem_append] at hmem
    rcases hmem with (hslice | hend) | hrest
    · -- A slice takes nothing off.
      obtain ⟨line, -, hline⟩ := List.mem_flatMap.mp hslice
      simp [lineDuties] at hline
    · simp only [List.mem_cons, Duty.endFrame.injEq, List.not_mem_nil, or_false] at hend
      rcases hend with ⟨rfl, rfl, rfl⟩ | ⟨rfl, rfl, rfl⟩ <;> exact h.settled lines _
    · exact ih (h.leftOver lines) hrest

end Ledger

/-! ### A frame -/

section Frame

variable {step : Cpu → Nat} {us : Cpu → UInt32} {cycles : Cpu → Nat} {duties : List Duty}
  {e : Emulation (Metered StandIns) TestCard}

/-- **A frame up to the drawing:** each of its lines took a slice of each processor. -/
theorem prepare_standing (h : Standing step us cycles duties e.board.now e.machine)
    (hpace : KeepPace step cycles) :
    let lines := e.prepare.1.mode.linesPerFrame
    ∃ now, Later (lines * lineUs us) e.board.now now ∧
      Standing step us (reaches step cycles lines) (duties ++ slices step cycles lines) now
        e.prepare.2.machine ∧
      (Room (lines * lineUs us) e.board.now → e.prepare.1.times =
        { m68kUs := UInt32.ofNat (lines * (us .m68k).toNat)
          z80Us := UInt32.ofNat (lines * (us .z80).toNat) }) := by
  intro lines
  have hbegun : Standing step us cycles duties e.board.now
      (e.processors, e.board.mapBus (·.beginFrame)) := ⟨h.paced, h.duties, rfl⟩
  -- Each line that is emulated lets both processors take a slice.
  have hswept : Sweep.Along step us cycles duties e.board.now (0 + lines) e.swept :=
    (Sweep.along_begin hbegun e.loop.hint).keeps_lines hpace _ _ lines
  rw [Nat.zero_add] at hswept
  -- What follows the lines up to the drawing takes no time and runs no processor.
  obtain ⟨htimes, hnow⟩ := e.prepare_measured
  have hprocessors : e.prepare.2.processors = e.swept.machine.1 := by
    obtain ⟨renderer, lastMode, notices, hentered⟩ :=
      Emulation.enterMode_eq (Mode.sample e.board.registers) e
    simp only [Emulation.prepare, hentered]
    rfl
  obtain ⟨now, hlater, hstanding⟩ := hswept.standing
  refine ⟨now, hlater, ⟨?_, ?_, hnow.trans hstanding.now⟩, fun hroom => ?_⟩
  · show Paced step us _ e.prepare.2.processors.processors
    rw [hprocessors]
    exact hstanding.paced
  · show e.prepare.2.processors.duties = _
    rw [hprocessors]
    exact hstanding.duties
  · obtain ⟨hm68k, hz80⟩ := hswept.measured hroom
    rw [htimes, hm68k, hz80]

/-- **At the end of a frame,** its cycles are taken off both processors. -/
theorem Standing.rebased {now : Instant} {p : Metered StandIns} {board : Board} (d : Draft)
    (h : Standing step us cycles duties now (p, board)) :
    Standing step us (fun cpu => cycles cpu - d.mode.linesPerFrame * cyclesPerLine)
      (duties ++
        [.endFrame .m68k (cycles .m68k) (d.mode.linesPerFrame * cyclesPerLine),
          .endFrame .z80 (cycles .z80) (d.mode.linesPerFrame * cyclesPerLine)])
      now (Emulation.rebased d p, board) := by
  have hfirst := h.paced.endFrame .m68k (d.mode.linesPerFrame * cyclesPerLine)
  have hsecond := hfirst.endFrame .z80 (d.mode.linesPerFrame * cyclesPerLine)
  have hboth := update_both cycles fun cpu => cycles cpu - d.mode.linesPerFrame * cyclesPerLine
  refine ⟨?_, ?_, h.now⟩
  · rw [← hboth]
    exact hsecond
  · show (p.duties ++ [.endFrame .m68k (Processors.cycles p.processors .m68k) _]) ++
      [.endFrame .z80 (Processors.cycles (Processors.endFrame .m68k _ p.processors) .z80) _] = _
    rw [h.duties, h.paced.cycles_eq, hfirst.cycles_eq, List.append_assoc]
    rfl

/-- A renderer that is told of a new mode has its next picture at the same cost. -/
theorem pictureUs_prepare (e : Emulation (Metered StandIns) TestCard) :
    pictureUs e.prepare.2.renderer = pictureUs e.renderer := by
  have hentered : pictureUs (Emulation.enterMode (Mode.sample e.board.registers) e).2.renderer =
      pictureUs e.renderer := by
    simp only [Emulation.enterMode]
    split
    · rfl
    · split <;> rfl
  exact hentered

/-- What the picture of a frame costs, if one is drawn. -/
def drawnUs (decision : FrameSkip.Decision) (t : TestCard) : Nat :=
  if decision.render then (pictureUs t).toNat else 0

theorem later_drawnAt (d : Draft) (e : Emulation (Metered StandIns) TestCard) :
    Later (drawnUs d.decision e.renderer) e.board.now (drawnAt d e) := by
  rw [drawnUs, drawnAt]
  split
  · exact later_after _ _
  · exact later_refl _

/-- **Times that are those of slices and picture,** and nothing else. -/
structure Charged (us : Cpu → UInt32) (lines drawnUs : Nat) (t : PhaseTimes) : Prop where
  m68kUs : t.m68kUs.toNat = lines * (us .m68k).toNat
  z80Us : t.z80Us.toNat = lines * (us .z80).toNat
  soundUs : t.soundUs = 0
  renderUs : t.renderUs.toNat = drawnUs
  audioWaitUs : t.audioWaitUs = 0
  /-- The phases make up the frame. -/
  frameUs : t.m68kUs.toNat + t.z80Us.toNat + t.soundUs.toNat + t.renderUs.toNat +
    t.audioWaitUs.toNat = t.frameUs.toNat

/-- What has passed is measured as it is, if 32 bits hold it. -/
theorem elapsedUs_of_later {a b : Instant} {k : Nat} (h : Later k a b) (hroom : Room k a)
    (hfits : k < 2 ^ 32) : (elapsedUs a b).toNat = k := by
  have hmin : min k 4294967295 = k := Nat.min_eq_left (Nat.le_of_lt_succ hfits)
  rw [h.elapsedUs hroom, hmin, UInt32.toNat_ofNat_of_lt' hfits]

/-- **All that a frame takes is measured in one of its phases.** -/
theorem charged_drawn {now : Instant} (h : Standing step us cycles duties e.board.now e.machine)
    (hpace : KeepPace step cycles) :
    let d := e.prepare.1
    let lines := d.mode.linesPerFrame
    let costUs := lines * lineUs us + drawnUs d.decision e.renderer
    drawnAt d e.prepare.2 = now →
      Later costUs e.board.now now ∧
        (costUs < 2 ^ 32 → Room costUs e.board.now →
          Charged us lines (drawnUs d.decision e.renderer)
            (Emulation.fullTimes (drawnDraft d e.prepare.2) now)) := by
  rintro d lines costUs rfl
  obtain ⟨swept, hlines, hstanding, htimes⟩ := prepare_standing h hpace
  have hdrawn := later_drawnAt d e.prepare.2
  have hswept : e.prepare.2.board.now = swept := hstanding.now
  -- Nothing up to the drawing changes what a picture costs.
  have hpicture : drawnUs d.decision e.prepare.2.renderer = drawnUs d.decision e.renderer := by
    rw [drawnUs, drawnUs, pictureUs_prepare]
  rw [hpicture, hswept] at hdrawn
  have hframe : Later costUs e.board.now (drawnAt d e.prepare.2) := hlines.trans hdrawn
  refine ⟨hframe, fun hfits hroom => ?_⟩
  have htimes : d.times = _ := htimes hroom.left
  -- Nothing wraps around: the parts are no more than the whole, and that fits.
  have hsplit : lines * lineUs us = lines * (us .m68k).toNat + lines * (us .z80).toNat :=
    Nat.mul_add _ _ _
  have hcost : costUs = lines * lineUs us + drawnUs d.decision e.renderer := rfl
  have hm68k : (UInt32.ofNat (lines * (us .m68k).toNat)).toNat = lines * (us .m68k).toNat :=
    UInt32.toNat_ofNat_of_lt' (by simp only [UInt32.size]; omega)
  have hz80 : (UInt32.ofNat (lines * (us .z80).toNat)).toNat = lines * (us .z80).toNat :=
    UInt32.toNat_ofNat_of_lt' (by simp only [UInt32.size]; omega)
  have hrender := elapsedUs_of_later hdrawn (hroom.right hlines) (by omega)
  rw [← hswept] at hrender
  have hwhole := elapsedUs_of_later hframe hroom hfits
  have hm68kUs : d.times.m68kUs.toNat = _ := (congrArg (·.m68kUs.toNat) htimes).trans hm68k
  have hz80Us : d.times.z80Us.toNat = _ := (congrArg (·.z80Us.toNat) htimes).trans hz80
  have hsoundUs : d.times.soundUs = 0 := congrArg (·.soundUs) htimes
  refine ⟨hm68kUs, hz80Us, hsoundUs, hrender, rfl, ?_⟩
  show d.times.m68kUs.toNat + d.times.z80Us.toNat + d.times.soundUs.toNat +
    (elapsedUs e.prepare.2.board.now (drawnAt d e.prepare.2)).toNat + 0 =
      (elapsedUs e.board.now (drawnAt d e.prepare.2)).toNat
  rw [hm68kUs, hz80Us, hsoundUs, hrender, hwhole, hcost, hsplit]
  rfl

end Frame

/-! ### Pipelines -/

section Pipelines

variable {κ : Type} {step : Cpu → Nat} {us : Cpu → UInt32} {cycles : Cpu → Nat}
  {duties : List Duty}

/-- **A metered pipeline between two frames,** with a renderer that is not set to fail. -/
structure OnPace (step : Cpu → Nat) (us : Cpu → UInt32) (cycles : Cpu → Nat)
    (duties : List Duty) (p : Pipeline (Metered StandIns) TestCard κ) : Prop where
  rests : Rests p.emulation.sender p.exchange
  steady : ∃ cost, Steady cost p.emulation.renderer
  standing : Standing step us cycles duties p.emulation.board.now p.emulation.machine

/-- How many lines each of some frames had. -/
def frameLines (reports : List FrameReport) : List Nat :=
  reports.map (·.mode.linesPerFrame)

namespace OnPace

variable {p s : Pipeline (Metered StandIns) TestCard κ} {r : FrameReport}

/-- A write moves no processor. -/
theorem write (h : OnPace step us cycles duties p) (w : Writes) :
    OnPace step us cycles duties (p.write w) :=
  ⟨h.rests, h.steady, ⟨h.standing.paced, h.standing.duties, rfl⟩⟩

/-- **One frame more.** -/
theorem frame (h : OnPace step us cycles duties p) (hpace : KeepPace step cycles)
    (hstep : Pipeline.step p = .ok r s) :
    let lines := r.mode.linesPerFrame
    let pictureUs := drawnUs r.decision p.emulation.renderer
    let costUs := lines * lineUs us + pictureUs
    lines = p.emulation.board.registers.region.linesPerFrame ∧
      OnPace step us (leftOver step cycles lines) (duties ++ frameDuties step cycles lines) s ∧
      Later costUs p.emulation.board.now s.emulation.board.now ∧
      (costUs < 2 ^ 32 → Room costUs p.emulation.board.now →
        Charged us lines pictureUs r.times) := by
  obtain ⟨cost, hsteady⟩ := h.steady
  obtain ⟨t, ht, hmade⟩ := produce_ok p.emulation hsteady
  obtain ⟨d, e, c, hmade', hmixed, hemulation, hexchange, -⟩ := Pipeline.step_closed h.rests hstep
  -- The frame that was emulated is the one that was handed over.
  obtain ⟨rfl, rfl⟩ := EStateM.Result.ok.inj (hmade'.symm.trans hmade)
  have hsender := (Emulation.sameFrame_produce hmade).sender
  obtain ⟨notices, hrun⟩ := Pipeline.step_ok hmade (hsender ▸ h.rests) hmixed
  obtain ⟨rfl, -⟩ := EStateM.Result.ok.inj (hstep.symm.trans hrun)
  -- Its time passes up to the drawing and in it; mixing takes none.
  obtain ⟨now, -, hstanding, -⟩ := prepare_standing h.standing hpace
  obtain ⟨hlater, hcharged⟩ := charged_drawn h.standing hpace rfl
  have hnow : s.emulation.board.now = drawnAt p.emulation.prepare.1 p.emulation.prepare.2 := by
    rw [hemulation]
    rfl
  rw [hnow]
  refine ⟨rfl, ⟨?_, ⟨cost, ?_⟩, ?_⟩, hlater, hcharged⟩
  · rw [hemulation, hexchange]
    exact .back rfl _
  · rw [hemulation]
    exact ht
  · have hrebased := hstanding.rebased p.emulation.prepare.1
    rw [List.append_assoc] at hrebased
    rw [hemulation]
    exact ⟨hrebased.paced, hrebased.duties, rfl⟩

/-- **And any frames,** with any writes in between. -/
theorem play (h : OnPace step us cycles duties p) (hpace : KeepPace step cycles)
    {writes : List Writes} {reports : List FrameReport}
    (hplay : Pipeline.play writes p = .ok reports s) :
    OnPace step us (leftAfter step cycles (frameLines reports))
      (duties ++ ledger step cycles (frameLines reports)) s := by
  induction writes generalizing p cycles duties reports with
  | nil =>
    cases hplay
    refine ⟨h.rests, h.steady, h.standing.paced, ?_, h.standing.now⟩
    exact h.standing.duties.trans (List.append_nil _).symm
  | cons w rest ih =>
    obtain ⟨_, p₁, hwrite, hplay⟩ := Run.bind_inv hplay
    cases hwrite
    obtain ⟨r, p₂, hstep, hplay⟩ := Run.bind_inv hplay
    obtain ⟨later, p₃, hrest, hdone⟩ := Run.bind_inv hplay
    cases hdone
    obtain ⟨-, hnext, -⟩ := (h.write w).frame hpace hstep
    have hall := ih hnext (hpace.leftOver r.mode.linesPerFrame) hrest
    rw [List.append_assoc] at hall
    exact hall

end OnPace

end Pipelines

/-! ### Sessions -/

section

variable {κ : Type} {step : Cpu → Nat} {us : Cpu → UInt32}
  {p s b : Pipeline StandIns TestCard κ}

/-- **A pipeline before the first frame of a session,** with its processors at the start. -/
def Ready (step : Cpu → Nat) (us : Cpu → UInt32) (p : Pipeline StandIns TestCard κ) : Prop :=
  OnPace step us (fun _ => 0) [] p.metered

/-- A reset takes the processors back to the start. -/
theorem OnPace.ready {q : Pipeline (Metered StandIns) TestCard κ} {cycles : Cpu → Nat}
    {duties : List Duty} (h : OnPace step us cycles duties q)
    (hreset : Pipeline.reset (q.seen Metered.processors) = .ok () b) : Ready step us b := by
  obtain ⟨sender, notices, hrun, hfree, -⟩ :=
    Pipeline.reset_ok (p := q.seen Metered.processors) h.rests
  obtain ⟨-, rfl⟩ := EStateM.Result.ok.inj (hreset.symm.trans hrun)
  have hpaced := (h.standing.paced.reset .m68k).reset .z80
  rw [update_both cycles fun _ => 0] at hpaced
  exact ⟨.first hfree, h.steady, hpaced, rfl, rfl⟩

/-- Sessions end with the processors at the start. -/
theorem Ready.sessions (hstep : ∀ cpu, 0 < step cpu ∧ step cpu ≤ cyclesPerLine)
    (h : Ready step us p) {earlier : List (List Writes)}
    (hearlier : Pipeline.sessions earlier p = .ok () b) : Ready step us b := by
  have hpace : KeepPace step fun _ => 0 := ⟨fun cpu => (hstep cpu).2, fun cpu => (hstep cpu).1⟩
  induction earlier generalizing p with
  | nil =>
    cases hearlier
    exact h
  | cons writes rest ih =>
    obtain ⟨reports, s, hplay, hearlier⟩ := Run.bind_inv hearlier
    obtain ⟨_, s₁, hreset, hrest⟩ := Run.bind_inv hearlier
    obtain ⟨q, hmetered, rfl⟩ := Pipeline.play_metered hplay
    exact ih ((OnPace.play h hpace hmetered).ready hreset) hrest

/-- **Duties in balance** with frames of so many lines, and with how far the processors have come
    since. -/
structure Balanced (step : Cpu → Nat) (frames : List Nat) (duties : List Duty)
    (cycles : Cpu → Nat) : Prop where
  /-- Each line is a slice of each processor, and each frame is taken off at its end. -/
  ledger : duties = ledger step (fun _ => 0) frames
  slices : ∀ cpu, duties.countP (Duty.isSlice cpu) = frames.sum
  /-- No frame takes off more than there is, and what it leaves is less than a step. -/
  settled : ∀ cpu came frame, .endFrame cpu came frame ∈ duties →
    frame ≤ came ∧ came - frame < step cpu
  /-- Nothing drifts. -/
  executed : ∀ cpu, (duties.map (Duty.executed cpu)).sum =
    frames.sum * cyclesPerLine + cycles cpu
  left : ∀ cpu, cycles cpu < step cpu

/-- A ledger is in balance. -/
theorem balanced_ledger (hpace : KeepPace step fun _ => 0) (frames : List Nat) :
    Balanced step frames (ledger step (fun _ => 0) frames)
      (leftAfter step (fun _ => 0) frames) where
  ledger := rfl
  slices := countP_ledger step _ frames
  settled _ _ _ := settled_ledger hpace
  executed cpu := by
    have hexecuted := executed_ledger hpace frames cpu
    rwa [Nat.zero_add] at hexecuted
  left := (hpace.leftAfter frames).cycles_lt

/-- What slices of the stand-ins cost. -/
def Options.sliceUs (o : Options) : Cpu → UInt32
  | .m68k => o.m68kUs
  | .z80 => o.z80Us

/-- Stand-ins without scripts, idle or with a melody, are at the start at first. -/
theorem paced_parts (c : Config) {o : Options} (hrecording : o.recording = none)
    (hm68k : o.m68kScript = none) (hz80 : o.z80Script = none) :
    Paced stepCycles o.sliceUs (fun _ => 0) (parts c o).processors := by
  -- Without a script only a melody may be played, and that takes no time.
  have hprompt : ∀ b : Prop, [Decidable b] →
      (if b then Program.melody 0 else .idle).Prompt := by
    intro b _
    split <;> trivial
  intro cpu
  cases cpu with
  | m68k =>
    refine ⟨_, hprompt (o.melody ∧ Cpu.m68k = .z80 ∧ o.recording.isNone), ?_⟩
    show standIn o .m68k = _
    simp only [standIn, hm68k, hrecording]
    rfl
  | z80 =>
    refine ⟨_, hprompt (o.melody ∧ Cpu.z80 = .z80 ∧ o.recording.isNone), ?_⟩
    show standIn o .z80 = _
    simp only [standIn, hz80, hrecording]
    rfl

/-- **Cycles and time do not drift.** For stand-ins whose steps are no longer than a line, whatever
    their slices and the pictures cost: after any sessions, frames with any writes in between, to
    other regions as well, leave the duties of both processors in balance since the last reset. Each
    further frame takes what its slices and its picture cost, and unless that goes beyond the
    numbers that hold it, its report has it so, phase by phase, with nothing left over. In lockstep
    all of this comes to its end; a ring has to be addressable and to hold two frames for that. -/
theorem accounts_balanced (c : Config) (parts : Parts StandIns TestCard)
    (hcheck : c.check = .ok ()) (hstep : ∀ cpu, 0 < step cpu ∧ step cpu ≤ cyclesPerLine)
    (hparts : Paced step us (fun _ => 0) parts.processors) (hdraws : parts.renderer.failAt = none)
    (look : FrameAudio → κ → κ) (seen : κ) :
    ∃ p, Pipeline.build c parts look seen = .ok p ∧
      (∀ earlier b, Pipeline.sessions earlier p = .ok () b →
        ∀ writes reports s, Pipeline.play writes b = .ok reports s →
          (∃ q, Pipeline.play writes b.metered = .ok reports q ∧
            q.seen Metered.processors = s ∧
            Balanced step (frameLines reports) q.emulation.processors.duties
              (Processors.cycles s.emulation.processors)) ∧
          ∀ w r s', Pipeline.step (s.write w) = .ok r s' →
            let lines := r.mode.linesPerFrame
            let pictureUs := drawnUs r.decision s.emulation.renderer
            let costUs := lines * lineUs us + pictureUs
            lines = (w.registers s.emulation.board.registers).region.linesPerFrame ∧
              (s.emulation.board.now.toNat + costUs < 2 ^ 64 →
                s'.emulation.board.now.toNat = s.emulation.board.now.toNat + costUs ∧
                  (costUs < 2 ^ 32 → Charged us lines pictureUs r.times))) ∧
      (c.pacing = .lockstep →
        (c.strategy = .ring → c.ring.size.toNat ≤ 262144 ∧
          2 * c.frameLength ≤ c.ring.size.toNat) →
        ∀ earlier, ∃ b, Pipeline.sessions earlier p = .ok () b ∧
          ∀ writes, ∃ reports s, Pipeline.play writes b = .ok reports s) := by
  have hpace : KeepPace step fun _ => 0 := ⟨fun cpu => (hstep cpu).2, fun cpu => (hstep cpu).1⟩
  obtain ⟨player, hplayer⟩ := exists_player (Config.checked hcheck)
  let new : Pipeline StandIns TestCard κ := ⟨Pipeline.emulationFor c parts, {},
    Pipeline.audioFor c player look seen, #[Pipeline.readyEntry c]⟩
  have hnew : Ready step us new :=
    ⟨.first rfl, ⟨parts.renderer.cost, hdraws, rfl⟩, hparts, rfl, rfl⟩
  refine ⟨new, Pipeline.build_ok hcheck hplayer look seen, ?_, ?_⟩
  · intro earlier b hearlier writes reports s hplay
    have hready := hnew.sessions hstep hearlier
    obtain ⟨q, hmetered, rfl⟩ := Pipeline.play_metered hplay
    have hq := OnPace.play hready hpace hmetered
    have hleft := hpace.leftAfter (frameLines reports)
    refine ⟨⟨q, hmetered, rfl, ?_⟩, ?_⟩
    · have hcycles : Processors.cycles (q.seen Metered.processors).emulation.processors =
          leftAfter step (fun _ => 0) (frameLines reports) :=
        funext fun cpu => hq.standing.paced.cycles_eq cpu
      have hduties : q.emulation.processors.duties = _ := hq.standing.duties
      rw [hcycles, hduties, List.nil_append]
      exact balanced_ledger hpace (frameLines reports)
    · intro w r s' hframe lines pictureUs costUs
      -- The next frame goes on with the record, which makes no difference to its report.
      obtain ⟨q', hstepped, rfl⟩ := Pipeline.step_metered (q := q.write w) hframe
      obtain ⟨hlines, -, hlater, hcharged⟩ := (hq.write w).frame hleft hstepped
      exact ⟨hlines, fun hroom => ⟨hlater.toNat hroom, fun hfits => hcharged hfits hroom⟩⟩
  · intro hpacing hring earlier
    obtain ⟨player', hplayer', L, hat⟩ := playerFor_ready (Config.checked hcheck) hring
    obtain rfl : player = player' := Except.ok.inj (hplayer.symm.trans hplayer')
    have hable : Pipeline.Able L (fun t : TestCard => t.failAt = none) new :=
      ⟨.first rfl, ⟨[], hat, rfl, hpacing⟩, hdraws⟩
    obtain ⟨b, hearlier, hb⟩ := hable.sessions draws_testCard earlier
    refine ⟨b, hearlier, fun writes => ?_⟩
    obtain ⟨reports, s, hplay, -⟩ := hb.play draws_testCard writes
    exact ⟨reports, s, hplay⟩

/-- By default, the first frame takes what its slices and its picture cost, and after a session of
    a frame, frames of both regions leave the processors in balance. -/
theorem default_accounts_balanced :
    ∃ p b s s' : Pipeline StandIns TestCard Nat, ∃ q r reports,
      Pipeline.build {} (parts {} {}) (fun _ seen => seen + 1) 0 = .ok p ∧
      Pipeline.step (p.write {}) = .ok r s' ∧
      Charged ({} : Options).sliceUs 262 (drawnUs r.decision p.emulation.renderer) r.times ∧
      Pipeline.sessions [[{}]] p = .ok () b ∧
      Pipeline.play [{}, { registers := (·.setRegion .pal) }] b = .ok reports s ∧
      Pipeline.play [{}, { registers := (·.setRegion .pal) }] b.metered = .ok reports q ∧
      Balanced stepCycles (frameLines reports) q.emulation.processors.duties
        (Processors.cycles s.emulation.processors) := by
  obtain ⟨p, hbuild, hbalanced, hends⟩ := accounts_balanced {} (parts {} {}) rfl
    (fun cpu => by cases cpu <;> decide) (paced_parts {} rfl rfl rfl) rfl (fun _ seen => seen + 1) 0
  have hends := hends rfl fun _ => by decide
  obtain ⟨b, hb, hplays⟩ := hends [[{}]]
  obtain ⟨reports, s, hs⟩ := hplays [{}, { registers := (·.setRegion .pal) }]
  obtain ⟨⟨q, hq, -, hledger⟩, -⟩ := hbalanced _ b hb _ reports s hs
  -- The pipeline that is built starts its clock, and has a console of its region.
  obtain ⟨player, hplayer⟩ := exists_player (c := {}) (Config.checked rfl)
  have hp : Pipeline.build {} (parts {} {}) _ _ = .ok _ :=
    Pipeline.build_ok rfl hplayer (fun _ seen => seen + 1) 0
  obtain rfl := Except.ok.inj (hbuild.symm.trans hp)
  obtain ⟨_, hnone, hfirst⟩ := hends []
  cases hnone
  obtain ⟨_, s₁, hone⟩ := hfirst [{}]
  obtain ⟨_, p₁, hwrite, hone⟩ := Run.bind_inv hone
  cases hwrite
  obtain ⟨r, s', hstep, -⟩ := Run.bind_inv hone
  obtain ⟨hlines, hcharged⟩ := (hbalanced [] _ rfl [] [] _ rfl).2 {} r s' hstep
  have hlines : r.mode.linesPerFrame = 262 := hlines
  have hpicture : drawnUs r.decision (parts {} {}).renderer < 2 ^ 31 := by
    rw [drawnUs]
    split <;> decide
  have hslices : 262 * lineUs ({} : Options).sliceUs = 7860 := rfl
  rw [hlines, hslices] at hcharged
  have hroom : 0 + (7860 + drawnUs r.decision (parts {} {}).renderer) < 2 ^ 64 := by omega
  have hfits : 7860 + drawnUs r.decision (parts {} {}).renderer < 2 ^ 32 := by omega
  have hcharged := (hcharged hroom).2 hfits
  exact ⟨_, b, s, s', q, r, reports, hbuild, hstep, hcharged, hb, hs, hq, hledger⟩

end

end Bench

end ConsolePipeline
