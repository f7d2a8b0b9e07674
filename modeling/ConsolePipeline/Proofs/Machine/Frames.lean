import ConsolePipeline.Machine.Pipeline
import ConsolePipeline.Proofs.Machine.Handover
import ConsolePipeline.Proofs.Machine.SmallRing

namespace ConsolePipeline.Machine

open Handoff Handoff.Rendezvous Mixing Sound Video

/-!
# Frames with writes in between

Between two frames in lockstep somebody may write to the video registers and to the audio controls.

* `Pipeline.play` — frames in lockstep, each after some writes.
* `Emulation.closed` — the emulation side at the end of a frame that was made.
* `Emulation.runFrame_made` — such a frame is sent off and concluded.
* `Pipeline.build_ok` — a pipeline for a configuration that passes the check.
* `Pipeline.step_ok`, `step_error` — one frame more, if it can be mixed and if it cannot.
-/

/-- What is written before a frame. -/
structure Writes where
  registers : Registers → Registers := id
  controls : Controls → Controls := id

namespace Pipeline

variable {P R κ : Type}

/-- Write to the registers and to the controls. -/
def write (w : Writes) : Pipeline P R κ → Pipeline P R κ
  | ⟨emulation, exchange, audio, notices⟩ =>
    ⟨emulation.mapRegisters w.registers, exchange, audio.mapControls w.controls, notices⟩

/-- **Frames in lockstep,** each after some writes. The answer holds their reports. -/
def play [Processors P] [Renderer R] : List Writes → Run (Pipeline P R κ) (List FrameReport)
  | [] => return []
  | w :: rest => do
    modify (write w)
    let report ← step
    let reports ← play rest
    return report :: reports

theorem play_cons_ok [Processors P] [Renderer R] {w : Writes} {rest : List Writes}
    {s s₁ s₂ : Pipeline P R κ} {r : FrameReport} {reports : List FrameReport}
    (hstep : step (s.write w) = .ok r s₁) (hrest : play rest s₁ = .ok reports s₂) :
    play (w :: rest) s = .ok (r :: reports) s₂ := by
  rw [play, Run.modify_bind, Run.bind_ok hstep, Run.bind_ok hrest]
  rfl

theorem play_cons_error [Processors P] [Renderer R] {w : Writes} {rest : List Writes}
    {s s₁ : Pipeline P R κ} {fault : Fault} (hstep : step (s.write w) = .error fault s₁) :
    play (w :: rest) s = .error fault s₁ := by
  rw [play, Run.modify_bind, Run.bind_error hstep]

theorem play_cons_stops [Processors P] [Renderer R] {w : Writes} {rest : List Writes}
    {s s₁ s₂ : Pipeline P R κ} {r : FrameReport} {fault : Fault}
    (hstep : step (s.write w) = .ok r s₁) (hrest : play rest s₁ = .error fault s₂) :
    play (w :: rest) s = .error fault s₂ := by
  rw [play, Run.modify_bind, Run.bind_ok hstep, Run.bind_error hrest]

end Pipeline

/-! ### The end of a frame -/

namespace Emulation

variable {P R : Type} {e : Emulation P R} {d : Draft}

/-- The buffers for the next frame: those of a frame that comes back, or those at hand. -/
def nextBuffers (sender : Sender) (x : Exchange) : Buffers :=
  if sender.inFlight then (x.returned.getD default).buffers else sender.spare.getD .empty

/-- What is at hand once these have been taken. -/
def nextSpare (sender : Sender) : Option Buffers :=
  if sender.inFlight then sender.spare else none

theorem fetch_eq {x : Exchange} (h : Rests e.sender x) :
    fetch (e, x) = .ok e.heldFrame
      (e.refilled (nextBuffers e.sender x) (nextSpare e.sender), {}) := by
  cases h with
  | first h => rw [fetch_first h, nextBuffers, nextSpare, h]; rfl
  | back h b => rw [fetch_back h, nextBuffers, nextSpare, h]; rfl

/-- A profile takes part in nothing but itself. -/
theorem profile_eq (times : PhaseTimes) (rendered : Bool) (e : Emulation P R) :
    ∃ notices, profile times rendered e =
      ⟨e.processors, e.board, e.renderer,
        { e.loop with profiler := (e.loop.profiler.onFrame times rendered).2 }, e.sender,
        notices⟩ := by
  rw [profile]
  generalize e.loop.profiler.onFrame times rendered = outcome
  obtain ⟨done, profiler⟩ := outcome
  cases done with
  | none => exact ⟨_, rfl⟩
  | some p => exact ⟨_, rfl⟩

/-- All times of a frame that did not have to wait. -/
def fullTimes (d : Draft) (now : Instant) : PhaseTimes :=
  { d.times with audioWaitUs := 0, frameUs := elapsedUs d.start now }

/-- The loop once a frame has been concluded. -/
def loopAfter (d : Draft) (now : Instant) (l : Loop) : Loop :=
  { l with
    skip := l.skip.finishFrame ⟨d.workUs, 0, UInt32.ofNat d.mode.budgetUs⟩
    profiler := (l.profiler.onFrame (fullTimes d now) d.decision.render).2
    frame := l.frame + 1 }

/-- The report on a frame. -/
def reportOn (d : Draft) (now : Instant) (l : Loop) : FrameReport where
  frame := l.frame
  mode := d.mode
  modeChanged := d.modeChanged
  decision := d.decision
  times := fullTimes d now
  backlogUs := (loopAfter d now l).skip.state.backlogUs
  samples := d.samples
  lineInterrupts := d.lineInterrupts
  vblankRaised := d.vblankRaised

variable [Processors P]

/-- The processors once the cycles of a frame have been taken off. -/
def rebased (d : Draft) (p : P) : P :=
  Processors.endFrame .z80 (d.mode.linesPerFrame * cyclesPerLine)
    (Processors.endFrame .m68k (d.mode.linesPerFrame * cyclesPerLine) p)

/-- The frame taken into account by the skip controller and the processors. -/
def accounted (d : Draft) (e : Emulation P R) : Emulation P R :=
  (e.mapLoop fun l =>
    { l with skip := l.skip.finishFrame ⟨d.workUs, 0, UInt32.ofNat d.mode.budgetUs⟩ }).rebase
      (d.mode.linesPerFrame * cyclesPerLine)

theorem conclude_eq (d : Draft) (e : Emulation P R) :
    ∃ notices, conclude d 0 e =
      (reportOn d e.board.now e.loop,
        ⟨rebased d e.processors, e.board, e.renderer, loopAfter d e.board.now e.loop, e.sender,
          notices⟩) := by
  obtain ⟨notices, hprofile⟩ :=
    profile_eq (fullTimes d e.board.now) d.decision.render (e.accounted d)
  refine ⟨notices, ?_⟩
  -- Everything that a conclusion takes from the emulation it takes after the profile is written,
  -- and a profile changes nothing but the notices.
  show (fun e₁ : Emulation P R =>
    (({ frame := e₁.loop.frame
        mode := d.mode
        modeChanged := d.modeChanged
        decision := d.decision
        times := fullTimes d e.board.now
        backlogUs := e₁.loop.skip.state.backlogUs
        samples := d.samples
        lineInterrupts := d.lineInterrupts
        vblankRaised := d.vblankRaised } : FrameReport),
      e₁.mapLoop fun l => { l with frame := l.frame + 1 }))
    (profile (fullTimes d e.board.now) d.decision.render (e.accounted d)) = _
  rw [hprofile]
  rfl

/-- **The emulation side after a frame that was made,** once its notices have been collected. -/
def closed (d : Draft) (x : Exchange) (e : Emulation P R) : Emulation P R where
  processors := rebased d e.processors
  board :=
    { e.board with bus := { e.board.bus with buffers := nextBuffers e.sender x } }
  renderer := e.renderer
  loop := loopAfter d e.board.now e.loop
  sender := ⟨nextSpare e.sender, true, e.sender.published + 1⟩

/-- **A frame that was made is sent off and concluded.** -/
theorem closing_closed (d : Draft) (x : Exchange) (e : Emulation P R) :
    ∃ e₁, closing d e.heldFrame (e.refilled (nextBuffers e.sender x) (nextSpare e.sender), {}) =
        .ok (reportOn d e.board.now e.loop) (e₁, carrying e.heldFrame) ∧
      e₁.collected = e.closed d x := by
  obtain ⟨notices, hconclude⟩ := conclude_eq d
    ((e.refilled (nextBuffers e.sender x) (nextSpare e.sender)).posted e.heldFrame)
  rw [closing_eq, hconclude]
  exact ⟨_, rfl, rfl⟩

variable [Renderer R]

/-- **A whole frame on the emulation side.** -/
theorem runFrame_made {x : Exchange} {e e₁ : Emulation P R} (hmade : produce e = .ok d e₁)
    (h : Rests e₁.sender x) :
    ∃ e₂, runFrame (e, x) =
        .ok (reportOn d e₁.board.now e₁.loop) (e₂, carrying e₁.heldFrame) ∧
      e₂.collected = e₁.closed d x := by
  obtain ⟨e₂, hclosing, hcollected⟩ := closing_closed d x e₁
  refine ⟨e₂, ?_, hcollected⟩
  rw [runFrame, Run.bind_ok (show alone produce (e, x) = .ok d (e₁, x) from Run.within_ok hmade),
    Run.bind_ok (fetch_eq h)]
  exact hclosing

end Emulation

/-! ### The audio side's part -/

namespace AudioCore

variable {κ : Type} {c c' : AudioCore κ} {a : FrameAudio}

theorem service_ok (h : process a c = .ok () c') :
    service (c, carrying a) = .ok true (c', returning a) := by
  have hcomplete : complete a (c, {}) = .ok () (c', returning a) := by
    rw [complete, Run.bind_ok (show alone (process a) (c, {}) = .ok () (c', {}) from
      Run.within_ok h)]
    rfl
  rw [service, Run.bind_ok (show onExchange (modifyGet tryConsume) (c, carrying a) =
    .ok (some a) (c, {}) from rfl)]
  exact Run.bind_ok hcomplete

theorem service_error {fault : Fault} (h : process a c = .error fault c') :
    service (c, carrying a) = .error fault (c', {}) := by
  have hcomplete : complete a (c, {}) = .error fault (c', {}) := by
    rw [complete, Run.bind_error (show alone (process a) (c, {}) = .error fault (c', {}) from
      Run.within_error h)]
  rw [service, Run.bind_ok (show onExchange (modifyGet tryConsume) (c, carrying a) =
    .ok (some a) (c, {}) from rfl)]
  exact Run.bind_error hcomplete

/-- Nobody but the outside changes the controls. -/
theorem controls_process (h : process a c = .ok () c') : c'.controls = c.controls := by
  -- Each part of the work changes the desk or what is counted; the controls are only read.
  rw [process] at h
  obtain ⟨_, c₁, hpace, h⟩ := Run.bind_inv h
  have hpaced : c₁.controls = c.controls := by
    rw [keepPace, Run.get_bind, Run.get_bind] at hpace
    split at hpace
    · obtain ⟨desk, -, rfl⟩ := onDesk_inv hpace
      rfl
    · cases hpace
      rfl
  obtain ⟨c₂, hsequence, hsame⟩ := checkSequence_ok a.frame c₁
  rw [Run.bind_ok hsequence, Run.modify_bind, Run.get_bind] at h
  obtain ⟨_, c₃, hdesk, hcount⟩ := Run.bind_inv h
  cases hcount
  obtain ⟨desk, -, rfl⟩ := onDesk_inv hdesk
  exact hsame.controls.trans hpaced

end AudioCore

/-! ### Both sides -/

namespace Pipeline

variable {P R κ : Type} {p : Pipeline P R κ} {d : Draft} {e : Emulation P R} {c : AudioCore κ}

theorem onAudio_error {α : Type} {act : Run (AudioCore κ × Exchange) α} {fault : Fault}
    {x : Exchange} (h : act (p.audio, p.exchange) = .error fault (c, x)) :
    onAudio act p = .error fault ⟨p.emulation, x, c.collected, p.notices ++ c.desk.notices⟩ := by
  rw [onAudio, Run.within_error (by exact h)]
  rfl

/-- **A pipeline for a configuration** that passes the check, if its player can be had. -/
theorem build_ok {config : Config} {parts : Parts P R} {player : Playback.Player}
    (hcheck : config.check = .ok ()) (hplayer : playerFor config = .ok player)
    (look : FrameAudio → κ → κ) (seen : κ) :
    build config parts look seen = .ok
      { emulation := emulationFor config parts
        audio := audioFor config player look seen
        notices := #[readyEntry config] } := by
  rw [build, hcheck, hplayer]
  rfl

variable [Processors P] [Renderer R]

/-- **One frame more:** it is made, and it is mixed. -/
theorem step_ok (hmade : Emulation.produce p.emulation = .ok d e)
    (h : Rests e.sender p.exchange)
    (hmixed : AudioCore.process e.heldFrame p.audio = .ok () c) :
    ∃ notices, step p = .ok (Emulation.reportOn d e.board.now e.loop)
      ⟨e.closed d p.exchange, returning e.heldFrame, c.collected, notices⟩ := by
  obtain ⟨e₂, hframe, hcollected⟩ := Emulation.runFrame_made hmade h
  have haudio := onAudio_ok (p := ⟨e₂.collected, carrying e.heldFrame, p.audio,
    p.notices ++ e₂.notices⟩) (AudioCore.service_ok hmixed)
  rw [step, Run.bind_ok (onEmulation_ok hframe), Run.bind_ok haudio, hcollected]
  exact ⟨_, rfl⟩

/-- **A frame that is made but cannot be mixed** stops the run. -/
theorem step_error {fault : Fault} (hmade : Emulation.produce p.emulation = .ok d e)
    (h : Rests e.sender p.exchange)
    (hmixed : AudioCore.process e.heldFrame p.audio = .error fault c) :
    ∃ notices, step p = .error fault ⟨e.closed d p.exchange, {}, c.collected, notices⟩ := by
  obtain ⟨e₂, hframe, hcollected⟩ := Emulation.runFrame_made hmade h
  have haudio := onAudio_error (p := ⟨e₂.collected, carrying e.heldFrame, p.audio,
    p.notices ++ e₂.notices⟩) (AudioCore.service_error hmixed)
  rw [step, Run.bind_ok (onEmulation_ok hframe), Run.bind_error haudio, hcollected]
  exact ⟨_, rfl⟩

end Pipeline

end ConsolePipeline.Machine
