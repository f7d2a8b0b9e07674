import ConsolePipeline.Proofs.Machine.Handover

namespace ConsolePipeline.Machine

open Handoff Handoff.Rendezvous Sound

/-!
# Single steps of two threads

* `Threads.work` — what is left to do at most, waits not counted.
* `Threads.able` — whether a thread gets further with its next step.
* `Threads.sentBy`, `mixedBy` — the frame that a step sends off, or mixes.
* `Threads.step_make`, `step_fetch`, … — each step as what one side of a pipeline does.
-/

/-! ### Work -/

/-- What is left to do for the frame at hand and at the end, waits not counted. Of a frame's share,
    a part is for the audio thread. -/
def EmulationTask.work : EmulationTask → Nat
  | .make => 3
  | .fetch _ => 9
  | .ship _ _ => 8
  | .drain => 2
  | .stop => 1
  | .finished | .failed _ => 0

/-- What is left to do for the frame that was sent and at the end. `ready` says that a frame is
    there, `stopped` that none will come. -/
def AudioTask.work (ready stopped : Bool) : AudioTask → Nat
  | .poll => if ready then 6 else 3
  | .checkStop => if ready then 7 else if stopped then 2 else 3
  | .mix _ => 5
  | .giveBack _ => 4
  | .lastPoll => 1
  | .finished | .failed _ => 0

/-- Whether a next step gets further. A thread whose last frame is still out has to wait for it. -/
def EmulationTask.able (inFlight back : Bool) : EmulationTask → Bool
  | .fetch _ | .drain => !inFlight || back
  | .finished | .failed _ => false
  | _ => true

/-- Whether a next step gets further. A thread that has no frame has to wait for one, or for the
    word that none will come. -/
def AudioTask.able (ready stopped : Bool) : AudioTask → Bool
  | .poll | .checkStop => ready || stopped
  | .finished | .failed _ => false
  | _ => true

theorem AudioTask.able_mono {task : AudioTask} {ready ready' stopped stopped' : Bool}
    (hready : ready = true → ready' = true) (hstopped : stopped = true → stopped' = true)
    (h : task.able ready stopped = true) : task.able ready' stopped' = true := by
  cases task with
  | poll | checkStop =>
    rw [able, Bool.or_eq_true] at h ⊢
    exact h.imp hready hstopped
  | mix | giveBack | lastPoll => rfl
  | finished | failed => exact h

theorem EmulationTask.able_mono {task : EmulationTask} {inFlight back back' : Bool}
    (hback : back = true → back' = true) (h : task.able inFlight back = true) :
    task.able inFlight back' = true := by
  cases task with
  | fetch | drain =>
    rw [able, Bool.or_eq_true] at h ⊢
    exact h.imp_right hback
  | make | ship | stop => rfl
  | finished | failed => exact h

namespace Threads

variable {P R κ : Type}

/-- **What is left to do at most,** waits not counted. -/
def work (t : Threads P R κ) : Nat :=
  7 * t.remaining + t.emulation.work + t.audio.work t.pipeline.exchange.frameReady t.stopped

/-- **Whether a thread gets further** with its next step. -/
def able (t : Threads P R κ) : Side → Bool
  | .emulation => t.emulation.able t.pipeline.emulation.sender.inFlight t.pipeline.exchange.audioDone
  | .audio => t.audio.able t.pipeline.exchange.frameReady t.stopped

/-- The frame that a step sends off. -/
def sentBy [Processors P] [Renderer R] (side : Side) (t : Threads P R κ) : List FrameAudio :=
  match side, t.emulation, (t.step side).emulation with
  | .emulation, .ship _ a, .make => [a]
  | _, _, _ => []

/-- The frame that a step mixes. -/
def mixedBy [Processors P] [Renderer R] (side : Side) (t : Threads P R κ) : List FrameAudio :=
  match side, t.audio, (t.step side).audio with
  | .audio, .mix a, .giveBack _ => [a]
  | _, _, _ => []

variable {p : Pipeline P R κ} {remaining : Nat} {emulation : EmulationTask}
  {audio otherwise : AudioTask} {stopped : Bool} {reports : Array FrameReport} {d : Draft}
  {e : Emulation P R} {x : Exchange} {a : FrameAudio} {r : FrameReport} {c : AudioCore κ}

/-! ### Steps of the emulation thread -/

-- Each step is about one branch, so the definitions are opened as they stand (`delta`).

section EmulationSteps

variable [Processors P] [Renderer R]

theorem step_make (h : Emulation.produce p.emulation = .ok d e) :
    emulationStep ⟨p, remaining + 1, .make, audio, stopped, reports⟩ =
      ⟨⟨e.collected, p.exchange, p.audio, p.notices ++ e.notices⟩, remaining, .fetch d, audio,
        stopped, reports⟩ := by
  have hact : Emulation.alone Emulation.produce (p.emulation, p.exchange) =
      .ok d (e, p.exchange) := Run.within_ok h
  delta emulationStep
  simp only [Pipeline.onEmulation_ok hact]

theorem step_fetch (h : Emulation.fetch (p.emulation, p.exchange) = .ok a (e, x)) :
    emulationStep ⟨p, remaining, .fetch d, audio, stopped, reports⟩ =
      ⟨⟨e.collected, x, p.audio, p.notices ++ e.notices⟩, remaining, .ship d a, audio, stopped,
        reports⟩ := by
  delta emulationStep attempt
  simp only [Pipeline.onEmulation_ok h]

theorem step_fetch_waiting
    (h : Emulation.fetch (p.emulation, p.exchange) = .error .stalled (e, x)) :
    emulationStep ⟨p, remaining, .fetch d, audio, stopped, reports⟩ =
      ⟨⟨e.collected, x, p.audio, p.notices ++ e.notices⟩, remaining, .fetch d, audio, stopped,
        reports⟩ := by
  delta emulationStep attempt
  simp only [Pipeline.onEmulation_error h]

theorem step_ship (h : Emulation.closing d a (p.emulation, p.exchange) = .ok r (e, x)) :
    emulationStep ⟨p, remaining, .ship d a, audio, stopped, reports⟩ =
      ⟨⟨e.collected, x, p.audio, p.notices ++ e.notices⟩, remaining, .make, audio, stopped,
        reports.push r⟩ := by
  have hact : concluded d a p = .ok r ⟨e.collected, x, p.audio, p.notices ++ e.notices⟩ :=
    Pipeline.onEmulation_ok h
  delta emulationStep attempt
  simp only [hact]

/-- A frame counts as sent once it has been concluded. -/
theorem sentBy_ship {t : Threads P R κ} (h : t.emulation = .ship d a)
    (hstep : t.emulationStep.emulation = .make) : t.sentBy .emulation = [a] := by
  delta sentBy Threads.step
  simp only [h, hstep]

theorem step_drain (h : Emulation.drain (p.emulation, p.exchange) = .ok () (e, x)) :
    emulationStep ⟨p, remaining, .drain, audio, stopped, reports⟩ =
      ⟨⟨e.collected, x, p.audio, p.notices ++ e.notices⟩, remaining, .stop, audio, stopped,
        reports⟩ := by
  delta emulationStep attempt
  simp only [Pipeline.onEmulation_ok h]

theorem step_drain_waiting
    (h : Emulation.drain (p.emulation, p.exchange) = .error .stalled (e, x)) :
    emulationStep ⟨p, remaining, .drain, audio, stopped, reports⟩ =
      ⟨⟨e.collected, x, p.audio, p.notices ++ e.notices⟩, remaining, .drain, audio, stopped,
        reports⟩ := by
  delta emulationStep attempt
  simp only [Pipeline.onEmulation_error h]

end EmulationSteps

/-! ### Steps of the audio thread -/

/-- What a look finds in the exchange is mixed next. -/
theorem pollFrame_eq {found : Option FrameAudio} (h : p.exchange.tryConsume = (found, x)) :
    pollFrame otherwise p = (found.elim otherwise .mix,
      ⟨p.emulation, x, p.audio.collected, p.notices ++ p.audio.desk.notices⟩) := by
  have hact : AudioCore.onExchange (κ := κ) (modifyGet Rendezvous.tryConsume)
      (p.audio, p.exchange) = .ok found (p.audio, x) := by
    refine Run.within_ok ?_
    show EStateM.Result.ok p.exchange.tryConsume.1 p.exchange.tryConsume.2 = _
    rw [h]
  rw [pollFrame, Pipeline.onAudio_ok hact]
  cases found <;> rfl

theorem step_poll {found : Option FrameAudio} (h : p.exchange.tryConsume = (found, x)) :
    audioStep ⟨p, remaining, emulation, .poll, stopped, reports⟩ =
      ⟨⟨p.emulation, x, p.audio.collected, p.notices ++ p.audio.desk.notices⟩, remaining, emulation,
        found.elim .checkStop .mix, stopped, reports⟩ := by
  delta audioStep
  simp only [pollFrame_eq h]

theorem step_lastPoll {found : Option FrameAudio} (h : p.exchange.tryConsume = (found, x)) :
    audioStep ⟨p, remaining, emulation, .lastPoll, stopped, reports⟩ =
      ⟨⟨p.emulation, x, p.audio.collected, p.notices ++ p.audio.desk.notices⟩, remaining, emulation,
        found.elim .finished .mix, stopped, reports⟩ := by
  delta audioStep
  simp only [pollFrame_eq h]

theorem step_mix (h : AudioCore.process a p.audio = .ok () c) :
    audioStep ⟨p, remaining, emulation, .mix a, stopped, reports⟩ =
      ⟨⟨p.emulation, p.exchange, c.collected, p.notices ++ c.desk.notices⟩, remaining, emulation,
        .giveBack a, stopped, reports⟩ := by
  have hact : AudioCore.alone (AudioCore.process a) (p.audio, p.exchange) =
      .ok () (c, p.exchange) := Run.within_ok h
  delta audioStep
  simp only [Pipeline.onAudio_ok hact]

/-- A frame counts as mixed once it is to be given back. -/
theorem mixedBy_mix [Processors P] [Renderer R] {t : Threads P R κ} (h : t.audio = .mix a)
    (hstep : t.audioStep.audio = .giveBack a) : t.mixedBy .audio = [a] := by
  delta mixedBy Threads.step
  simp only [h, hstep]

theorem step_giveBack (h : p.exchange = {}) :
    audioStep ⟨p, remaining, emulation, .giveBack a, stopped, reports⟩ =
      ⟨⟨p.emulation, returning a, p.audio.collected, p.notices ++ p.audio.desk.notices⟩, remaining,
        emulation, .poll, stopped, reports⟩ := by
  have hact : AudioCore.onExchange (Rendezvous.acknowledge a) (p.audio, p.exchange) =
      .ok () (p.audio, returning a) := by
    rw [h]
    rfl
  delta audioStep attempt
  simp only [Pipeline.onAudio_ok hact]

end Threads

end ConsolePipeline.Machine
