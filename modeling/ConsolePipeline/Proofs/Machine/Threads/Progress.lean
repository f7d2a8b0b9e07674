import ConsolePipeline.Proofs.Machine.Threads.Standing

namespace ConsolePipeline.Machine.Threads

open Handoff Handoff.Rendezvous Sound

/-!
# How two threads go on

* `GoesOn`, `SendsOff` — the two kinds of step that the emulation thread takes.
* `StaysBehind`, `CatchesUp` — the two kinds that the audio thread takes.
* `Around.emulationStep`, `audioStep` — each step is one of them.
-/

variable {P R κ : Type} [Processors P] [Renderer R] {s s' : Pipeline P R κ}
  {t t' : Threads P R κ} {left remaining : Nat} {holds stopped : Bool} {behind : List FrameAudio}
  {emulation : EmulationTask} {task : AudioTask} {x : Exchange} {d : Draft} {e e' : Emulation P R}
  {c c' : AudioCore κ} {a : FrameAudio} {notices : Array Log.Entry} {reports : Array FrameReport}

/-! ### The emulation thread -/

/-- **The emulation thread goes on** from the same state in lockstep, or waits. -/
structure GoesOn (s : Pipeline P R κ) (left : Nat) (behind : List FrameAudio)
    (t t' : Threads P R κ) : Prop where
  move : EmulationMove t t'
  around : Around s left behind t'
  reports : t'.reports = t.reports
  sentBy : t.sentBy .emulation = []

/-- **The emulation thread comes to the next state in lockstep** when it sends a frame off. -/
structure SendsOff (s : Pipeline P R κ) (left : Nat) (t t' : Threads P R κ) (a : FrameAudio)
    (s' : Pipeline P R κ) : Prop where
  move : EmulationMove t t'
  step : ∃ r, Pipeline.step s = .ok r s' ∧ t'.reports = t.reports.push r
  around : Around s' left [a] t'
  sentBy : t.sentBy .emulation = [a]
  frame : a.frame = s.emulation.loop.frame

theorem goesOn_make_zero (hlistening : Listening s false false behind task x c)
    (hemulation : s.emulation.collected = s.emulation) (haudio : c.collected = c) :
    GoesOn s 0 behind ⟨⟨s.emulation, x, c, notices⟩, 0, .make, task, false, reports⟩
      (emulationStep ⟨⟨s.emulation, x, c, notices⟩, 0, .make, task, false, reports⟩) := by
  refine ⟨.of_lt rfl rfl id id ?_, ⟨⟨false, .drain, hlistening⟩, hemulation, haudio⟩, rfl, rfl⟩
  show 7 * 0 + 2 + task.work x.frameReady false < 7 * 0 + 3 + task.work x.frameReady false
  omega

theorem goesOn_make (hmade : Emulation.produce s.emulation = .ok d e)
    (hlistening : Listening s false false behind task x c) (haudio : c.collected = c) :
    GoesOn s (left + 1) behind ⟨⟨s.emulation, x, c, notices⟩, left + 1, .make, task, false, reports⟩
      (emulationStep ⟨⟨s.emulation, x, c, notices⟩, left + 1, .make, task, false, reports⟩) := by
  rw [step_make (by exact hmade)]
  refine ⟨.of_lt rfl rfl id id ?_, ⟨⟨false, .fetch hmade, hlistening⟩, rfl, haudio⟩, rfl, rfl⟩
  simp only [work, EmulationTask.work]
  omega

theorem goesOn_fetch (hrests : Rests s.emulation.sender s.exchange)
    (hmade : Emulation.produce s.emulation = .ok d e)
    (hlistening : Listening s false false behind task x c) (haudio : c.collected = c) :
    GoesOn s (left + 1) behind ⟨⟨e.collected, x, c, notices⟩, left, .fetch d, task, false, reports⟩
      (emulationStep ⟨⟨e.collected, x, c, notices⟩, left, .fetch d, task, false, reports⟩) := by
  have hsender : e.sender = s.emulation.sender := (Emulation.sameFrame_produce hmade).sender
  obtain ⟨rfl, hidle, rfl, rfl⟩ | ⟨hout, hback⟩ := hlistening.back_or_out hrests
  · -- The last frame is back, so its buffers are taken.
    obtain ⟨e', hfetched, hcollected, -⟩ := Emulation.fetch_rests (hsender.symm ▸ hrests)
    have hready := hrests.frameReady
    rw [step_fetch (by exact hcollected)]
    refine ⟨.of_lt rfl rfl (fun h => ?_) id ?_, ⟨⟨true, .ship hmade hfetched, .home hidle⟩, rfl,
      haudio⟩, rfl, rfl⟩
    · rw [show s.exchange.frameReady = true from h] at hready
      cases hready
    · simp only [work, EmulationTask.work, hready]
      omega
  · -- It is still out.
    have hinFlight : e.collected.sender.inFlight = true := by
      rw [show e.collected.sender = s.emulation.sender from hsender]
      exact hout
    rw [step_fetch_waiting (by exact Emulation.fetch_waiting hinFlight hback)]
    refine ⟨.of_waiting rfl rfl rfl rfl rfl ?_, ⟨⟨false, .fetch hmade, hlistening⟩, rfl, haudio⟩,
      rfl, rfl⟩
    simp only [able, EmulationTask.able, hinFlight, hback]
    rfl

theorem goesOn_drain (hrests : Rests s.emulation.sender s.exchange)
    (hemulation : s.emulation.collected = s.emulation)
    (hlistening : Listening s false false behind task x c) (haudio : c.collected = c) :
    GoesOn s 0 behind ⟨⟨s.emulation, x, c, notices⟩, 0, .drain, task, false, reports⟩
      (emulationStep ⟨⟨s.emulation, x, c, notices⟩, 0, .drain, task, false, reports⟩) := by
  obtain ⟨rfl, hidle, rfl, rfl⟩ | ⟨hout, hback⟩ := hlistening.back_or_out hrests
  · obtain ⟨e', hdrained, hloop, hpublished⟩ := Emulation.drain_rests hrests
    have hready := hrests.frameReady
    rw [step_drain (by exact hdrained)]
    refine ⟨.of_lt rfl rfl (fun h => ?_) id ?_, ⟨⟨true, .stop hloop hpublished, .home hidle⟩, rfl,
      haudio⟩, rfl, rfl⟩
    · rw [show s.exchange.frameReady = true from h] at hready
      cases hready
    · simp only [work, EmulationTask.work, hready]
      omega
  · rw [step_drain_waiting (by exact Emulation.drain_waiting hout hback), hemulation]
    refine ⟨.of_waiting rfl rfl rfl rfl rfl ?_, ⟨⟨false, .drain, hlistening⟩, hemulation, haudio⟩,
      rfl, rfl⟩
    simp only [able, EmulationTask.able, hout, hback]
    rfl

theorem goesOn_stop (hloop : e.loop = s.emulation.loop)
    (hpublished : e.sender.published = s.emulation.sender.published)
    (hlistening : Listening s true false behind task x c)
    (hemulation : e.collected = e) (haudio : c.collected = c) :
    GoesOn s 0 behind ⟨⟨e, x, c, notices⟩, 0, .stop, task, false, reports⟩
      (emulationStep ⟨⟨e, x, c, notices⟩, 0, .stop, task, false, reports⟩) := by
  -- The drain has brought all buffers home, so there is nothing left to mix.
  cases hlistening with
  | home hidle =>
    refine ⟨.of_lt rfl rfl id (fun _ => rfl) ?_, ⟨⟨true, .finished hloop hpublished,
      .home hidle.stop⟩, hemulation, haudio⟩, rfl, rfl⟩
    have hstopped := hidle.work_stopped
    show 7 * 0 + 0 + task.work false true < 7 * 0 + 1 + task.work false false
    omega

theorem goesOn_finished (h : Working s left holds stopped .finished 0 e)
    (hlistening : Listening s holds stopped behind task x c)
    (hemulation : e.collected = e) (haudio : c.collected = c) :
    GoesOn s left behind ⟨⟨e, x, c, notices⟩, 0, .finished, task, stopped, reports⟩
      (emulationStep ⟨⟨e, x, c, notices⟩, 0, .finished, task, stopped, reports⟩) :=
  ⟨.of_waiting rfl rfl rfl rfl rfl rfl, ⟨⟨holds, h, hlistening⟩, hemulation, haudio⟩, rfl, rfl⟩

theorem sendsOff_ship {r : FrameReport} (hrests : Rests s.emulation.sender s.exchange)
    (hstep : Pipeline.step s = .ok r s') (hmade : Emulation.produce s.emulation = .ok d e)
    (hfetched : Emulation.fetch (e, s.exchange) = .ok e.heldFrame (e', {}))
    (hlistening : Listening s true false behind task x c) (haudio : c.collected = c) :
    behind = [] ∧ SendsOff s left
      ⟨⟨e'.collected, x, c, notices⟩, left, .ship d e.heldFrame, task, false, reports⟩
      (emulationStep
        ⟨⟨e'.collected, x, c, notices⟩, left, .ship d e.heldFrame, task, false, reports⟩)
      e.heldFrame s' := by
  obtain ⟨d₁, e₁, e₂, hframe⟩ := Pipeline.step_inv hrests hstep
  -- What has been done so far is what the frame in lockstep began with.
  obtain ⟨rfl, rfl⟩ : d₁ = d ∧ e₁ = e := by
    have hsame := hframe.made.symm.trans hmade
    cases hsame
    exact ⟨rfl, rfl⟩
  obtain rfl : e₂ = e' := by
    have hsame := hframe.fetched.symm.trans hfetched
    cases hsame
    rfl
  obtain ⟨e₃, hclosed, hemulation⟩ := hframe.closed
  obtain ⟨c', hmixed, hcore⟩ := hframe.mixed
  obtain ⟨r', e₄, e₅, hclosed', hcollected, hsame⟩ := Emulation.closing_collected d₁ e₁.heldFrame e₂
  rw [hclosed] at hclosed'
  cases hclosed'
  cases hlistening with
  | home hidle =>
    have hship : emulationStep ⟨⟨e₂.collected, {}, s.audio, notices⟩, left,
        .ship d₁ e₁.heldFrame, task, false, reports⟩ = _ := step_ship hcollected
    rw [hsame, ← hemulation] at hship
    rw [hship]
    refine ⟨rfl, .of_lt rfl rfl (fun h => ?_) id ?_, ⟨r, hstep, rfl⟩,
      ⟨⟨false, .make left, .sent hidle hframe.exchange hmixed hcore⟩, ?_, haudio⟩,
      sentBy_ship rfl (congrArg Threads.emulation hship),
      (Emulation.sameFrame_produce hmade).frame⟩
    · cases h
    · have hsent := hidle.work_sent
      show 7 * left + 3 + task.work true false < 7 * left + 8 + task.work false false
      omega
    · show s'.emulation.collected = s'.emulation
      rw [hemulation]
      rfl

/-- **A step of the emulation thread.** -/
theorem Around.emulationStep (h : Around s left behind t)
    (hrests : Rests s.emulation.sender s.exchange)
    (hnext : ∀ k, left = k + 1 → ∃ r s', Pipeline.step s = .ok r s') :
    GoesOn s left behind t t.emulationStep ∨
      ∃ k a s', left = k + 1 ∧ behind = [] ∧ SendsOff s k t t.emulationStep a s' := by
  obtain ⟨⟨emulation, exchange, audio, notices⟩, remaining, task, audioTask, stopped, reports⟩ := t
  obtain ⟨⟨holds, hworking, hlistening⟩, hemulation, haudio⟩ := h
  dsimp only at hworking hlistening hemulation haudio
  cases hworking with
  | make left =>
    cases left with
    | zero => exact .inl (goesOn_make_zero hlistening hemulation haudio)
    | succ k =>
      obtain ⟨r, s', hstep⟩ := hnext k rfl
      obtain ⟨d, e₁, e₂, hframe⟩ := Pipeline.step_inv hrests hstep
      exact .inl (goesOn_make hframe.made hlistening haudio)
  | fetch hmade => exact .inl (goesOn_fetch hrests hmade hlistening haudio)
  | ship hmade hfetched =>
    obtain ⟨r, s', hstep⟩ := hnext _ rfl
    obtain ⟨hbehind, hsends⟩ := sendsOff_ship hrests hstep hmade hfetched hlistening haudio
    exact .inr ⟨_, _, s', rfl, hbehind, hsends⟩
  | drain => exact .inl (goesOn_drain hrests hemulation hlistening haudio)
  | stop hloop hpublished =>
    exact .inl (goesOn_stop hloop hpublished hlistening hemulation haudio)
  | finished hloop hpublished =>
    exact .inl (goesOn_finished (.finished hloop hpublished) hlistening hemulation haudio)

/-! ### The audio thread -/

/-- **The audio thread goes on** without a frame mixed, or waits. -/
structure StaysBehind (s : Pipeline P R κ) (left : Nat) (behind : List FrameAudio)
    (t t' : Threads P R κ) : Prop where
  move : AudioMove t t'
  around : Around s left behind t'
  core : t'.pipeline.audio = t.pipeline.audio
  mixedBy : t.mixedBy .audio = []

/-- **The audio thread has mixed the frame that it was behind,** which its observer has seen. -/
structure CatchesUp (s : Pipeline P R κ) (left : Nat) (a : FrameAudio)
    (t t' : Threads P R κ) : Prop where
  move : AudioMove t t'
  around : Around s left [] t'
  seen : t'.pipeline.audio.seen = t.pipeline.audio.look a t.pipeline.audio.seen
  look : t'.pipeline.audio.look = t.pipeline.audio.look
  mixedBy : t.mixedBy .audio = [a]

theorem staysBehind_home (hworking : Working s left true stopped emulation remaining e)
    (hidle : Idle stopped task) (hemulation : e.collected = e)
    (haudio : s.audio.collected = s.audio) :
    StaysBehind s left [] ⟨⟨e, {}, s.audio, notices⟩, remaining, emulation, task, stopped, reports⟩
      (audioStep ⟨⟨e, {}, s.audio, notices⟩, remaining, emulation, task, stopped, reports⟩) := by
  cases hidle with
  | poll =>
    rw [step_poll (by exact rfl), haudio]
    exact ⟨.of_saves (.poll stopped) rfl rfl id,
      ⟨⟨true, hworking, .home .checkStop⟩, hemulation, haudio⟩, rfl, rfl⟩
  | checkStop =>
    refine ⟨.of_saves (.checkStop stopped) rfl rfl id, ⟨⟨true, hworking, .home ?_⟩, hemulation,
      haudio⟩, rfl, rfl⟩
    -- Once stopped, the thread looks one last time.
    cases stopped
    · exact .poll
    · exact .lastPoll
  | lastPoll =>
    rw [step_lastPoll (by exact rfl), haudio]
    exact ⟨.of_saves .lastPoll rfl rfl id,
      ⟨⟨true, hworking, .home .finished⟩, hemulation, haudio⟩, rfl, rfl⟩
  | finished =>
    exact ⟨.of_saves .finished rfl rfl id,
      ⟨⟨true, hworking, .home .finished⟩, hemulation, haudio⟩, rfl, rfl⟩

theorem staysBehind_back (hrests : Rests s.emulation.sender s.exchange)
    (hworking : Working s left false false emulation remaining e)
    (hidle : Idle false task) (hemulation : e.collected = e)
    (haudio : s.audio.collected = s.audio) :
    StaysBehind s left []
      ⟨⟨e, s.exchange, s.audio, notices⟩, remaining, emulation, task, false, reports⟩
      (audioStep
        ⟨⟨e, s.exchange, s.audio, notices⟩, remaining, emulation, task, false, reports⟩) := by
  have hready := hrests.frameReady
  cases hidle with
  | poll =>
    rw [step_poll (by exact Rendezvous.tryConsume_none hready), haudio]
    exact ⟨.of_saves (.poll false) hready hready id,
      ⟨⟨false, hworking, .back .checkStop⟩, hemulation, haudio⟩, rfl, rfl⟩
  | checkStop =>
    exact ⟨.of_saves (.checkStop false) hready hready id,
      ⟨⟨false, hworking, .back .poll⟩, hemulation, haudio⟩, rfl, rfl⟩

theorem staysBehind_sent
    (hworking : Working s left false false emulation remaining e)
    (hidle : Idle false task) (hexchange : s.exchange = returning a)
    (hmixed : AudioCore.process a c = .ok () c') (hcore : s.audio = c'.collected)
    (hemulation : e.collected = e) (haudio : c.collected = c) :
    StaysBehind s left [a] ⟨⟨e, carrying a, c, notices⟩, remaining, emulation, task, false, reports⟩
      (audioStep ⟨⟨e, carrying a, c, notices⟩, remaining, emulation, task, false, reports⟩) := by
  cases hidle with
  | poll =>
    rw [step_poll (by exact rfl), haudio]
    exact ⟨.of_saves (.found a) rfl rfl id,
      ⟨⟨false, hworking, .taken hexchange hmixed hcore⟩, hemulation, haudio⟩, rfl, rfl⟩
  | checkStop =>
    exact ⟨.of_saves .again rfl rfl id,
      ⟨⟨false, hworking, .sent .poll hexchange hmixed hcore⟩, hemulation, haudio⟩, rfl, rfl⟩

theorem staysBehind_mixed (hworking : Working s left false false emulation remaining e)
    (hexchange : s.exchange = returning a) (hemulation : e.collected = e)
    (haudio : s.audio.collected = s.audio) :
    StaysBehind s left []
      ⟨⟨e, {}, s.audio, notices⟩, remaining, emulation, .giveBack a, false, reports⟩
      (audioStep
        ⟨⟨e, {}, s.audio, notices⟩, remaining, emulation, .giveBack a, false, reports⟩) := by
  rw [step_giveBack rfl, haudio, ← hexchange]
  refine ⟨.of_saves (.giveBack a) rfl (by rw [hexchange]; rfl) (fun h => by cases h),
      ⟨⟨false, hworking, .back .poll⟩, hemulation, haudio⟩, rfl, rfl⟩

theorem catchesUp_taken
    (hworking : Working s left false false emulation remaining e)
    (hexchange : s.exchange = returning a)
    (hmixed : AudioCore.process a c = .ok () c') (hcore : s.audio = c'.collected)
    (hemulation : e.collected = e) :
    CatchesUp s left a ⟨⟨e, {}, c, notices⟩, remaining, emulation, .mix a, false, reports⟩
      (audioStep ⟨⟨e, {}, c, notices⟩, remaining, emulation, .mix a, false, reports⟩) := by
  have hmix : audioStep ⟨⟨e, {}, c, notices⟩, remaining, emulation, .mix a, false, reports⟩ = _ :=
    step_mix hmixed
  -- This is the frame that lockstep has mixed, so the audio side is where lockstep has it.
  rw [← hcore] at hmix
  rw [hmix]
  obtain ⟨hseen, hlook⟩ := AudioCore.process_sees hmixed
  refine ⟨.of_saves (.mix a) rfl rfl id, ⟨⟨false, hworking, .mixed hexchange⟩, hemulation, ?_⟩,
    ?_, ?_, mixedBy_mix rfl (congrArg Threads.audio hmix)⟩
  · show s.audio.collected = s.audio
    rw [hcore]
    rfl
  · show s.audio.seen = c.look a c.seen
    rw [hcore, ← hseen]
    rfl
  · show s.audio.look = c.look
    rw [hcore, ← hlook]
    rfl

/-- **A step of the audio thread.** -/
theorem Around.audioStep (h : Around s left behind t)
    (hrests : Rests s.emulation.sender s.exchange) :
    StaysBehind s left behind t t.audioStep ∨
      ∃ a, behind = [a] ∧ CatchesUp s left a t t.audioStep := by
  obtain ⟨⟨emulation, exchange, audio, notices⟩, remaining, task, audioTask, stopped, reports⟩ := t
  obtain ⟨⟨holds, hworking, hlistening⟩, hemulation, haudio⟩ := h
  dsimp only at hworking hlistening hemulation haudio
  cases hlistening with
  | home hidle => exact .inl (staysBehind_home hworking hidle hemulation haudio)
  | back hidle => exact .inl (staysBehind_back hrests hworking hidle hemulation haudio)
  | sent hidle hexchange hmixed hcore =>
    exact .inl (staysBehind_sent hworking hidle hexchange hmixed hcore hemulation haudio)
  | taken hexchange hmixed hcore =>
    exact .inr ⟨_, rfl, catchesUp_taken hworking hexchange hmixed hcore hemulation⟩
  | mixed hexchange => exact .inl (staysBehind_mixed hworking hexchange hemulation haudio)

end ConsolePipeline.Machine.Threads
