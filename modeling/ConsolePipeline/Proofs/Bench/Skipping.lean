import ConsolePipeline.Proofs.Bench.Lockstep
import ConsolePipeline.Proofs.Machine.RingLimits

namespace ConsolePipeline.Bench

open FrameSkip Handoff Handoff.Rendezvous Machine Mixing Playback Sound Video

/-!
# Skipping is not heard

Which frames are drawn depends on the policy, on the time that drawing takes and on the backlog that
comes of it. None of this reaches the scanlines, the chips, the handover or the mixer: two pipelines
on the bench that differ in these things only make the same frames and let the same be heard.

* `SameSound` — two pipelines that have let the same be heard.
* `Beside` — two such pipelines between two frames; `Beside.step` — one frame keeps them so.
* `SameRun` — two runs that end alike; `Beside.play` — any frames with any writes in between do.
* `Drawing` — what decides which frames are drawn; `skipping_is_not_heard` — whatever it is.
-/

variable {κ : Type} {p p' : Pipeline StandIns TestCard κ}

/-- **Two pipelines that have let the same be heard.** The audio side is the same altogether: what
    it has seen and mixed, the slots, the words played and all that is counted. -/
structure SameSound (p p' : Pipeline StandIns TestCard κ) : Prop where
  audio : p'.audio = p.audio
  exchange : p'.exchange = p.exchange
  /-- The processors, and with them the interrupts they have counted. -/
  processors : p'.emulation.processors = p.emulation.processors
  registers : p'.emulation.board.registers = p.emulation.board.registers
  bus : p'.emulation.board.bus = p.emulation.board.bus
  sender : p'.emulation.sender = p.emulation.sender

/-- **Two runs that end alike:** with the same sound and the same reports, or with the same
    fault. -/
inductive SameRun : EStateM.Result Fault (Pipeline StandIns TestCard κ) (List FrameReport) →
    EStateM.Result Fault (Pipeline StandIns TestCard κ) (List FrameReport) → Prop
  | ok {reports reports' : List FrameReport} {s s' : Pipeline StandIns TestCard κ}
    (hreports : List.Forall₂ SameReport reports reports') (h : SameSound s s') :
    SameRun (.ok reports s) (.ok reports' s')
  | error (fault : Fault) {s s' : Pipeline StandIns TestCard κ} (h : SameSound s s') :
    SameRun (.error fault s) (.error fault s')

/-! ### One frame -/

/-- **Two pipelines beside each other,** between two frames. -/
structure Beside (p p' : Pipeline StandIns TestCard κ) : Prop where
  emulation : Emulation.Alike Timeless p.emulation p'.emulation
  sender : p'.emulation.sender = p.emulation.sender
  exchange : p'.exchange = p.exchange
  audio : p'.audio = p.audio
  rests : Rests p.emulation.sender p.exchange
  steady : ∃ cost, Steady cost p.emulation.renderer
  steady' : ∃ cost, Steady cost p'.emulation.renderer

theorem Beside.sameSound (h : Beside p p') : SameSound p p' :=
  ⟨h.audio, h.exchange, h.emulation.machine.processors, h.emulation.machine.registers,
    h.emulation.machine.bus, h.sender⟩

/-- Writes keep two pipelines beside each other. -/
theorem Beside.write (h : Beside p p') (w : Writes) : Beside (p.write w) (p'.write w) where
  emulation :=
    ⟨⟨h.emulation.machine.processors, congrArg w.registers h.emulation.machine.registers,
      h.emulation.machine.bus⟩, h.emulation.loop⟩
  sender := h.sender
  exchange := h.exchange
  audio := congrArg (·.mapControls w.controls) h.audio
  rests := h.rests
  steady := h.steady
  steady' := h.steady'

/-- What two frames that were made leave, if they went the same way up to the drawing. -/
theorem closed_alike {d d' : Draft} {e e' : Emulation StandIns TestCard} (x : Exchange)
    (hdraft : d.Alike d') (h : Emulation.Alike Timeless e e') (hsender : e'.sender = e.sender) :
    Emulation.Alike Timeless (e.closed d x) (e'.closed d' x) ∧
      (e'.closed d' x).sender = (e.closed d x).sender := by
  have hrebased : Emulation.rebased d' e'.processors = Emulation.rebased d e.processors := by
    rw [Emulation.rebased, Emulation.rebased, hdraft.mode,
      show e'.processors = e.processors from h.machine.processors]
  refine ⟨⟨⟨hrebased, h.machine.registers, ?_⟩, h.loop.flushCycle, ?_, h.loop.lastMode,
    h.loop.hint⟩, ?_⟩
  · show ({ e'.board.bus with buffers := Emulation.nextBuffers e'.sender x } : Bus) =
      { e.board.bus with buffers := Emulation.nextBuffers e.sender x }
    rw [hsender, show e'.board.bus = e.board.bus from h.machine.bus]
  · exact congrArg (· + 1) h.loop.frame
  · show (⟨Emulation.nextSpare e'.sender, true, e'.sender.published + 1⟩ : Sender) =
      ⟨Emulation.nextSpare e.sender, true, e.sender.published + 1⟩
    rw [hsender]

/-- The same frame is held on both sides. -/
theorem heldFrame_eq {e e' : Emulation StandIns TestCard} (h : Emulation.Alike Timeless e e') :
    e'.heldFrame = e.heldFrame := by
  rw [Emulation.heldFrame, Emulation.heldFrame, h.loop.frame,
    show e'.board.bus = e.board.bus from h.machine.bus]

/-- **One frame on both sides:** both go on beside each other, or stop with the same fault. -/
theorem Beside.step (h : Beside p p') :
    (∃ r r' s s', Pipeline.step p = .ok r s ∧ Pipeline.step p' = .ok r' s' ∧ SameReport r r' ∧
      Beside s s') ∨
    ∃ fault s s', Pipeline.step p = .error fault s ∧ Pipeline.step p' = .error fault s' ∧
      SameSound s s' := by
  obtain ⟨cost, hsteady⟩ := h.steady
  obtain ⟨cost', hsteady'⟩ := h.steady'
  obtain ⟨t, ht, hmade⟩ := produce_ok p.emulation hsteady
  obtain ⟨t', ht', hmade'⟩ := produce_ok p'.emulation hsteady'
  obtain ⟨hdraft, hprepared⟩ := h.emulation.prepare indistinct_timeless (fun h => h.registers)
    fun h => ⟨h.processors, h.registers, congrArg (·.beginFrame) h.bus⟩
  obtain ⟨hdrafts, hdrawn⟩ := drawn_alike indistinct_timeless
    (fun h _ _ => ⟨h.processors, h.registers, h.bus⟩) hdraft hprepared t t'
  replace ht : Steady cost (drawn p.emulation.prepare.1 t p.emulation.prepare.2).renderer := ht
  replace ht' : Steady cost' (drawn p'.emulation.prepare.1 t' p'.emulation.prepare.2).renderer :=
    ht'
  have hsender := (Emulation.sameFrame_produce hmade).sender
  have hsender' := (Emulation.sameFrame_produce hmade').sender
  -- From here on it does not matter how the frames were made.
  generalize drawnDraft p.emulation.prepare.1 p.emulation.prepare.2 = d at *
  generalize drawnDraft p'.emulation.prepare.1 p'.emulation.prepare.2 = d' at *
  generalize drawn p.emulation.prepare.1 t p.emulation.prepare.2 = e at *
  generalize drawn p'.emulation.prepare.1 t' p'.emulation.prepare.2 = e' at *
  have hsame : e'.sender = e.sender := hsender'.trans (h.sender.trans hsender.symm)
  have hrests : Rests e.sender p.exchange := hsender ▸ h.rests
  have hrests' : Rests e'.sender p'.exchange := by
    rw [hsame, h.exchange]
    exact hrests
  obtain ⟨hclosed, hnext⟩ := closed_alike p.exchange hdrafts hdrawn hsame
  -- The audio sides are the same, and so is the frame that they mix.
  cases hmixed : AudioCore.process e.heldFrame p.audio with
  | ok u c =>
    have hmixed' : AudioCore.process e'.heldFrame p'.audio = .ok () c := by
      rw [heldFrame_eq hdrawn, h.audio]
      exact hmixed
    obtain ⟨notices, hstep⟩ := Pipeline.step_ok hmade hrests hmixed
    obtain ⟨notices', hstep'⟩ := Pipeline.step_ok hmade' hrests' hmixed'
    rw [heldFrame_eq hdrawn, h.exchange] at hstep'
    refine .inl ⟨_, _, _, _, hstep, hstep', sameReport hdrafts hdrawn.loop _ _, ?_⟩
    exact ⟨hclosed, hnext, rfl, rfl, .back rfl _, ⟨cost, ht⟩, ⟨cost', ht'⟩⟩
  | error fault c =>
    have hmixed' : AudioCore.process e'.heldFrame p'.audio = .error fault c := by
      rw [heldFrame_eq hdrawn, h.audio]
      exact hmixed
    obtain ⟨notices, hstep⟩ := Pipeline.step_error hmade hrests hmixed
    obtain ⟨notices', hstep'⟩ := Pipeline.step_error hmade' hrests' hmixed'
    rw [h.exchange] at hstep'
    exact .inr ⟨fault, _, _, hstep, hstep', rfl, rfl, hclosed.machine.processors,
      hclosed.machine.registers, hclosed.machine.bus, hnext⟩

/-! ### Any number of frames -/

/-- **Any frames, with any writes in between,** end alike on both sides. -/
theorem Beside.play (h : Beside p p') (writes : List Writes) :
    SameRun (Pipeline.play writes p) (Pipeline.play writes p') := by
  induction writes generalizing p p' with
  | nil => exact .ok .nil h.sameSound
  | cons w rest ih =>
    rcases (h.write w).step with
      ⟨r, r', s, s', hstep, hstep', hreport, hnext⟩ | ⟨fault, s, s', hstep, hstep', hsound⟩
    · -- The rest goes on from two pipelines that are beside each other again.
      have hsame := ih hnext
      generalize hrest : Pipeline.play rest s = ending at hsame
      generalize hrest' : Pipeline.play rest s' = ending' at hsame
      cases hsame with
      | ok hreports hsound =>
        rw [Pipeline.play_cons_ok hstep hrest, Pipeline.play_cons_ok hstep' hrest']
        exact .ok (.cons hreport hreports) hsound
      | error fault hsound =>
        rw [Pipeline.play_cons_stops hstep hrest, Pipeline.play_cons_stops hstep' hrest']
        exact .error fault hsound
    · rw [Pipeline.play_cons_error hstep, Pipeline.play_cons_error hstep']
      exact .error fault hsound

/-! ### Pipelines on the bench -/

/-- What decides which frames are drawn: the policy, its cap and the frames of a profile, and what
    pictures cost. -/
structure Drawing where
  policy : Selection
  maxConsecutiveSkips : UInt32
  profileInterval : UInt32
  render : RenderCost

/-- A configuration with another choice of the frames that are drawn. -/
def Drawing.config (w : Drawing) (c : Config) : Config :=
  { c with
    skipPolicy := w.policy
    maxConsecutiveSkips := w.maxConsecutiveSkips
    profileInterval := w.profileInterval }

/-- Parts with other costs of pictures. -/
def Drawing.options (w : Drawing) (o : Options) : Options :=
  { o with render := w.render }

/-- Two new pipelines that draw differently are beside each other. -/
theorem beside_newPipeline (c : Config) (o : Options) (hfail : o.failAt = none) (w : Drawing)
    (player : Player) (look : FrameAudio → κ → κ) (seen : κ) :
    Beside (newPipeline c o player look seen)
      (newPipeline (w.config c) (w.options o) player look seen) where
  emulation := ⟨⟨rfl, rfl, rfl⟩, rfl, rfl, rfl, rfl⟩
  sender := rfl
  exchange := rfl
  audio := rfl
  rests := .first rfl
  steady := ⟨some o.render, hfail, rfl⟩
  steady' := ⟨some w.render, hfail, rfl⟩

/-- **Skipping is not heard.** Two pipelines on the bench whose configurations differ in what
    decides about drawing only, and whose pictures cost whatever they do, end alike after any frames
    with any writes in between. In lockstep they come to their end; a ring has to hold two frames
    for that. -/
theorem skipping_is_not_heard (c : Config) (o : Options) (hcheck : c.check = .ok ())
    (hfail : o.failAt = none) (w : Drawing) (look : FrameAudio → κ → κ) (seen : κ) :
    ∃ p p', Pipeline.build c (parts c o) look seen = .ok p ∧
      Pipeline.build (w.config c) (parts (w.config c) (w.options o)) look seen = .ok p' ∧
      ∀ writes, SameRun (Pipeline.play writes p) (Pipeline.play writes p') ∧
        (c.pacing = .lockstep →
          (c.strategy = .ring → c.ring.size.toNat ≤ 262144 ∧
            2 * c.frameLength ≤ c.ring.size.toNat) →
          ∃ reports s, Pipeline.play writes p = .ok reports s ∧
            reports.length = writes.length) := by
  have h := Config.checked hcheck
  obtain ⟨player, hplayer⟩ := exists_player h
  have hbuild : Pipeline.build c (parts c o) look seen = .ok (newPipeline c o player look seen) :=
    Pipeline.build_ok hcheck hplayer look seen
  -- The check does not look at what decides about drawing.
  have hcheck' : (w.config c).check = .ok () := hcheck
  refine ⟨newPipeline c o player look seen, newPipeline (w.config c) (w.options o) player look seen,
    hbuild, Pipeline.build_ok hcheck' hplayer look seen, fun writes => ?_⟩
  refine ⟨(beside_newPipeline c o hfail w player look seen).play writes, fun hpacing hring => ?_⟩
  -- That the run comes to its end is a matter of the player only, which draws nothing.
  obtain ⟨player', hplayer', L, hat⟩ := playerFor_ready h hring
  obtain rfl : player = player' := Except.ok.inj (hplayer.symm.trans hplayer')
  have hgoing : Going L [] (newPipeline c o player look seen) :=
    going_newPipeline hat hpacing hfail
  obtain ⟨reports, s, slots, hplay, hlength, -⟩ := hgoing.play (I := fun _ _ => True)
    (fun _ _ => trivial) (fun _ _ => trivial) trivial writes
  exact ⟨reports, s, hplay, hlength⟩

/-- The default configuration with every frame drawn at a high cost, against its own policy. -/
theorem drawing_every_frame_is_not_heard :
    ∃ p p' : Pipeline StandIns TestCard (List FrameAudio),
      Pipeline.build {} (parts {} {}) (fun a seen => seen ++ [a]) [] = .ok p ∧
      Pipeline.build { skipPolicy := .pattern .none } (parts { skipPolicy := .pattern .none }
        { render := { base := 20000 } }) (fun a seen => seen ++ [a]) [] = .ok p' ∧
      ∀ writes, SameRun (Pipeline.play writes p) (Pipeline.play writes p') ∧
        ∃ reports s, Pipeline.play writes p = .ok reports s ∧
          reports.length = writes.length := by
  obtain ⟨p, p', hbuild, hbuild', hsame⟩ := skipping_is_not_heard {} {} rfl rfl
    ⟨.pattern .none, 4, 300, { base := 20000 }⟩ (fun (a : FrameAudio) seen => seen ++ [a]) []
  refine ⟨p, p', hbuild, hbuild', fun writes => ⟨(hsame writes).1, ?_⟩⟩
  exact (hsame writes).2 rfl fun _ => by decide

end ConsolePipeline.Bench
