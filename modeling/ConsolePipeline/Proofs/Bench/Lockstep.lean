import ConsolePipeline.Bench.Assembly
import ConsolePipeline.Proofs.Bench.StandIns
import ConsolePipeline.Proofs.Machine.Frames
import ConsolePipeline.Proofs.Machine.Lockstep

namespace ConsolePipeline.Bench

open Handoff Handoff.Rendezvous Machine Mixing Playback Sound Stereo Video

/-!
# The bench in lockstep

A pipeline on the bench whose test card is not set to fail makes every frame. If its player keeps up
in lockstep, it mixes every frame, too, so that a run of any length comes to its end.

* `SameReport` — two reports on the same frame.
* `Going` — a pipeline between two frames of such a run; `Going.mixed` — one frame more.
* `Going.play` — any frames with any writes in between.
* `newPipeline` — the pipeline of a configuration; `going_newPipeline` — it can go on.
-/

/-- Two reports of which all but times and decision is the same. -/
structure SameReport (r r' : FrameReport) : Prop where
  frame : r'.frame = r.frame
  mode : r'.mode = r.mode
  modeChanged : r'.modeChanged = r.modeChanged
  samples : r'.samples = r.samples
  lineInterrupts : r'.lineInterrupts = r.lineInterrupts
  vblankRaised : r'.vblankRaised = r.vblankRaised

/-- Drafts of the same frame are reported the same, whenever that is. -/
theorem sameReport {d d' : Draft} {l l' : Loop} (hdraft : d.Alike d') (h : l.Alike l')
    (now now' : Instant) :
    SameReport (Emulation.reportOn d now l) (Emulation.reportOn d' now' l') :=
  ⟨h.frame, hdraft.mode, hdraft.modeChanged, hdraft.samples, hdraft.lineInterrupts,
    hdraft.vblankRaised⟩

variable {κ : Type} {len : Nat} {heard : List (Array Word) → List Word}
  {L : Lockstep Player.rig len heard} {frames : List (Array Word)}
  {p : Pipeline StandIns TestCard κ}

/-- **A pipeline on the bench,** between two frames in lockstep. -/
structure Going (L : Lockstep Player.rig len heard) (frames : List (Array Word))
    (p : Pipeline StandIns TestCard κ) : Prop where
  audio : AudioCore.InStep L frames p.audio
  rests : Rests p.emulation.sender p.exchange
  steady : ∃ cost, Steady cost p.emulation.renderer

theorem Going.write (h : Going L frames p) (w : Writes) : Going L frames (p.write w) :=
  ⟨⟨h.audio.player, h.audio.frameLength, h.audio.pacing⟩, h.rests, h.steady⟩

/-- The words that the next frame is mixed to. -/
def nextSlot (p : Pipeline StandIns TestCard κ) (a : FrameAudio) : Array Word :=
  (p.audio.desk.mixer.mix (some a) p.audio.controls p.audio.frameLength).words

/-- A side that has made a frame, and that frame mixed into the next slot: what is left of them. -/
structure Mixed (L : Lockstep Player.rig len heard) (frames : List (Array Word))
    (p : Pipeline StandIns TestCard κ) (d : Draft) (e : Emulation StandIns TestCard)
    (s : Pipeline StandIns TestCard κ) : Prop where
  made : Emulation.produce p.emulation = .ok d e
  step : Pipeline.step p = .ok (Emulation.reportOn d e.board.now e.loop) s
  emulation : s.emulation = e.closed d p.exchange
  exchange : s.exchange = returning e.heldFrame
  mixer : s.audio.desk.mixer =
    (p.audio.desk.mixer.mix (some e.heldFrame) p.audio.controls p.audio.frameLength).mixer
  controls : s.audio.controls = p.audio.controls
  going : Going L (frames ++ [nextSlot p e.heldFrame]) s

/-- What has been made is the frame that was prepared, drawn. -/
theorem Mixed.drawn {d : Draft} {e : Emulation StandIns TestCard}
    {s : Pipeline StandIns TestCard κ} {cost : Option RenderCost} (h : Mixed L frames p d e s)
    (hsteady : Steady cost p.emulation.renderer) :
    ∃ t, Steady cost t ∧ d = drawnDraft p.emulation.prepare.1 p.emulation.prepare.2 ∧
      e = Bench.drawn p.emulation.prepare.1 t p.emulation.prepare.2 := by
  obtain ⟨t, ht, hmade⟩ := produce_ok p.emulation hsteady
  obtain ⟨hdraft, hdrawn⟩ := EStateM.Result.ok.inj (h.made.symm.trans hmade)
  exact ⟨t, ht, hdraft, hdrawn⟩

/-- **One frame more** is made and mixed. -/
theorem Going.mixed {cost : Option RenderCost} (h : Going L frames p)
    (hsteady : Steady cost p.emulation.renderer) :
    ∃ t s, Steady cost t ∧
      Mixed L frames p (drawnDraft p.emulation.prepare.1 p.emulation.prepare.2)
        (drawn p.emulation.prepare.1 t p.emulation.prepare.2) s := by
  obtain ⟨t, ht, hmade⟩ := produce_ok p.emulation hsteady
  have hsender := (Emulation.sameFrame_produce hmade).sender
  obtain ⟨c, hmixed, hstep, hmixer⟩ := AudioCore.process_ok h.audio
    (drawn p.emulation.prepare.1 t p.emulation.prepare.2).heldFrame
  obtain ⟨notices, hrun⟩ := Pipeline.step_ok hmade (hsender ▸ h.rests) hmixed
  -- Mixing writes to the mixer, but not to the controls that it reads.
  have hcontrols : c.controls = p.audio.controls := AudioCore.controls_process hmixed
  rw [← h.audio.frameLength] at hmixer
  refine ⟨t, _, ht, hmade, hrun, rfl, rfl, hmixer, hcontrols,
    ⟨?_, hstep.frameLength, hstep.pacing⟩, .back rfl _, cost, ht⟩
  rw [nextSlot, h.audio.frameLength]
  exact hstep.player

/-- **Any frames with any writes in between** come to their end, and keep what each write and each
    frame keeps. -/
theorem Going.play {I : List (Array Word) → Pipeline StandIns TestCard κ → Prop}
    (hwrite : ∀ {frames p}, I frames p → ∀ w, I frames (p.write w))
    (hframe : ∀ {frames p d e s}, Mixed L frames p d e s → I frames p →
      I (frames ++ [nextSlot p e.heldFrame]) s)
    (h : Going L frames p) (hI : I frames p) (writes : List Writes) :
    ∃ reports s slots, Pipeline.play writes p = .ok reports s ∧
      reports.length = writes.length ∧ slots.length = writes.length ∧
      Going L (frames ++ slots) s ∧ I (frames ++ slots) s := by
  induction writes generalizing frames p with
  | nil =>
    rw [← List.append_nil frames] at h hI
    exact ⟨[], p, [], rfl, rfl, rfl, h, hI⟩
  | cons w rest ih =>
    obtain ⟨cost, hsteady⟩ := h.steady
    obtain ⟨t, s, -, hmixed⟩ := (h.write w).mixed hsteady
    obtain ⟨reports, s', slots, hrest, hreports, hslots, hgoing, hI⟩ :=
      ih hmixed.going (hframe hmixed (hwrite hI w))
    rw [List.append_assoc] at hgoing hI
    exact ⟨_, s', _, Pipeline.play_cons_ok hmixed.step hrest, congrArg (· + 1) hreports,
      congrArg (· + 1) hslots, hgoing, hI⟩

/-- A new pipeline on the bench, whatever its player. -/
def newPipeline (c : Config) (o : Options) (player : Player) (look : FrameAudio → κ → κ)
    (seen : κ) : Pipeline StandIns TestCard κ where
  emulation := Pipeline.emulationFor c (parts c o)
  audio := Pipeline.audioFor c player look seen
  notices := #[Pipeline.readyEntry c]

/-- A new pipeline on the bench can go on, if its player keeps up. -/
theorem going_newPipeline {c : Config} {o : Options} {player : Player}
    {look : FrameAudio → κ → κ} {seen : κ} {heard : List (Array Word) → List Word}
    {L : Lockstep Player.rig c.frameLength heard} (hat : L.At (.rest []) player)
    (hpacing : c.pacing = .lockstep) (hfail : o.failAt = none) :
    Going L [] (newPipeline c o player look seen) :=
  ⟨⟨hat, rfl, hpacing⟩, .first rfl, some o.render, hfail, rfl⟩

end ConsolePipeline.Bench
