import ConsolePipeline.Bench.Assembly
import ConsolePipeline.Proofs.Bench.StandIns
import ConsolePipeline.Proofs.Machine.Restart
import ConsolePipeline.Proofs.Machine.RingLimits
import ConsolePipeline.Proofs.Playback.Books

namespace ConsolePipeline

open Handoff Handoff.Rendezvous Mixing Playback Sound Stereo Video

/-!
# What the parts of a pipeline have counted

The frame loop, the skip controller, the audio side, the mixer and the player each count the frames
that come by. Between two frames all of them have counted the same ones, namely those since the last
reset. Only the count of frames handed over goes on through a reset.

* `Controller.decisions_decide`, `Mixer.frames_mix`, `MixerStats.Ordered.mix` — one frame more.
* `AudioStats.Numbered`, `AudioCore.process_counts` — the audio side, frame after frame.
* `Pipeline.Counted` — a pipeline whose parts agree; `Counted.step`, `Counted.reset` — one frame
  more, and back to the start.
* `Request`, `Pipeline.serve` — any frames and resets; `framesSince` — the frames since the last
  reset.
* `Pipeline.Able` — a pipeline that can go on; `Able.serve`, `Able.sessions` — any requests, and any
  sessions of frames.
* `PipelineStats.Consistent`, `counters_agree_iff` — what the counters show, and when they agree on
  the frames handed over as well.
-/

/-! ### One frame more -/

namespace FrameSkip

/-- Frames that were decided on. -/
def Stats.decisions (s : Stats) : Nat :=
  s.rendered + s.skipped

/-- A frame is rendered or skipped, and never both. -/
theorem Controller.decisions_decide (c : Controller) (frame : Nat) (force : Bool) :
    (c.decide frame force).2.stats.decisions = c.stats.decisions + 1 := by
  show c.stats.rendered + (if (c.choose frame force).render then 1 else 0) +
    (c.stats.skipped + if (c.choose frame force).render then 0 else 1) = _
  rw [Stats.decisions]
  split <;> omega

end FrameSkip

namespace Mixing

/-- **Missing frames are among the faded ones,** and those among all frames. -/
structure MixerStats.Ordered (s : MixerStats) : Prop where
  missing : s.missingFrames ≤ s.fadedFrames
  faded : s.fadedFrames ≤ s.frames

namespace Mixer

variable {m : Mixer} {length : Nat}

/-- Whatever arrived, it is one frame. -/
theorem frames_mix (m : Mixer) (frame : Option FrameAudio) (controls : Controls) (length : Nat) :
    (m.mix frame controls length).mixer.stats.frames = m.stats.frames + 1 := by
  simp only [mix]
  split
  · rfl
  · split
    · simp only [mixChips]
      split <;> rfl
    · rfl

/-- A frame that is missing is replaced, and one that is replaced is a frame. -/
theorem ordered_mix (h : m.stats.Ordered) (frame : Option FrameAudio) (controls : Controls)
    (length : Nat) : (m.mix frame controls length).mixer.stats.Ordered := by
  have hreplaced := Nat.succ_le_succ h.faded
  simp only [mix]
  split
  · exact ⟨Nat.succ_le_succ h.missing, hreplaced⟩
  · split
    · simp only [mixChips]
      split
      · exact ⟨Nat.le_succ_of_le h.missing, hreplaced⟩
      · exact ⟨h.missing, Nat.le_succ_of_le h.faded⟩
    · exact ⟨Nat.le_succ_of_le h.missing, hreplaced⟩

end Mixer

namespace Desk

variable {α : Type} {len : Nat} {d d' : Desk}

/-- What keeps the books of the player in order does so on the desk. -/
theorem booked_onPlayer {act : Run Player α} {a : α}
    (hact : Run.Preserves (Player.Booked len) act) (hd : d.player.Booked len)
    (h : onPlayer act d = .ok a d') : d'.player.Booked len ∧ d'.mixer = d.mixer := by
  obtain ⟨p, hrun, hplayer, hmixer⟩ := onPlayer_inv h
  rw [hplayer]
  exact ⟨(hact _ _ _ hd hrun).collected, hmixer⟩

theorem booked_submit {frame : Option FrameAudio} {controls : Controls}
    (hd : d.player.Booked len) (h : submit frame controls d = .ok () d') :
    d'.player.Booked len ∧ ∃ n, d'.mixer = (d.mixer.mix frame controls n).mixer := by
  obtain ⟨place, p₁, p₂, p₃, hacquire, hwrite, hcommit, hplayer, hmixer⟩ := submit_inv h
  have hp₁ := (Player.booked_acquire _ _ _ hd hacquire).collected
  have hp₂ := (Player.booked_write _ _ _ _ hp₁ hwrite).collected
  rw [hplayer]
  exact ⟨(Player.booked_commit _ _ _ _ hp₂ hcommit).collected, _, hmixer⟩

end Desk

end Mixing

namespace Machine

/-! ### The audio side -/

/-- **Frames that came one after the other** from the first one on. -/
structure AudioStats.Numbered (n : Nat) (s : AudioStats) : Prop where
  framesMixed : s.framesMixed = n
  sequenceGaps : s.sequenceGaps = 0
  lastFrame : s.lastFrame = if n = 0 then none else some (n - 1)

namespace AudioCore

variable {κ : Type} {len n : Nat} {c c' : AudioCore κ}

/-- The next frame is the one that is expected. -/
theorem checkSequence_numbered (h : c.stats.Numbered n) : checkSequence n c = .ok () c := by
  rw [checkSequence, Run.get_bind, h.lastFrame]
  cases n with
  | zero => rfl
  | succ n => exact congrFun (if_neg fun hgap => hgap rfl) c

/-- **The audio side between two frames:** it has mixed so many, and its books are in order. -/
structure Counted (len n : Nat) (c : AudioCore κ) : Prop where
  stats : c.stats.Numbered n
  mixed : c.desk.mixer.stats.frames = n
  ordered : c.desk.mixer.stats.Ordered
  booked : c.desk.player.Booked len

theorem counted_keepPace (hc : c.Counted len n) (h : keepPace c = .ok () c') :
    c'.Counted len n := by
  rw [keepPace, Run.get_bind, Run.get_bind] at h
  split at h
  · obtain ⟨desk, hadvance, rfl⟩ := onDesk_inv h
    obtain ⟨hbooked, hmixer⟩ := Desk.booked_onPlayer (Player.booked_advance _) hc.booked hadvance
    refine ⟨hc.stats, ?_, ?_, hbooked⟩
    · rw [hmixer]
      exact hc.mixed
    · rw [hmixer]
      exact hc.ordered
  · cases h
    exact hc

/-- **One frame more.** -/
theorem process_counts {a : FrameAudio} (ha : a.frame = n) (hc : c.Counted len n)
    (h : process a c = .ok () c') : c'.Counted len (n + 1) := by
  rw [process] at h
  obtain ⟨_, c₁, hpace, h⟩ := Run.bind_inv h
  have hc₁ := counted_keepPace hc hpace
  rw [ha, Run.bind_ok (checkSequence_numbered hc₁.stats), Run.modify_bind, Run.get_bind] at h
  obtain ⟨_, c₂, hdesk, hcount⟩ := Run.bind_inv h
  cases hcount
  obtain ⟨d₂, hboth, rfl⟩ := onDesk_inv hdesk
  obtain ⟨_, d₁, hsubmit, hservice⟩ := Run.bind_inv hboth
  -- One frame is submitted, and what is pending is served.
  obtain ⟨hbooked, length, hmixer⟩ := Desk.booked_submit hc₁.booked hsubmit
  obtain ⟨hbooked, hsame⟩ := Desk.booked_onPlayer Player.booked_service hbooked hservice
  have hmixer : d₂.mixer = (c₁.desk.mixer.mix (some a) c₁.controls length).mixer :=
    hsame.trans hmixer
  refine ⟨⟨congrArg (· + 1) hc₁.stats.framesMixed, hc₁.stats.sequenceGaps, ?_⟩, ?_, ?_, hbooked⟩
  · rw [if_neg (Nat.succ_ne_zero n), Nat.add_sub_cancel]
    rfl
  · show d₂.mixer.stats.frames = _
    rw [hmixer, Mixer.frames_mix, hc₁.mixed]
  · show d₂.mixer.stats.Ordered
    rw [hmixer]
    exact Mixer.ordered_mix hc₁.ordered _ _ _

/-- To collect the notices changes nothing that is counted. -/
theorem Counted.collected (hc : c.Counted len n) : c.collected.Counted len n :=
  ⟨hc.stats, hc.mixed, hc.ordered, hc.booked⟩

/-- After a reset no frame has been mixed; what the player has counted stays. -/
theorem Counted.reset (hc : c.Counted len n) : c.reset.Counted len 0 :=
  ⟨⟨rfl, rfl, rfl⟩, rfl, ⟨Nat.le_refl 0, Nat.le_refl 0⟩, hc.booked⟩

end AudioCore

/-! ### The emulation side -/

namespace Emulation

variable {P R : Type} [Renderer R] {e e' : Emulation P R} {d d' : Draft}

/-- To draw changes nothing that is counted. -/
theorem stats_render {mode : Mode} {us : UInt32} (h : render mode e = .ok us e') :
    e'.loop.skip.stats = e.loop.skip.stats := by
  obtain ⟨_, _, rfl⟩ := render_inv h
  rfl

theorem stats_draw (h : draw d e = .ok d' e') : e'.loop.skip.stats = e.loop.skip.stats := by
  rw [draw] at h
  dsimp only at h
  split at h
  · obtain ⟨_, _, hrender, h⟩ := Run.bind_inv h
    cases h
    exact stats_render hrender
  · cases h
    rfl

/-- **To make a frame is to decide on it once.** -/
theorem decisions_produce [Processors P] (h : produce e = .ok d e') :
    e'.loop.skip.stats.decisions = e.loop.skip.stats.decisions + 1 := by
  rw [produce_eq] at h
  have hdecided := congrArg (·.2.stats) (prepare_decided e).1
  rw [stats_draw h]
  exact (congrArg FrameSkip.Stats.decisions hdecided).trans
    (e.loop.skip.decisions_decide e.loop.frame _)

end Emulation

/-! ### Both sides -/

namespace Pipeline

variable {P R κ : Type} {len n : Nat} {p s : Pipeline P R κ}

/-- **A pipeline between two frames,** whose parts have all counted so many frames. -/
structure Counted (len n : Nat) (p : Pipeline P R κ) : Prop where
  rests : Rests p.emulation.sender p.exchange
  frame : p.emulation.loop.frame = n
  decisions : p.emulation.loop.skip.stats.decisions = n
  audio : p.audio.Counted len n

variable [Processors P]

/-- **Back to the start:** no part has counted a frame. -/
theorem Counted.restarted {sender : Sender} (h : p.Counted len n)
    (hfree : sender.inFlight = false) (notices : Array Log.Entry) :
    (restarted sender notices p).Counted len 0 :=
  ⟨.first hfree, rfl, rfl, h.audio.collected.reset.collected⟩

variable [Renderer R]

/-- What a frame in lockstep has done on both sides, put together. -/
theorem step_closed {r : FrameReport} (h : Rests p.emulation.sender p.exchange)
    (hstep : step p = .ok r s) :
    ∃ d e c, Emulation.produce p.emulation = .ok d e ∧
      AudioCore.process e.heldFrame p.audio = .ok () c ∧ s.emulation = e.closed d p.exchange ∧
      s.exchange = returning e.heldFrame ∧ s.audio = c.collected := by
  obtain ⟨d, e, e₂, hframe⟩ := step_inv h hstep
  obtain ⟨c, hmixed, -⟩ := hframe.mixed
  have hsender := (Emulation.sameFrame_produce hframe.made).sender
  obtain ⟨notices, hrun⟩ := step_ok hframe.made (hsender ▸ h) hmixed
  cases hstep.symm.trans hrun
  exact ⟨d, e, c, hframe.made, hmixed, rfl, rfl, rfl⟩

/-- **One frame more,** for each of the parts. -/
theorem Counted.step {r : FrameReport} (h : p.Counted len n) (hstep : step p = .ok r s) :
    s.Counted len (n + 1) ∧
      s.emulation.sender.published = p.emulation.sender.published + 1 := by
  obtain ⟨d, e, c, hmade, hmixed, hemulation, hexchange, haudio⟩ := step_closed h.rests hstep
  have hsame := Emulation.sameFrame_produce hmade
  have hframe : e.loop.frame = n := hsame.frame.trans h.frame
  refine ⟨⟨?_, ?_, ?_, ?_⟩, ?_⟩
  · rw [hemulation, hexchange]
    exact .back rfl _
  · rw [hemulation]
    exact congrArg (· + 1) hframe
  · rw [hemulation]
    exact (Emulation.decisions_produce hmade).trans (congrArg (· + 1) h.decisions)
  · rw [haudio]
    exact (AudioCore.process_counts hframe h.audio hmixed).collected
  · rw [hemulation]
    show e.sender.published + 1 = _
    rw [hsame.sender]

end Pipeline

/-! ### Renderers that do not fail -/

/-- **A renderer that draws every line,** as long as it is in one of these states. -/
structure Draws {R : Type} [Renderer R] (Good : R → Prop) : Prop where
  configure : ∀ {r}, Good r → ∀ width height, Good (Renderer.configure width height r)
  renderLine : ∀ {r}, Good r → ∀ line now, ∃ r' now',
    Renderer.renderLine line (r, now) = .ok () (r', now') ∧ Good r'

namespace Draws

variable {P R : Type} [Renderer R] {Good : R → Prop}

theorem renderLines (hdraws : Draws Good) {r : R} (hr : Good r) (n line : Nat) (now : Instant) :
    ∃ r' now', renderLines n line (r, now) = .ok () (r', now') ∧ Good r' := by
  induction n generalizing r line now with
  | zero => exact ⟨r, now, rfl, hr⟩
  | succ n ih =>
    obtain ⟨r₁, now₁, hfirst, hr₁⟩ := hdraws.renderLine hr line now
    obtain ⟨r₂, now₂, hrest, hr₂⟩ := ih hr₁ (line + 1) now₁
    refine ⟨r₂, now₂, ?_, hr₂⟩
    rw [Machine.renderLines, Run.bind_ok hfirst]
    exact hrest

theorem prepare [Processors P] (hdraws : Draws Good) {e : Emulation P R} (he : Good e.renderer) :
    Good e.prepare.2.renderer := by
  have hentered :
      Good (Emulation.enterMode (Mode.sample e.board.registers) e).2.renderer := by
    simp only [Emulation.enterMode]
    split
    · exact he
    · split
      · exact he
      · exact hdraws.configure he _ _
  exact hentered

theorem draw (hdraws : Draws Good) {e : Emulation P R} (he : Good e.renderer) (d : Draft) :
    ∃ d' e', Emulation.draw d e = .ok d' e' ∧ Good e'.renderer := by
  rw [Emulation.draw]
  split
  · obtain ⟨r, now, hlines, hr⟩ := hdraws.renderLines he d.mode.height 0 e.board.now
    have hrender : ∃ us e', Emulation.render d.mode e = .ok us e' ∧ e'.renderer = r := by
      rw [Emulation.render, Run.get_bind, Emulation.onRenderer,
        Run.bind_ok (Run.within_ok (by exact hlines))]
      exact ⟨_, _, rfl, rfl⟩
    obtain ⟨us, e', hrender, rfl⟩ := hrender
    rw [Run.bind_ok hrender]
    exact ⟨_, _, rfl, hr⟩
  · exact ⟨_, _, rfl, he⟩

/-- **Every frame is made.** -/
theorem produce [Processors P] (hdraws : Draws Good) {e : Emulation P R} (he : Good e.renderer) :
    ∃ d e', Emulation.produce e = .ok d e' ∧ Good e'.renderer := by
  rw [Emulation.produce_eq]
  exact hdraws.draw (hdraws.prepare he) e.prepare.1

end Draws

/-! ### Any frames and resets -/

/-- What is asked of a pipeline: a frame in lockstep, or a reset. -/
inductive Request
  | step
  | reset
  deriving DecidableEq, Repr, Inhabited

/-- Frames since the last reset, if there have been `n` before these requests. -/
def framesAfter : (n : Nat) → List Request → Nat
  | n, [] => n
  | n, .step :: rest => framesAfter (n + 1) rest
  | _, .reset :: rest => framesAfter 0 rest

/-- **Frames since the last reset.** -/
def framesSince (requests : List Request) : Nat :=
  framesAfter 0 requests

theorem framesAfter_le (n : Nat) (requests : List Request) :
    framesAfter n requests ≤ n + requests.count .step := by
  induction requests generalizing n with
  | nil => exact Nat.le_refl n
  | cons request rest ih =>
    cases request with
    | step =>
      have hrest := ih (n + 1)
      rw [framesAfter, List.count_cons_self]
      omega
    | reset =>
      have hrest := ih 0
      rw [framesAfter, List.count_cons_of_ne (by decide)]
      omega

/-- With frames before, all are since the last reset only if there is none. -/
theorem framesAfter_eq_iff {n : Nat} (hn : 0 < n) (requests : List Request) :
    framesAfter n requests = n + requests.count .step ↔ ∀ request ∈ requests, request = .step := by
  induction requests generalizing n with
  | nil => simp [framesAfter]
  | cons request rest ih =>
    cases request with
    | step =>
      have hsum : n + (rest.count .step + 1) = n + 1 + rest.count .step := by omega
      rw [framesAfter, List.count_cons_self, hsum, ih (Nat.succ_pos n), List.forall_mem_cons]
      exact (and_iff_right rfl).symm
    | reset =>
      -- The frames before are not since this reset, and those after it do not make up for them.
      have hrest := framesAfter_le 0 rest
      rw [framesAfter, List.count_cons_of_ne (by decide), List.forall_mem_cons]
      constructor
      · intro h
        omega
      · rintro ⟨h, -⟩
        cases h

/-- **All frames are since the last reset** exactly if no reset has followed a frame. -/
theorem framesSince_eq_count_iff (requests : List Request) :
    framesSince requests = requests.count .step ↔
      requests.Pairwise fun earlier later => earlier = .step → later = .step := by
  rw [framesSince]
  induction requests with
  | nil => simp [framesAfter]
  | cons request rest ih =>
    cases request with
    | step =>
      -- With one frame on the count, only a later reset can lose it.
      have hrest := framesAfter_eq_iff Nat.one_pos rest
      rw [framesAfter, List.count_cons_self, List.pairwise_cons, Nat.add_comm (rest.count _), hrest]
      constructor
      · intro h
        refine ⟨fun later hlater _ => h later hlater, ?_⟩
        exact List.pairwise_of_forall_mem_list fun _ _ later hlater _ => h later hlater
      · rintro ⟨h, -⟩ later hlater
        exact h later hlater rfl
    | reset =>
      rw [framesAfter, List.count_cons_of_ne (by decide), List.pairwise_cons, ih]
      constructor
      · intro h
        exact ⟨fun _ _ hstep => (by cases hstep), h⟩
      · exact And.right

namespace Pipeline

variable {P R κ : Type} [Processors P] [Renderer R] {len n : Nat} {p s : Pipeline P R κ}

/-- **Serve requests** one after the other. -/
def serve : List Request → Run (Pipeline P R κ) Unit
  | [] => return
  | .step :: rest => do
    let _ ← step
    serve rest
  | .reset :: rest => do
    reset
    serve rest

/-- **What the parts have counted** once requests have been served: the frames since the last reset,
    and of those handed over all there have been. -/
theorem Counted.serve (h : p.Counted len n) (requests : List Request)
    (hserve : serve requests p = .ok () s) :
    s.Counted len (framesAfter n requests) ∧
      s.emulation.sender.published = p.emulation.sender.published + requests.count .step := by
  -- By induction on the requests: a frame counts in both ways, a reset takes back one of the
  -- counts.
  induction requests generalizing p n with
  | nil =>
    cases hserve
    exact ⟨h, rfl⟩
  | cons request rest ih =>
    cases request with
    | step =>
      obtain ⟨r, s₁, hstep, hrest⟩ := Run.bind_inv hserve
      obtain ⟨hnext, hpublished⟩ := h.step hstep
      obtain ⟨hcounted, htotal⟩ := ih hnext hrest
      refine ⟨hcounted, ?_⟩
      rw [htotal, hpublished, List.count_cons_self]
      omega
    | reset =>
      obtain ⟨_, s₁, hreset, hrest⟩ := Run.bind_inv hserve
      obtain ⟨sender, notices, hrun, hfree, hpublished, -⟩ := reset_ok h.rests
      cases hreset.symm.trans hrun
      obtain ⟨hcounted, htotal⟩ := ih (h.restarted hfree notices) hrest
      refine ⟨hcounted, ?_⟩
      rw [htotal, List.count_cons_of_ne (by decide)]
      exact congrArg (· + _) hpublished

end Pipeline

/-! ### Requests that are served -/

namespace Pipeline

variable {P R κ : Type} [Processors P] {len : Nat} {heard : List (Array Word) → List Word}
  {L : Lockstep Player.rig len heard} {Good : R → Prop} {p : Pipeline P R κ}

/-- **A pipeline that can go on:** its player keeps up, and its renderer draws. -/
structure Able (L : Lockstep Player.rig len heard) (Good : R → Prop) (p : Pipeline P R κ) : Prop
    where
  rests : Rests p.emulation.sender p.exchange
  audio : ∃ frames, AudioCore.InStep L frames p.audio
  renderer : Good p.emulation.renderer

theorem Able.reset (h : Able L Good p) : ∃ s, reset p = .ok () s ∧ Able L Good s := by
  obtain ⟨sender, notices, hrun, hfree, -⟩ := reset_ok h.rests
  obtain ⟨frames, hstep⟩ := h.audio
  exact ⟨_, hrun, .first hfree, ⟨frames, hstep.player, hstep.frameLength, hstep.pacing⟩,
    h.renderer⟩

variable [Renderer R]

theorem Able.step (hdraws : Draws Good) (h : Able L Good p) :
    ∃ r s, step p = .ok r s ∧ Able L Good s := by
  obtain ⟨d, e, hmade, hgood⟩ := hdraws.produce h.renderer
  have hsender := (Emulation.sameFrame_produce hmade).sender
  obtain ⟨frames, hstep⟩ := h.audio
  obtain ⟨c, hmixed, hnext, -⟩ := AudioCore.process_ok hstep e.heldFrame
  obtain ⟨notices, hrun⟩ := step_ok hmade (hsender ▸ h.rests) hmixed
  exact ⟨_, _, hrun, .back rfl _, ⟨_, hnext.player, hnext.frameLength, hnext.pacing⟩, hgood⟩

/-- **Any requests are served.** -/
theorem Able.serve (hdraws : Draws Good) (h : Able L Good p) (requests : List Request) :
    ∃ s, serve requests p = .ok () s := by
  induction requests generalizing p with
  | nil => exact ⟨p, rfl⟩
  | cons request rest ih =>
    cases request with
    | step =>
      obtain ⟨r, s₁, hstep, hnext⟩ := h.step hdraws
      obtain ⟨s, hrest⟩ := ih hnext
      exact ⟨s, (Run.bind_ok hstep).trans hrest⟩
    | reset =>
      obtain ⟨s₁, hreset, hnext⟩ := h.reset
      obtain ⟨s, hrest⟩ := ih hnext
      exact ⟨s, (Run.bind_ok hreset).trans hrest⟩

omit [Processors P] [Renderer R] in
/-- A write changes nothing that matters for this. -/
theorem Able.write (h : Able L Good p) (w : Writes) : Able L Good (p.write w) := by
  obtain ⟨frames, haudio⟩ := h.audio
  exact ⟨h.rests, ⟨frames, haudio.player, haudio.frameLength, haudio.pacing⟩, h.renderer⟩

/-- **Any frames are played.** -/
theorem Able.play (hdraws : Draws Good) (h : Able L Good p) (writes : List Writes) :
    ∃ reports s, play writes p = .ok reports s ∧ Able L Good s := by
  induction writes generalizing p with
  | nil => exact ⟨[], p, rfl, h⟩
  | cons w rest ih =>
    obtain ⟨r, s₁, hstep, hnext⟩ := (h.write w).step hdraws
    obtain ⟨reports, s, hrest, hable⟩ := ih hnext
    exact ⟨r :: reports, s, play_cons_ok hstep hrest, hable⟩

/-- **Sessions:** frames in lockstep and then a reset, any number of times. -/
def sessions : List (List Writes) → Run (Pipeline P R κ) Unit
  | [] => return
  | writes :: rest => do
    let _ ← play writes
    reset
    sessions rest

/-- **And any sessions.** -/
theorem Able.sessions (hdraws : Draws Good) (h : Able L Good p) (earlier : List (List Writes)) :
    ∃ b, sessions earlier p = .ok () b ∧ Able L Good b := by
  induction earlier generalizing p with
  | nil => exact ⟨p, rfl, h⟩
  | cons writes rest ih =>
    obtain ⟨reports, s, hplay, hplayed⟩ := h.play hdraws writes
    obtain ⟨s₁, hreset, hready⟩ := hplayed.reset
    obtain ⟨b, hrest, hable⟩ := ih hready
    refine ⟨b, ?_, hable⟩
    rw [Pipeline.sessions, Run.bind_ok hplay, Run.bind_ok hreset]
    exact hrest

end Pipeline

/-! ### What the counters show -/

/-- **Counters that agree** on the frames since the last reset, each of which is committed in `len`
    words. The frames handed over are not compared. -/
structure PipelineStats.Consistent (len : Nat) (st : PipelineStats) : Prop where
  framesMixed : st.audio.framesMixed = st.frames
  mixerFrames : st.mixer.frames = st.frames
  decisions : st.skip.rendered + st.skip.skipped = st.frames
  sequenceGaps : st.audio.sequenceGaps = 0
  lastFrame : st.audio.lastFrame = if st.frames = 0 then none else some (st.frames - 1)
  missing : st.mixer.missingFrames ≤ st.mixer.fadedFrames
  faded : st.mixer.fadedFrames ≤ st.mixer.frames
  samplesCommitted : st.buffers.samplesCommitted = st.buffers.commits * len

namespace Pipeline

variable {P R κ : Type} {len n : Nat} {p : Pipeline P R κ}

/-- A pipeline without frames has counted none. -/
theorem counted_new {c : Config} {player : Player} (parts : Parts P R)
    (hplayer : playerFor c = .ok player) (look : FrameAudio → κ → κ) (seen : κ)
    (notices : Array Log.Entry) :
    Counted c.frameLength 0 (⟨emulationFor c parts, {}, audioFor c player look seen, notices⟩ :
      Pipeline P R κ) :=
  ⟨.first rfl, rfl, rfl, ⟨rfl, rfl, rfl⟩, rfl, ⟨Nat.le_refl 0, Nat.le_refl 0⟩,
    Player.booked_new hplayer⟩

/-- Parts that have counted the same show it. -/
theorem Counted.consistent (h : p.Counted len n) : p.stats.Consistent len where
  framesMixed := h.audio.stats.framesMixed.trans h.frame.symm
  mixerFrames := h.audio.mixed.trans h.frame.symm
  decisions := h.decisions.trans h.frame.symm
  sequenceGaps := h.audio.stats.sequenceGaps
  lastFrame := by
    show _ = if p.emulation.loop.frame = 0 then none else some (p.emulation.loop.frame - 1)
    rw [h.frame]
    exact h.audio.stats.lastFrame
  missing := h.audio.ordered.missing
  faded := h.audio.ordered.faded
  samplesCommitted := h.audio.booked.balanced

/-- **When the counters agree.** Whatever frames and resets a pipeline has served, all its counters
    agree on the frames since the last reset, except that the frames handed over are counted through
    resets: those agree with the rest exactly if no reset has followed a frame. In lockstep all
    requests are served, as long as the renderer draws; a ring has to be addressable and to hold two
    frames for that. -/
theorem counters_agree_iff [Processors P] [Renderer R] (c : Config) (parts : Parts P R)
    (hcheck : c.check = .ok ()) (look : FrameAudio → κ → κ) (seen : κ) :
    ∃ p, build c parts look seen = .ok p ∧ ∀ requests,
      (∀ s, serve requests p = .ok () s →
        s.stats.Consistent c.frameLength ∧
        s.stats.frames = framesSince requests ∧
        s.stats.framesPublished = requests.count .step ∧
        (s.stats.framesPublished = s.stats.frames ↔
          requests.Pairwise fun earlier later => earlier = .step → later = .step)) ∧
      (c.pacing = .lockstep →
        (c.strategy = .ring → c.ring.size.toNat ≤ 262144 ∧
          2 * c.frameLength ≤ c.ring.size.toNat) →
        ∀ Good : R → Prop, Draws Good → Good parts.renderer →
          ∃ s, serve requests p = .ok () s) := by
  have h := Config.checked hcheck
  obtain ⟨player, hplayer⟩ := exists_player h
  refine ⟨_, build_ok hcheck hplayer look seen, fun requests => ⟨fun s hserve => ?_, ?_⟩⟩
  · obtain ⟨hcounted, hpublished⟩ :=
      (counted_new parts hplayer look seen _).serve requests hserve
    have hframes : s.stats.frames = framesSince requests := hcounted.frame
    have hpublished : s.stats.framesPublished = requests.count .step :=
      hpublished.trans (Nat.zero_add _)
    refine ⟨hcounted.consistent, hframes, hpublished, ?_⟩
    rw [hpublished, hframes, eq_comm]
    exact framesSince_eq_count_iff requests
  · intro hpacing hring Good hdraws hgood
    obtain ⟨player', hplayer', L, hat⟩ := playerFor_ready h hring
    obtain rfl : player = player' := Except.ok.inj (hplayer.symm.trans hplayer')
    exact Able.serve hdraws ⟨.first rfl, ⟨[], hat, rfl, hpacing⟩, hgood⟩ requests

end Pipeline

end Machine

/-! ### On the bench -/

namespace Bench

open Machine

/-- A test card that is not set to fail draws every line. -/
theorem draws_testCard : Draws fun t : TestCard => t.failAt = none where
  configure h _ _ := h
  renderLine {t} h line now := by
    have hsteady := (Steady.line ⟨h, rfl⟩ line now : Steady t.cost (t.renderLine line now).1)
    have hfails : t.fails = false := by rw [TestCard.fails, h]; rfl
    refine ⟨_, (t.renderLine line now).2, ?_, hsteady.failAt⟩
    show (if line = 0 ∧ t.fails then _ else _) = _
    rw [hfails, if_neg fun hboth => Bool.false_ne_true hboth.2]

/-- Two frames by default: all counters agree. After a frame and a reset no frame is counted any
    more, but the one handed over is. -/
theorem reset_leaves_frames_published :
    ∃ p s s' : Pipeline StandIns TestCard Nat,
      Pipeline.build {} (parts {} {}) (fun _ seen => seen + 1) 0 = .ok p ∧
      Pipeline.serve [.step, .step] p = .ok () s ∧ s.stats.Consistent 888 ∧
      s.stats.frames = 2 ∧ s.stats.framesPublished = 2 ∧
      Pipeline.serve [.step, .reset] p = .ok () s' ∧ s'.stats.Consistent 888 ∧
      s'.stats.frames = 0 ∧ s'.stats.framesPublished = 1 := by
  obtain ⟨p, hbuild, hserves⟩ := Pipeline.counters_agree_iff {} (parts {} {}) rfl
    (fun _ seen => seen + 1) 0
  obtain ⟨hcounts, hends⟩ := hserves [.step, .step]
  obtain ⟨hcounts', hends'⟩ := hserves [.step, .reset]
  obtain ⟨s, hs⟩ := hends rfl (fun _ => by decide) _ draws_testCard rfl
  obtain ⟨s', hs'⟩ := hends' rfl (fun _ => by decide) _ draws_testCard rfl
  obtain ⟨hconsistent, hframes, hpublished, -⟩ := hcounts s hs
  obtain ⟨hconsistent', hframes', hpublished', -⟩ := hcounts' s' hs'
  exact ⟨p, s, s', hbuild, hs, hconsistent, hframes, hpublished, hs', hconsistent', hframes',
    hpublished'⟩

end Bench

end ConsolePipeline
