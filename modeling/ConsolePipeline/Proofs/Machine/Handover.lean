import ConsolePipeline.Machine.Threads
import ConsolePipeline.Proofs.Run

namespace ConsolePipeline

open Handoff Mixing Sound Video

/-!
# One frame on both sides

A frame of a pipeline in lockstep is made, gets buffers, is sent off and concluded; then it is mixed
and comes back. Each of these happens on one side only. What the other side knows of it is in the
exchange.

* `Rendezvous.carrying`, `returning` — a frame on its way there, and on its way back.
* `Emulation.fetch_first`, `fetch_back`, `fetch_waiting` — buffers are at hand, have come back, or
  are waited for; `drain_first`, `drain_back`, `drain_waiting` — the same at the end.
* `Emulation.closing_collected` — what is noted has no part in how a frame ends.
* `AudioCore.process_sees` — the observer sees the frame that is mixed.
* `Pipeline.step_inv` — what a frame in lockstep has done on each side; `Frame.next` — what it
  leaves to the next one.
-/

namespace Handoff

variable {α : Type}

/-- A value is on its way to the consumer. -/
def Rendezvous.carrying (a : α) : Rendezvous α :=
  { frame := some a, frameReady := true }

/-- A value is on its way back. -/
def Rendezvous.returning (a : α) : Rendezvous α :=
  { returned := some a, audioDone := true }

/-- **Between two frames in lockstep:** none was sent, or the last one is on its way back. -/
inductive Rests : Sender → Exchange → Prop
  | first {s : Sender} (h : s.inFlight = false) : Rests s {}
  | back {s : Sender} (h : s.inFlight = true) (b : FrameAudio) : Rests s (.returning b)

theorem Rendezvous.tryConsume_none {r : Rendezvous α} (h : r.frameReady = false) :
    r.tryConsume = (none, r) := by
  simp [Rendezvous.tryConsume, h]

namespace Rests

variable {sender : Sender} {x : Exchange} {a : FrameAudio}

/-- No frame is there. -/
theorem frameReady (h : Rests sender x) : x.frameReady = false := by
  cases h <;> rfl

/-- The next buffers are there. -/
theorem at_hand (h : Rests sender x) :
    (!sender.inFlight || x.audioDone) = true := by
  cases h with
  | first h => rw [h]; rfl
  | back h b => rw [h]; rfl

/-- A frame on its way back was sent before. -/
theorem inFlight (h : Rests sender x) (hx : x = .returning a) :
    sender.inFlight = true := by
  cases h with
  | first h => cases hx
  | back h b => exact h

end Rests

end Handoff

open Handoff.Rendezvous

namespace Machine

/-! ### The emulation side -/

namespace Emulation

variable {P R : Type} {e e' e₁ e₂ : Emulation P R} {d : Draft} {x : Exchange} {a b : FrameAudio}

/-- The emulation side once its notices have been collected. -/
def collected (e : Emulation P R) : Emulation P R :=
  e.takeNotices.2

/-- The frame that the bus holds. -/
def heldFrame (e : Emulation P R) : FrameAudio where
  frame := e.loop.frame
  fm := some e.board.bus.buffers.fm
  psg := some e.board.bus.buffers.psg
  fmCount := e.board.bus.fm.sampleCount
  psgCount := e.board.bus.psg.sampleCount

/-- The state once the bus has other buffers. -/
def refilled (fresh : Buffers) (spare : Option Buffers) : Emulation P R → Emulation P R
  | ⟨processors, ⟨now, registers, bus⟩, renderer, loop, sender, notices⟩ =>
    ⟨processors, ⟨now, registers, { bus with buffers := fresh }⟩, renderer, loop,
      { sender with spare }, notices⟩

/-- The first frame leaves the bus for the buffers at hand. -/
theorem fetch_first (h : e.sender.inFlight = false) (x : Exchange) :
    fetch (e, x) = .ok e.heldFrame (e.refilled (e.sender.spare.getD .empty) none, x) := by
  obtain ⟨_, _, _, _, ⟨_, inFlight, _⟩, _⟩ := e
  obtain rfl : inFlight = false := h
  rfl

/-- Any other leaves it for those of the frame that comes back. -/
theorem fetch_back (h : e.sender.inFlight = true) (b : FrameAudio) :
    fetch (e, returning b) = .ok e.heldFrame (e.refilled b.buffers e.sender.spare, {}) := by
  obtain ⟨_, _, _, _, ⟨_, inFlight, _⟩, _⟩ := e
  obtain rfl : inFlight = true := h
  rfl

/-- Until that is back, nothing changes. -/
theorem fetch_waiting (h : e.sender.inFlight = true) (hx : x.audioDone = false) :
    fetch (e, x) = .error .stalled (e, x) := by
  obtain ⟨_, _, _, _, ⟨_, inFlight, _⟩, _⟩ := e
  obtain ⟨_, _, _, audioDone⟩ := x
  obtain rfl : inFlight = true := h
  obtain rfl : audioDone = false := hx
  rfl

/-- **Between two frames there are buffers,** whatever has been noted. -/
theorem fetch_rests (h : Rests e.sender x) :
    ∃ e', fetch (e, x) = .ok e.heldFrame (e', {}) ∧
      fetch (e.collected, x) = .ok e.heldFrame (e'.collected, {}) ∧ e'.loop = e.loop := by
  have hsender : e.collected.sender = e.sender := rfl
  cases h with
  | first h => exact ⟨_, fetch_first h {}, fetch_first (hsender ▸ h) {}, rfl⟩
  | back h b => exact ⟨_, fetch_back h b, fetch_back (hsender ▸ h) b, rfl⟩

/-- The state once the last frame is back. -/
def unloaded (b : FrameAudio) : Emulation P R → Emulation P R
  | ⟨processors, board, renderer, loop, sender, notices⟩ =>
    ⟨processors, board, renderer, loop, { sender with spare := some b.buffers, inFlight := false },
      notices⟩

theorem drain_first (h : e.sender.inFlight = false) (x : Exchange) :
    drain (e, x) = .ok () (e, x) := by
  obtain ⟨_, _, _, _, ⟨_, inFlight, _⟩, _⟩ := e
  obtain rfl : inFlight = false := h
  rfl

theorem drain_back (h : e.sender.inFlight = true) (b : FrameAudio) :
    drain (e, returning b) = .ok () (e.unloaded b, {}) := by
  obtain ⟨_, _, _, _, ⟨_, inFlight, _⟩, _⟩ := e
  obtain rfl : inFlight = true := h
  rfl

theorem drain_waiting (h : e.sender.inFlight = true) (hx : x.audioDone = false) :
    drain (e, x) = .error .stalled (e, x) := by
  obtain ⟨_, _, _, _, ⟨_, inFlight, _⟩, _⟩ := e
  obtain ⟨_, _, _, audioDone⟩ := x
  obtain rfl : inFlight = true := h
  obtain rfl : audioDone = false := hx
  rfl

/-- **Between two frames a drain ends,** and changes none of what is counted. -/
theorem drain_rests (h : Rests e.sender x) :
    ∃ e', drain (e, x) = .ok () (e', {}) ∧ e'.loop = e.loop ∧
      e'.sender.published = e.sender.published := by
  cases h with
  | first h => exact ⟨_, drain_first h {}, rfl, rfl⟩
  | back h b => exact ⟨_, drain_back h b, rfl, rfl⟩

/-! ### The end of a frame -/

section Closing

variable [Processors P]

/-- Send a frame off and conclude it. -/
def closing (d : Draft) (a : FrameAudio) : Run (Emulation P R × Exchange) FrameReport := do
  ship a
  alone (modifyGet (conclude d 0))

/-- The state once a frame has been sent off. -/
def posted (a : FrameAudio) : Emulation P R → Emulation P R
  | ⟨processors, board, renderer, loop, sender, notices⟩ =>
    ⟨processors, board, renderer, loop,
      { sender with inFlight := true, published := sender.published + 1 },
      notices.push (publishedEntry a 0)⟩

theorem closing_eq (d : Draft) (a : FrameAudio) (e : Emulation P R) :
    closing d a (e, {}) =
      .ok ((e.posted a).conclude d 0).1 (((e.posted a).conclude d 0).2, carrying a) := rfl

theorem conclude_collected (d : Draft) (waitUs : UInt32) (e : Emulation P R) :
    (conclude d waitUs e.collected).1 = (conclude d waitUs e).1 ∧
      (conclude d waitUs e.collected).2.collected = (conclude d waitUs e).2.collected := by
  obtain ⟨processors, board, renderer, loop, sender, notices⟩ := e
  simp only [conclude, profile, collected, takeNotices, mapLoop, rebase]
  split <;> exact ⟨rfl, rfl⟩

/-- **What has been noted before has no part in how a frame ends.** -/
theorem closing_collected (d : Draft) (a : FrameAudio) (e : Emulation P R) :
    ∃ r e₁ e₂, closing d a (e, {}) = .ok r (e₁, carrying a) ∧
      closing d a (e.collected, {}) = .ok r (e₂, carrying a) ∧ e₂.collected = e₁.collected := by
  -- Both states are the same once the entry about the frame has been collected, too.
  obtain ⟨hreport, hstate⟩ := conclude_collected d 0 (e.posted a)
  obtain ⟨hreport', hstate'⟩ := conclude_collected d 0 (e.collected.posted a)
  have hposted : (e.collected.posted a).collected = (e.posted a).collected := rfl
  rw [hposted] at hreport' hstate'
  refine ⟨_, _, _, closing_eq d a e, ?_, hstate'.symm.trans hstate⟩
  rw [closing_eq, ← hreport', hreport]

/-- A frame that has ended was sent, and the next one has the next number. -/
theorem closing_inv {r : FrameReport} (h : closing d a (e, {}) = .ok r (e', x)) :
    e'.sender.inFlight = true ∧ e'.loop.frame = e.loop.frame + 1 := by
  rw [closing_eq] at h
  cases h
  obtain ⟨processors, board, renderer, loop, sender, notices⟩ := e
  simp only [conclude, profile, posted, mapLoop, rebase]
  split <;> exact ⟨rfl, rfl⟩

end Closing

/-! ### The making of a frame -/

/-- Two states in which the same frame is made, with the same ones sent before. -/
structure SameFrame (e e' : Emulation P R) : Prop where
  sender : e'.sender = e.sender
  frame : e'.loop.frame = e.loop.frame

theorem SameFrame.trans (h : SameFrame e e₁) (h' : SameFrame e₁ e₂) : SameFrame e e₂ :=
  ⟨h'.sender.trans h.sender, h'.frame.trans h.frame⟩

theorem sameFrame_sweep [Processors P] (mode : Mode) (e : Emulation P R) :
    SameFrame e (sweep mode e).2.2.2 :=
  ⟨rfl, rfl⟩

theorem sameFrame_enterMode [Renderer R] (mode : Mode) (e : Emulation P R) :
    SameFrame e (enterMode mode e).2 := by
  simp only [enterMode]
  split
  · exact ⟨rfl, rfl⟩
  · split <;> exact ⟨rfl, rfl⟩

/-- **Drawing is for the renderer,** and takes its time, which the skip controller is told. -/
theorem render_inv [Renderer R] {mode : Mode} {us : UInt32} (h : render mode e = .ok us e') :
    ∃ now renderer, e' = ⟨e.processors, { e.board with now }, renderer,
      { e.loop with skip := e.loop.skip.recordRender us }, e.sender, e.notices⟩ := by
  rw [render, Run.get_bind] at h
  obtain ⟨_, _, hlines, h⟩ := Run.bind_inv h
  obtain ⟨⟨renderer, now⟩, _, rfl⟩ := Run.within_inv hlines
  rw [Run.get_bind, Run.modify_bind] at h
  cases h
  exact ⟨now, renderer, rfl⟩

theorem sameFrame_render [Renderer R] {mode : Mode} {us : UInt32}
    (h : render mode e = .ok us e') : SameFrame e e' := by
  obtain ⟨_, _, rfl⟩ := render_inv h
  exact ⟨rfl, rfl⟩

/-- **To make a frame changes neither its number nor what was sent before.** -/
theorem sameFrame_produce [Processors P] [Renderer R] (h : produce e = .ok d e') :
    SameFrame e e' := by
  rw [produce, Run.get_bind, Run.get_bind, Run.modifyGet_bind, Run.modifyGet_bind, Run.modify_bind,
    Run.modifyGet_bind] at h
  have hmode := sameFrame_enterMode (Mode.sample e.board.registers) e
  have hswept := sameFrame_sweep (Mode.sample e.board.registers)
    (mapBus (·.beginFrame) (decide (enterMode (Mode.sample e.board.registers) e).1
      (enterMode (Mode.sample e.board.registers) e).2).2)
  generalize sweep (P := P) (R := R) _ _ = swept at h hswept
  obtain ⟨times, lineInterrupts, vblankRaised, e₁⟩ := swept
  obtain ⟨_, _, hflush, h⟩ := Run.bind_inv h
  cases hflush
  have hbefore : SameFrame e (flush e₁) := hmode.trans ⟨hswept.sender, hswept.frame⟩
  -- The frame is rendered or not.
  dsimp only at h
  split at h
  · obtain ⟨_, _, hrender, h⟩ := Run.bind_inv h
    cases h
    exact hbefore.trans (sameFrame_render hrender)
  · cases h
    exact hbefore

end Emulation

/-! ### The audio side -/

namespace AudioCore

variable {κ α : Type} {c c' : AudioCore κ} {a : FrameAudio} {x : Exchange}

/-- The audio side once its notices have been collected. -/
def collected (c : AudioCore κ) : AudioCore κ :=
  c.takeNotices.2

/-- **A frame that is on its way is taken,** mixed and handed back. -/
theorem service_carrying {mixed : Bool} (h : service (c, carrying a) = .ok mixed (c', x)) :
    process a c = .ok () c' ∧ mixed = true ∧ x = returning a := by
  rw [service] at h
  obtain ⟨_, _, hpoll, h⟩ := Run.bind_inv h
  cases hpoll
  obtain ⟨_, _, hcomplete, h⟩ := Run.bind_inv h
  cases h
  obtain ⟨_, _, halone, hback⟩ := Run.bind_inv hcomplete
  obtain ⟨_, hprocess, rfl⟩ := Run.within_inv halone
  cases hback
  exact ⟨hprocess, rfl, rfl⟩

/-- Two states with the same observer, who has seen the same. -/
structure SameView (c c' : AudioCore κ) : Prop where
  seen : c'.seen = c.seen
  look : c'.look = c.look

theorem sameView_onDesk {act : Run Desk α} {r : α} (h : onDesk act c = .ok r c') :
    SameView c c' := by
  obtain ⟨_, _, rfl⟩ := Run.within_inv h
  exact ⟨rfl, rfl⟩

theorem sameView_keepPace (h : keepPace c = .ok () c') : SameView c c' := by
  rw [keepPace, Run.get_bind, Run.get_bind] at h
  split at h
  · exact sameView_onDesk h
  · cases h
    exact ⟨rfl, rfl⟩

theorem sameView_checkSequence {frame : Nat} (h : checkSequence frame c = .ok () c') :
    SameView c c' := by
  rw [checkSequence, Run.get_bind] at h
  generalize c.stats.lastFrame = last at h
  cases last with
  | none =>
    cases h
    exact ⟨rfl, rfl⟩
  | some last =>
    dsimp only at h
    split at h <;> cases h <;> exact ⟨rfl, rfl⟩

/-- **The observer sees the frame that is mixed,** once. -/
theorem process_sees (h : process a c = .ok () c') :
    c'.seen = c.look a c.seen ∧ c'.look = c.look := by
  rw [process] at h
  obtain ⟨_, c₁, hpace, h⟩ := Run.bind_inv h
  obtain ⟨_, c₂, hsequence, h⟩ := Run.bind_inv h
  rw [Run.modify_bind, Run.get_bind] at h
  obtain ⟨_, c₃, hdesk, h⟩ := Run.bind_inv h
  cases h
  -- Nothing but the call of the observer itself touches what it has seen.
  have hpace := sameView_keepPace hpace
  have hsequence := sameView_checkSequence hsequence
  have hdesk := sameView_onDesk hdesk
  constructor
  · show c₃.seen = _
    rw [hdesk.seen]
    show c₂.look a c₂.seen = _
    rw [hsequence.look, hsequence.seen, hpace.look, hpace.seen]
  · show c₃.look = _
    rw [hdesk.look]
    exact hsequence.look.trans hpace.look

end AudioCore

/-! ### Both sides -/

namespace Pipeline

variable {P R κ α : Type} {p p' s s' : Pipeline P R κ} {r : α} {e : Emulation P R}
  {c : AudioCore κ} {x : Exchange}

theorem onEmulation_ok {act : Run (Emulation P R × Exchange) α}
    (h : act (p.emulation, p.exchange) = .ok r (e, x)) :
    onEmulation act p = .ok r ⟨e.collected, x, p.audio, p.notices ++ e.notices⟩ := by
  rw [onEmulation, Run.within_ok (by exact h)]
  rfl

theorem onEmulation_error {act : Run (Emulation P R × Exchange) α} {fault : Fault}
    (h : act (p.emulation, p.exchange) = .error fault (e, x)) :
    onEmulation act p = .error fault ⟨e.collected, x, p.audio, p.notices ++ e.notices⟩ := by
  rw [onEmulation, Run.within_error (by exact h)]
  rfl

theorem onEmulation_inv {act : Run (Emulation P R × Exchange) α}
    (h : onEmulation act p = .ok r p') :
    ∃ e x, act (p.emulation, p.exchange) = .ok r (e, x) ∧
      p' = ⟨e.collected, x, p.audio, p.notices ++ e.notices⟩ := by
  obtain ⟨⟨e, x⟩, hact, rfl⟩ := Run.within_inv h
  exact ⟨e, x, hact, rfl⟩

theorem onAudio_ok {act : Run (AudioCore κ × Exchange) α}
    (h : act (p.audio, p.exchange) = .ok r (c, x)) :
    onAudio act p = .ok r ⟨p.emulation, x, c.collected, p.notices ++ c.desk.notices⟩ := by
  rw [onAudio, Run.within_ok (by exact h)]
  rfl

theorem onAudio_inv {act : Run (AudioCore κ × Exchange) α} (h : onAudio act p = .ok r p') :
    ∃ c x, act (p.audio, p.exchange) = .ok r (c, x) ∧
      p' = ⟨p.emulation, x, c.collected, p.notices ++ c.desk.notices⟩ := by
  obtain ⟨⟨c, x⟩, hact, rfl⟩ := Run.within_inv h
  exact ⟨c, x, hact, rfl⟩

variable [Processors P] [Renderer R]

/-- **A frame in lockstep,** taken apart: what it did on the emulation side from `s` on, and what on
    the audio side. -/
structure Frame (s : Pipeline P R κ) (d : Draft) (e₁ e₂ : Emulation P R) (r : FrameReport)
    (s' : Pipeline P R κ) : Prop where
  made : Emulation.produce s.emulation = .ok d e₁
  fetched : Emulation.fetch (e₁, s.exchange) = .ok e₁.heldFrame (e₂, {})
  loop : e₂.loop = e₁.loop
  closed : ∃ e₃, Emulation.closing d e₁.heldFrame (e₂, {}) = .ok r (e₃, carrying e₁.heldFrame) ∧
    s'.emulation = e₃.collected
  mixed : ∃ c, AudioCore.process e₁.heldFrame s.audio = .ok () c ∧ s'.audio = c.collected
  exchange : s'.exchange = returning e₁.heldFrame

theorem step_inv {r : FrameReport} (hrests : Rests s.emulation.sender s.exchange)
    (h : step s = .ok r s') : ∃ d e₁ e₂, Frame s d e₁ e₂ r s' := by
  rw [step] at h
  obtain ⟨r', s₁, hframe, h⟩ := Run.bind_inv h
  obtain ⟨e₃, x, hframe', rfl⟩ := onEmulation_inv hframe
  rw [Emulation.runFrame] at hframe'
  obtain ⟨d, y, halone, hclosing⟩ := Run.bind_inv hframe'
  obtain ⟨e₁, hmade, rfl⟩ := Run.within_inv halone
  have hsame := Emulation.sameFrame_produce hmade
  obtain ⟨e₂, hfetched, -, hloop⟩ := Emulation.fetch_rests (hsame.sender.symm ▸ hrests)
  rw [Run.bind_ok (by exact hfetched)] at hclosing
  -- The audio side finds what the emulation side has sent.
  obtain ⟨mixed, s₂, haudio, h⟩ := Run.bind_inv h
  obtain ⟨c, y, hservice, rfl⟩ := onAudio_inv haudio
  cases hclosing
  obtain ⟨hprocess, rfl, rfl⟩ := AudioCore.service_carrying hservice
  cases h
  exact ⟨d, e₁, e₂, hmade, hfetched, hloop, ⟨_, rfl, rfl⟩, ⟨c, hprocess, rfl⟩, rfl⟩

/-- After a frame the next one may follow, and has the next number. -/
theorem Frame.next {d : Draft} {e₁ e₂ : Emulation P R} {r : FrameReport}
    (h : Frame s d e₁ e₂ r s') :
    Rests s'.emulation.sender s'.exchange ∧
      s'.emulation.loop.frame = s.emulation.loop.frame + 1 := by
  obtain ⟨e₃, hclosed, hemulation⟩ := h.closed
  obtain ⟨hinFlight, hframe⟩ := Emulation.closing_inv hclosed
  rw [hemulation, h.exchange]
  refine ⟨.back hinFlight _, hframe.trans ?_⟩
  rw [h.loop, (Emulation.sameFrame_produce h.made).frame]

/-- Frames in lockstep come one after the other. -/
theorem run_succ_inv {n : Nat} {done reports : Array FrameReport}
    (h : run (n + 1) done s = .ok reports p') :
    ∃ r s', step s = .ok r s' ∧ run n (done.push r) s' = .ok reports p' := by
  rw [run] at h
  exact Run.bind_inv h

end Pipeline

end Machine

end ConsolePipeline
