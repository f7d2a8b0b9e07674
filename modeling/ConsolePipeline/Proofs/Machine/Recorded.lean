import ConsolePipeline.Proofs.Machine.Frames
import ConsolePipeline.Proofs.Machine.Indistinct

namespace ConsolePipeline

open FrameSkip Handoff Sound Video

/-!
# Renderers that record their calls

A frame talks to its renderer as it takes its mode and as it draws. A renderer that keeps a record
of its calls shows what it was told, and also how far a frame came that broke down. For everything
else the record is not there.

* `Run.Adds`, `Grows` — what a computation adds to a record, and that it adds something in any case.
* `Run.Mirrors` — a computation that goes as another does on what is seen of its state.
* `RendererCall`, `Recorded` — the calls, and a renderer with a record of them.
* `Emulation.prepare_calls`, `adds_finish`, `grows_finish` — the calls of a frame up to the drawing,
  and after.
* `Emulation.runFrame_plain`, `reset_plain` — frames and resets go as they do without the record.
-/

namespace Run

variable {σ τ υ ω α β γ : Type}

/-! ### Records -/

section

variable {log : σ → List γ} {items more : List γ}

/-- **What a computation adds to a record:** all of these items if it ends well, and the first few
    of them if it breaks down. -/
def Adds (log : σ → List γ) (items : List γ) (act : Run σ α) : Prop := ∀ s,
  match act s with
  | .ok _ s' => log s' = log s ++ items
  | .error _ s' => ∃ made, made <+: items ∧ log s' = log s ++ made

namespace Adds

theorem pure (a : α) : Adds log [] (Pure.pure a : Run σ α) :=
  fun _ => (List.append_nil _).symm

theorem get : Adds log [] (get : Run σ σ) :=
  fun _ => (List.append_nil _).symm

theorem modifyGet {f : σ → α × σ} (h : ∀ s, log (f s).2 = log s) :
    Adds log [] (modifyGet f : Run σ α) :=
  fun s => (h s).trans (List.append_nil _).symm

theorem bind {x : Run σ α} {f : α → Run σ β} (hx : Adds log items x)
    (hf : ∀ a, Adds log more (f a)) : Adds log (items ++ more) (x >>= f) := by
  intro s
  have hfirst := hx s
  cases hrun : x s with
  | error fault s₁ =>
    -- Nothing comes of the second action, so what was made is a part of the first one's items.
    rw [bind_error hrun]
    rw [hrun] at hfirst
    obtain ⟨made, hfirstFew, hlog⟩ := hfirst
    exact ⟨made, hfirstFew.trans (List.prefix_append items more), hlog⟩
  | ok a s₁ =>
    rw [bind_ok hrun]
    rw [hrun] at hfirst
    have hrest := hf a s₁
    generalize f a s₁ = outcome at hrest
    cases outcome with
    | ok b s₂ => exact hrest.trans (by rw [hfirst, List.append_assoc])
    | error fault s₂ =>
      -- All of the first action's items are there, and the first few of the second one's.
      obtain ⟨made, hfirstFew, hlog⟩ := hrest
      exact ⟨items ++ made, (List.prefix_append_right_inj items).mpr hfirstFew,
        hlog.trans (by rw [hfirst, List.append_assoc])⟩

/-- First an action that adds nothing. -/
theorem nothing_then {x : Run σ α} {f : α → Run σ β} (hx : Adds log [] x)
    (hf : ∀ a, Adds log items (f a)) : Adds log items (x >>= f) :=
  hx.bind hf

/-- Then only actions that add nothing. -/
theorem then_nothing {x : Run σ α} {f : α → Run σ β} (hx : Adds log items x)
    (hf : ∀ a, Adds log [] (f a)) : Adds log items (x >>= f) := by
  have hboth := hx.bind hf
  rwa [List.append_nil] at hboth

/-- An action on the part of the state that holds the record. -/
theorem within {focus : σ → τ × (τ → σ)} {logOf : τ → List γ} {act : Run τ α}
    (hact : Adds logOf items act) (hbefore : ∀ s, log s = logOf (focus s).1)
    (hafter : ∀ s t, log ((focus s).2 t) = logOf t) : Adds log items (Run.within focus act) := by
  intro s
  have hrun := hact (focus s).1
  cases houtcome : act (focus s).1 with
  | ok a t =>
    rw [within_ok houtcome]
    rw [houtcome] at hrun
    exact (hafter s t).trans (hrun.trans (by rw [hbefore]))
  | error fault t =>
    rw [within_error houtcome]
    rw [houtcome] at hrun
    obtain ⟨made, hfirstFew, hlog⟩ := hrun
    exact ⟨made, hfirstFew, (hafter s t).trans (hlog.trans (by rw [hbefore]))⟩

/-- An action on another part of the state. -/
theorem beside {focus : σ → τ × (τ → σ)} {act : Run τ α}
    (h : ∀ s t, log ((focus s).2 t) = log s) : Adds log [] (Run.within focus act) := by
  intro s
  cases houtcome : act (focus s).1 with
  | ok a t =>
    rw [within_ok houtcome]
    exact (h s t).trans (List.append_nil _).symm
  | error fault t =>
    rw [within_error houtcome]
    exact ⟨[], List.prefix_rfl, (h s t).trans (List.append_nil _).symm⟩

end Adds

/-- **A computation that adds something** to a record, however it ends. -/
def Grows (log : σ → List γ) (act : Run σ α) : Prop := ∀ s,
  match act s with
  | .ok _ s' | .error _ s' => ∃ made, made ≠ [] ∧ log s' = log s ++ made

namespace Grows

theorem get_bind {f : σ → Run σ β} (h : ∀ s, Grows log (f s)) : Grows log (get >>= f) :=
  fun s => h s s

/-- It is enough if the first action adds something. -/
theorem bind {x : Run σ α} {f : α → Run σ β} (hx : Grows log x)
    (hf : ∀ a, Adds log more (f a)) : Grows log (x >>= f) := by
  intro s
  have hfirst := hx s
  cases hrun : x s with
  | error fault s₁ =>
    rw [bind_error hrun]
    rw [hrun] at hfirst
    exact hfirst
  | ok a s₁ =>
    rw [bind_ok hrun]
    rw [hrun] at hfirst
    obtain ⟨made, hne, hlog⟩ := hfirst
    have hrest := hf a s₁
    generalize f a s₁ = outcome at hrest
    cases outcome with
    | ok b s₂ =>
      exact ⟨made ++ more, List.append_ne_nil_of_left_ne_nil hne _,
        hrest.trans (by rw [hlog, List.append_assoc])⟩
    | error fault s₂ =>
      obtain ⟨rest, _, hrest⟩ := hrest
      exact ⟨made ++ rest, List.append_ne_nil_of_left_ne_nil hne _,
        hrest.trans (by rw [hlog, List.append_assoc])⟩

theorem within {focus : σ → τ × (τ → σ)} {logOf : τ → List γ} {act : Run τ α}
    (hact : Grows logOf act) (hbefore : ∀ s, log s = logOf (focus s).1)
    (hafter : ∀ s t, log ((focus s).2 t) = logOf t) : Grows log (Run.within focus act) := by
  intro s
  have hrun := hact (focus s).1
  cases houtcome : act (focus s).1 with
  | ok a t =>
    rw [within_ok houtcome]
    rw [houtcome] at hrun
    obtain ⟨made, hne, hlog⟩ := hrun
    exact ⟨made, hne, (hafter s t).trans (hlog.trans (by rw [hbefore]))⟩
  | error fault t =>
    rw [within_error houtcome]
    rw [houtcome] at hrun
    obtain ⟨made, hne, hlog⟩ := hrun
    exact ⟨made, hne, (hafter s t).trans (hlog.trans (by rw [hbefore]))⟩

end Grows

end

/-! ### What is seen of a state -/

/-- An outcome, if `φ` is all that is seen of the state. -/
def seenBy (φ : σ → τ) : EStateM.Result Fault σ α → EStateM.Result Fault τ α
  | .ok a s => .ok a (φ s)
  | .error fault s => .error fault (φ s)

/-- **A computation that goes as another does** on what is seen of its state. -/
def Mirrors (φ : σ → τ) (x : Run σ α) (y : Run τ α) : Prop :=
  ∀ s, y (φ s) = seenBy φ (x s)

namespace Mirrors

variable {φ : σ → τ} {x : Run σ α} {y : Run τ α}

theorem pure (a : α) : Mirrors φ (Pure.pure a) (Pure.pure a) :=
  fun _ => rfl

theorem modifyGet {f : σ → α × σ} {g : τ → α × τ} (h : ∀ s, g (φ s) = ((f s).1, φ (f s).2)) :
    Mirrors φ (modifyGet f) (modifyGet g) := by
  intro s
  show EStateM.Result.ok (g (φ s)).1 (g (φ s)).2 = _
  rw [h]
  rfl

theorem get_bind {f : σ → Run σ β} {g : τ → Run τ β} (h : ∀ s, Mirrors φ (f s) (g (φ s))) :
    Mirrors φ (get >>= f) (get >>= g) :=
  fun s => h s s

theorem bind {f : α → Run σ β} {g : α → Run τ β} (hx : Mirrors φ x y)
    (hf : ∀ a, Mirrors φ (f a) (g a)) : Mirrors φ (x >>= f) (y >>= g) := by
  intro s
  have hfirst := hx s
  cases hrun : x s with
  | error fault s₁ =>
    rw [hrun] at hfirst
    rw [bind_error hrun, bind_error hfirst]
    rfl
  | ok a s₁ =>
    rw [hrun] at hfirst
    rw [bind_ok hrun, bind_ok hfirst]
    exact hf a s₁

/-- An action on a part of the state. -/
theorem within {focus : σ → υ × (υ → σ)} {focus' : τ → ω × (ω → τ)} {ψ : υ → ω} {act : Run υ α}
    {act' : Run ω α} (h : Mirrors ψ act act') (hbefore : ∀ s, (focus' (φ s)).1 = ψ (focus s).1)
    (hafter : ∀ s t, (focus' (φ s)).2 (ψ t) = φ ((focus s).2 t)) :
    Mirrors φ (Run.within focus act) (Run.within focus' act') := by
  intro s
  have hrun := h (focus s).1
  rw [← hbefore] at hrun
  cases houtcome : act (focus s).1 with
  | ok a t =>
    rw [houtcome] at hrun
    rw [within_ok houtcome, within_ok hrun, hafter]
    rfl
  | error fault t =>
    rw [houtcome] at hrun
    rw [within_error houtcome, within_error hrun, hafter]
    rfl

/-- An action on a part of the state that is seen as it is. -/
theorem same {focus : σ → υ × (υ → σ)} {focus' : τ → υ × (υ → τ)} (act : Run υ α)
    (hbefore : ∀ s, (focus' (φ s)).1 = (focus s).1)
    (hafter : ∀ s t, (focus' (φ s)).2 t = φ ((focus s).2 t)) :
    Mirrors φ (Run.within focus act) (Run.within focus' act) := by
  refine within (ψ := id) (fun t => ?_) hbefore hafter
  show act t = seenBy id (act t)
  cases act t <;> rfl

end Mirrors

end Run

namespace Machine

/-! ### Renderers that record their calls -/

/-- What a renderer is asked to do. -/
inductive RendererCall
  | configure (width height : Nat)
  | line (n : Nat)
  deriving DecidableEq, Repr, Inhabited

/-- The first `n` lines of a picture, in order. -/
def linesDrawn (n : Nat) : List RendererCall :=
  (List.range n).map .line

/-- A renderer, with a record of what it was asked to do. -/
structure Recorded (R : Type) where
  renderer : R
  calls : List RendererCall := []

namespace Recorded

variable {R : Type} [Renderer R]

/-- Drawing a line is recorded also if it fails. -/
instance : Renderer (Recorded R) where
  configure width height r :=
    ⟨Renderer.configure width height r.renderer, r.calls ++ [.configure width height]⟩
  renderLine line :=
    Run.within (fun (r, now) => ((r.renderer, now), fun (renderer, now) =>
      (⟨renderer, r.calls ++ [.line line]⟩, now))) (Renderer.renderLine line)

theorem adds_renderLine (line : Nat) :
    Run.Adds (fun s : Recorded R × Instant => s.1.calls) [.line line]
      (Renderer.renderLine line) := by
  intro s
  cases hdrawn : Renderer.renderLine line (s.1.renderer, s.2) with
  | ok _ drawn =>
    rw [show Renderer.renderLine line s = _ from Run.within_ok hdrawn]
  | error fault drawn =>
    rw [show Renderer.renderLine line s = _ from Run.within_error hdrawn]
    exact ⟨_, List.prefix_rfl, rfl⟩

theorem adds_renderLines (n line : Nat) :
    Run.Adds (fun s : Recorded R × Instant => s.1.calls) ((List.range' line n).map .line)
      (renderLines n line) := by
  induction n generalizing line with
  | zero => exact .pure ()
  | succ n ih => exact (adds_renderLine line).bind fun _ => ih (line + 1)

theorem grows_renderLine (line : Nat) :
    Run.Grows (fun s : Recorded R × Instant => s.1.calls) (Renderer.renderLine line) := by
  intro s
  cases hdrawn : Renderer.renderLine line (s.1.renderer, s.2) with
  | ok _ drawn =>
    rw [show Renderer.renderLine line s = _ from Run.within_ok hdrawn]
    exact ⟨_, List.cons_ne_nil _ _, rfl⟩
  | error fault drawn =>
    rw [show Renderer.renderLine line s = _ from Run.within_error hdrawn]
    exact ⟨_, List.cons_ne_nil _ _, rfl⟩

theorem grows_renderLines {n : Nat} (hn : 0 < n) (line : Nat) :
    Run.Grows (fun s : Recorded R × Instant => s.1.calls) (renderLines n line) := by
  cases n with
  | zero => cases hn
  | succ n => exact (grows_renderLine line).bind fun _ => adds_renderLines n (line + 1)

theorem mirrors_renderLine (line : Nat) :
    Run.Mirrors (fun s : Recorded R × Instant => (s.1.renderer, s.2)) (Renderer.renderLine line)
      (Renderer.renderLine line) := by
  intro s
  cases hdrawn : Renderer.renderLine line (s.1.renderer, s.2) with
  | ok _ drawn => rw [show Renderer.renderLine line s = _ from Run.within_ok hdrawn]; rfl
  | error fault drawn => rw [show Renderer.renderLine line s = _ from Run.within_error hdrawn]; rfl

theorem mirrors_renderLines (n line : Nat) :
    Run.Mirrors (fun s : Recorded R × Instant => (s.1.renderer, s.2)) (renderLines n line)
      (renderLines n line) := by
  induction n generalizing line with
  | zero => exact .pure ()
  | succ n ih => exact (mirrors_renderLine line).bind fun _ => ih (line + 1)

end Recorded

namespace Emulation

/-! ### A frame up to the drawing -/

section

variable {P R : Type}

/-- What the renderer was asked to do. -/
def calls (e : Emulation P (Recorded R)) : List RendererCall :=
  e.renderer.calls

/-- The emulation side without the record. -/
def plain : Emulation P (Recorded R) → Emulation P R
  | ⟨processors, board, renderer, loop, sender, notices⟩ =>
    ⟨processors, board, renderer.renderer, loop, sender, notices⟩

/-- The dimensions of a mode, unless the last one had the same. -/
def newDimensions (last : Option Mode) (mode : Mode) : List RendererCall :=
  if last.map Mode.dimensions = some mode.dimensions then []
  else [.configure mode.width mode.height]

variable [Renderer R]

theorem enterMode_calls (mode : Mode) (e : Emulation P (Recorded R)) :
    (enterMode mode e).2.calls = e.calls ++ newDimensions e.loop.lastMode mode := by
  simp only [enterMode, newDimensions]
  split
  · next hlast => simp [hlast]
  · split
    · exact (List.append_nil _).symm
    · rfl

theorem enterMode_plain (mode : Mode) (e : Emulation P (Recorded R)) :
    enterMode mode e.plain = ((enterMode mode e).1, (enterMode mode e).2.plain) := by
  have hlast : e.plain.loop = e.loop := rfl
  simp only [enterMode, hlast]
  split
  · rfl
  · split <;> rfl

variable [Processors P]

/-- **Up to the drawing,** the only call is about new dimensions. -/
theorem prepare_calls (e : Emulation P (Recorded R)) :
    e.prepare.2.calls =
      e.calls ++ newDimensions e.loop.lastMode (Mode.sample e.board.registers) :=
  enterMode_calls (Mode.sample e.board.registers) e

theorem prepare_plain (e : Emulation P (Recorded R)) :
    e.plain.prepare = (e.prepare.1, e.prepare.2.plain) := by
  have hboard : e.plain.board = e.board := rfl
  simp only [prepare, hboard, enterMode_plain]
  rfl

end

/-! ### Drawing -/

section

variable {P R : Type}

/-- Tell the skip controller what was drawn since a given time. -/
def account (start : Instant) : Run (Emulation P R) UInt32 := do
  let us := elapsedUs start (← get).board.now
  modify (mapLoop fun l => { l with skip := l.skip.recordRender us })
  return us

/-- What is known of a frame once it is drawn, in so much time. -/
def measure (d : Draft) (renderUs : UInt32) : Run (Emulation P R) Draft := do
  let e ← get
  return { d with
    times := { d.times with renderUs }
    samples := e.board.bus.sampleCounts
    workUs := elapsedUs d.start e.board.now }

theorem adds_account (start : Instant) :
    Run.Adds (calls (P := P) (R := R)) [] (account start) := by
  refine Run.Adds.get.nothing_then fun e => ?_
  exact Run.Adds.nothing_then (.modifyGet fun _ => rfl) fun _ => .pure _

theorem mirrors_account (start : Instant) :
    Run.Mirrors (plain (P := P) (R := R)) (account start) (account start) := by
  refine .get_bind fun e => ?_
  exact Run.Mirrors.bind (.modifyGet fun _ => rfl) fun _ => .pure _

theorem adds_measure (d : Draft) (us : UInt32) :
    Run.Adds (calls (P := P) (R := R)) [] (measure d us) :=
  Run.Adds.get.nothing_then fun _ => .pure _

theorem mirrors_measure (d : Draft) (us : UInt32) :
    Run.Mirrors (plain (P := P) (R := R)) (measure d us) (measure d us) :=
  .get_bind fun _ => .pure _

variable [Renderer R]

theorem render_eq (mode : Mode) : (render mode : Run (Emulation P R) UInt32) =
    get >>= fun e => onRenderer (renderLines mode.height 0) >>= fun _ => account e.board.now :=
  rfl

theorem draw_eq (d : Draft) : (draw d : Run (Emulation P R) Draft) =
    if d.decision.render then render d.mode >>= measure d else measure d 0 :=
  rfl

theorem adds_render (mode : Mode) :
    Run.Adds (calls (P := P) (R := R)) (linesDrawn mode.height) (render mode) := by
  have hlines := Recorded.adds_renderLines (R := R) mode.height 0
  rw [← List.range_eq_range'] at hlines
  rw [render_eq]
  refine Run.Adds.get.nothing_then fun e => Run.Adds.then_nothing ?_ fun _ => adds_account _
  exact hlines.within (fun _ => rfl) fun _ _ => rfl

theorem grows_render {mode : Mode} (hheight : 0 < mode.height) :
    Run.Grows (calls (P := P) (R := R)) (render mode) := by
  rw [render_eq]
  refine .get_bind fun e => Run.Grows.bind ?_ fun _ => adds_account _
  exact (Recorded.grows_renderLines hheight 0).within (fun _ => rfl) fun _ _ => rfl

theorem mirrors_render (mode : Mode) :
    Run.Mirrors (plain (P := P) (R := R)) (render mode) (render mode) := by
  rw [render_eq, render_eq]
  refine .get_bind fun e => .bind ?_ fun _ => mirrors_account _
  exact (Recorded.mirrors_renderLines mode.height 0).within (fun _ => rfl) fun _ _ => rfl

/-- The lines that a frame draws. -/
def linesOf (d : Draft) : List RendererCall :=
  if d.decision.render then linesDrawn d.mode.height else []

theorem adds_draw (d : Draft) : Run.Adds (calls (P := P) (R := R)) (linesOf d) (draw d) := by
  rw [draw_eq, linesOf]
  split
  · exact (adds_render d.mode).then_nothing (adds_measure d)
  · exact adds_measure d 0

theorem grows_draw {d : Draft} (hrender : d.decision.render = true) (hheight : 0 < d.mode.height) :
    Run.Grows (calls (P := P) (R := R)) (draw d) := by
  rw [draw_eq, if_pos hrender]
  exact (grows_render hheight).bind (adds_measure d)

theorem mirrors_draw (d : Draft) :
    Run.Mirrors (plain (P := P) (R := R)) (draw d) (draw d) := by
  rw [draw_eq, draw_eq]
  split
  · exact (mirrors_render d.mode).bind (mirrors_measure d)
  · exact mirrors_measure d 0

end

/-! ### The handover -/

section

variable {P R α : Type}

/-- What the renderer was asked to do, with the exchange beside it. -/
def callsBeside (s : Emulation P (Recorded R) × Exchange) : List RendererCall :=
  s.1.calls

/-- The emulation side without the record, with the exchange beside it. -/
def plainBeside (s : Emulation P (Recorded R) × Exchange) : Emulation P R × Exchange :=
  (s.1.plain, s.2)

theorem adds_alone {made : List RendererCall} {act : Run (Emulation P (Recorded R)) α}
    (h : Run.Adds calls made act) : Run.Adds callsBeside made (alone act) :=
  h.within (fun _ => rfl) fun _ _ => rfl

theorem mirrors_alone {act : Run (Emulation P (Recorded R)) α} {act' : Run (Emulation P R) α}
    (h : Run.Mirrors plain act act') : Run.Mirrors plainBeside (alone act) (alone act') :=
  h.within (fun _ => rfl) fun _ _ => rfl

theorem adds_onOutlet (act : Run Outlet α) :
    Run.Adds (callsBeside (P := P) (R := R)) [] (onOutlet act) :=
  .beside fun _ _ => rfl

theorem mirrors_onOutlet (act : Run Outlet α) :
    Run.Mirrors (plainBeside (P := P) (R := R)) (onOutlet act) (onOutlet act) :=
  .same act (fun _ => rfl) fun _ _ => rfl

theorem adds_fetch : Run.Adds (callsBeside (P := P) (R := R)) [] fetch :=
  Run.Adds.get.nothing_then fun _ => (adds_onOutlet _).nothing_then fun _ => adds_onOutlet _

theorem mirrors_fetch : Run.Mirrors (plainBeside (P := P) (R := R)) fetch fetch :=
  .get_bind fun _ => (mirrors_onOutlet _).bind fun _ => mirrors_onOutlet _

theorem adds_ship (a : FrameAudio) : Run.Adds (callsBeside (P := P) (R := R)) [] (ship a) :=
  (adds_onOutlet _).nothing_then fun _ => adds_alone (.modifyGet fun _ => rfl)

theorem mirrors_ship (a : FrameAudio) :
    Run.Mirrors (plainBeside (P := P) (R := R)) (ship a) (ship a) :=
  (mirrors_onOutlet _).bind fun _ => mirrors_alone (.modifyGet fun _ => rfl)

variable [Processors P]

theorem conclude_plain (d : Draft) (waitUs : UInt32) (e : Emulation P (Recorded R)) :
    conclude d waitUs e.plain = ((conclude d waitUs e).1, (conclude d waitUs e).2.plain) := by
  obtain ⟨processors, board, renderer, loop, sender, notices⟩ := e
  simp only [conclude, profile, plain, mapLoop, rebase]
  split <;> rfl

/-- Hand a frame over and conclude it. -/
def handOver (d : Draft) : Run (Emulation P R × Exchange) FrameReport :=
  fetch >>= closing d

/-- The renderer has no part in it. -/
theorem adds_handOver (d : Draft) : Run.Adds (callsBeside (P := P) (R := R)) [] (handOver d) := by
  refine adds_fetch.nothing_then fun a => (adds_ship a).nothing_then fun _ =>
    adds_alone (.modifyGet fun e => ?_)
  obtain ⟨notices, hconclude⟩ := conclude_eq d e
  rw [hconclude]
  rfl

theorem mirrors_handOver (d : Draft) :
    Run.Mirrors (plainBeside (P := P) (R := R)) (handOver d) (handOver d) :=
  mirrors_fetch.bind fun a => (mirrors_ship a).bind fun _ =>
    mirrors_alone (.modifyGet fun e => conclude_plain d 0 e)

end

/-! ### A whole frame, and a reset -/

section

variable {P R : Type} [Processors P] [Renderer R]

/-- What is left to do of a frame once it is prepared. -/
def finish (d : Draft) : Run (Emulation P R × Exchange) FrameReport :=
  alone (draw d) >>= handOver

theorem runFrame_eq (e : Emulation P R) (x : Exchange) :
    runFrame (e, x) = finish e.prepare.1 (e.prepare.2, x) :=
  Run.bind_congr rfl _

/-- **Once a frame is prepared,** the lines that it draws are the only calls. -/
theorem adds_finish (d : Draft) :
    Run.Adds (callsBeside (P := P) (R := R)) (linesOf d) (finish d) :=
  (adds_alone (adds_draw d)).then_nothing adds_handOver

/-- **A frame that is to be drawn is begun,** even if it breaks down then. -/
theorem grows_finish {d : Draft} (hrender : d.decision.render = true)
    (hheight : 0 < d.mode.height) : Run.Grows (callsBeside (P := P) (R := R)) (finish d) :=
  ((grows_draw hrender hheight).within (fun _ => rfl) fun _ _ => rfl).bind adds_handOver

/-- **A frame goes as it does without the record.** -/
theorem runFrame_plain (e : Emulation P (Recorded R)) (x : Exchange) :
    runFrame (e.plain, x) = Run.seenBy plainBeside (runFrame (e, x)) := by
  have hfinish : Run.Mirrors (plainBeside (P := P) (R := R)) (finish e.prepare.1)
      (finish e.prepare.1) :=
    (mirrors_alone (mirrors_draw _)).bind mirrors_handOver
  rw [runFrame_eq, runFrame_eq, prepare_plain]
  exact hfinish (e.prepare.2, x)

end

section

variable {P R : Type} [Processors P]

/-- A reset makes no calls. -/
theorem adds_reset : Run.Adds (callsBeside (P := P) (R := R)) [] reset :=
  (adds_onOutlet _).nothing_then fun _ => adds_alone (.modifyGet fun _ => rfl)

/-- **And so does a reset.** -/
theorem reset_plain (e : Emulation P (Recorded R)) (x : Exchange) :
    reset (e.plain, x) = Run.seenBy plainBeside (reset (e, x)) := by
  have hreset : Run.Mirrors (plainBeside (P := P) (R := R)) reset reset :=
    (mirrors_onOutlet _).bind fun _ => mirrors_alone (.modifyGet fun _ => rfl)
  exact hreset (e, x)

end

end Emulation

end Machine

end ConsolePipeline
