import ConsolePipeline.Bench.Assembly
import ConsolePipeline.Proofs.FrameSkip.Tally
import ConsolePipeline.Proofs.Machine.Recorded
import ConsolePipeline.Proofs.Preserves

namespace ConsolePipeline.Machine

open FrameSkip Handoff Sound Video

/-!
# The geometry of what is drawn

A renderer draws lines in the dimensions that it was given last. It is given new ones only as they
change, and only some frames are drawn. All the same it never draws a frame in the dimensions of
another one: a new mode is a reason to draw, whatever was skipped before, and what is written while
a frame runs has to wait for the next one.

* `Emulation.runFrame_shows`, `runFrame_breaks` — one frame, and one that breaks down.
* `Event`, `film` — frames, resets, and whatever else there is; `Shot` — what is seen of a frame.
* `Shot.Right` — the frame was drawn if it had to be, line by line and in its own dimensions;
  `geometry_kept` — every frame of a film is right.
-/

/-! ### One frame -/

/-- The first few lines, but some: up to a certain one. -/
theorem prefix_linesDrawn {made : List RendererCall} {m : Nat} (h : made <+: linesDrawn m)
    (hne : made ≠ []) : ∃ n < m, made = linesDrawn (n + 1) := by
  have hlength := h.length_le
  rw [linesDrawn, List.length_map, List.length_range] at hlength
  obtain ⟨n, hn⟩ := Nat.exists_eq_add_of_lt (List.length_pos_iff.mpr hne)
  rw [Nat.zero_add] at hn
  refine ⟨n, by omega, ?_⟩
  rw [List.prefix_iff_eq_take.mp h, hn, linesDrawn, ← List.map_take, List.take_range,
    Nat.min_eq_left (by omega), linesDrawn]

namespace Emulation

section

variable {P R α : Type} {last : Option Mode}

theorem keeps_onOutlet (act : Run Outlet α) :
    Run.Preserves (fun s : Emulation P R × Exchange => s.1.loop.lastMode = last)
      (onOutlet act) :=
  .within fun _ _ _ h _ => h

theorem keeps_fetch :
    Run.Preserves (fun s : Emulation P R × Exchange => s.1.loop.lastMode = last) fetch :=
  .get_bind fun _ _ => (keeps_onOutlet _).bind fun _ => keeps_onOutlet _

theorem keeps_ship (a : FrameAudio) :
    Run.Preserves (fun s : Emulation P R × Exchange => s.1.loop.lastMode = last) (ship a) := by
  refine (keeps_onOutlet _).bind fun _ => .within fun _ _ _ h hnoted => ?_
  cases hnoted
  exact h

end

section

variable {P R : Type} [Renderer R]

theorem newDimensions_same (mode : Mode) : newDimensions (some mode) mode = [] :=
  if_pos rfl

theorem lastMode_enterMode (mode : Mode) (e : Emulation P R) :
    (enterMode mode e).2.loop.lastMode = some mode := by
  simp only [enterMode]
  split
  · assumption
  · split <;> rfl

/-- A mode that is not the last one is new. -/
theorem enterMode_new {mode : Mode} {e : Emulation P R} (h : e.loop.lastMode ≠ some mode) :
    (enterMode mode e).1 = true := by
  simp only [enterMode, if_neg h]

theorem draw_inv {d d' : Draft} {e e' : Emulation P R} (h : draw d e = .ok d' e') :
    d'.mode = d.mode ∧ d'.decision = d.decision ∧ e'.loop.lastMode = e.loop.lastMode := by
  rw [draw_eq] at h
  split at h
  · obtain ⟨_, _, hrender, h⟩ := Run.bind_inv h
    cases h
    obtain ⟨_, _, rfl⟩ := render_inv hrender
    exact ⟨rfl, rfl, rfl⟩
  · cases h
    exact ⟨rfl, rfl, rfl⟩

variable [Processors P]

/-- What a frame is reported as, and what the loop remembers of it. -/
theorem finish_inv {d : Draft} {e e' : Emulation P R} {x x' : Exchange} {r : FrameReport}
    (h : finish d (e, x) = .ok r (e', x')) :
    r.mode = d.mode ∧ r.decision = d.decision ∧ e'.loop.lastMode = e.loop.lastMode := by
  rw [finish] at h
  obtain ⟨drawn, s₁, hdraw, h⟩ := Run.bind_inv h
  obtain ⟨e₁, hdrawn, rfl⟩ := Run.within_inv hdraw
  obtain ⟨hmode, hdecision, hlast⟩ := draw_inv hdrawn
  rw [handOver] at h
  obtain ⟨a, s₂, hfetch, h⟩ := Run.bind_inv h
  rw [closing] at h
  obtain ⟨_, s₃, hship, h⟩ := Run.bind_inv h
  have hkept := keeps_ship a _ _ _ (keeps_fetch _ _ _ hlast hfetch) hship
  obtain ⟨notices, hconclude⟩ := conclude_eq drawn s₃.1
  obtain ⟨rfl, rfl⟩ : (conclude drawn 0 s₃.1).1 = r ∧ (conclude drawn 0 s₃.1).2 = e' := by
    cases h
    exact ⟨rfl, rfl⟩
  rw [hconclude]
  exact ⟨hmode, hdecision, hkept⟩

/-- A frame in a new mode is rendered. -/
theorem prepare_new (e : Emulation P R)
    (h : e.loop.lastMode ≠ some (Mode.sample e.board.registers)) :
    e.prepare.1.decision.render = true := by
  have hdecided : e.prepare.1.decision = _ := congrArg (·.1) (prepare_decided e).1
  rw [hdecided, show e.prepare.1.modeChanged = true from enterMode_new h]
  exact e.loop.skip.choose_forced e.loop.frame

/-- **What a frame shows** that began in state `e`, under the mode that the registers stood for
    then. -/
structure Shows (e : Emulation P (Recorded R)) (mode : Mode) (r : FrameReport)
    (e' : Emulation P (Recorded R)) : Prop where
  reported : r.mode = mode
  lastMode : e'.loop.lastMode = some mode
  forced : e.loop.lastMode ≠ some mode → r.decision.render = true
  calls : e'.calls = e.calls ++ (newDimensions e.loop.lastMode mode ++
    if r.decision.render then linesDrawn mode.height else [])

theorem runFrame_shows {e e' : Emulation P (Recorded R)} {x x' : Exchange} {r : FrameReport}
    (h : runFrame (e, x) = .ok r (e', x')) : Shows e (Mode.sample e.board.registers) r e' := by
  rw [runFrame_eq] at h
  obtain ⟨hmode, hdecision, hlast⟩ := finish_inv h
  have hcalls := adds_finish e.prepare.1 (e.prepare.2, x)
  rw [h] at hcalls
  exact {
    reported := hmode
    lastMode := hlast.trans (lastMode_enterMode (Mode.sample e.board.registers) e)
    forced := fun hnew => by rw [hdecision]; exact prepare_new e hnew
    calls := by
      rw [hdecision, ← List.append_assoc, ← prepare_calls]
      exact hcalls }

/-- **A frame that breaks down** does so at a line, after the last one, or as nothing is drawn. -/
theorem runFrame_breaks {e e' : Emulation P (Recorded R)} {x x' : Exchange} {fault : Fault}
    (h : runFrame (e, x) = .error fault (e', x')) :
    (∃ n < (Mode.sample e.board.registers).height, e'.calls = e.calls ++
      (newDimensions e.loop.lastMode (Mode.sample e.board.registers) ++ linesDrawn (n + 1))) ∨
    (e.loop.lastMode = some (Mode.sample e.board.registers) ∧ e'.calls = e.calls) := by
  rw [runFrame_eq] at h
  have hadds := adds_finish e.prepare.1 (e.prepare.2, x)
  rw [h] at hadds
  obtain ⟨made, hmade, hadded⟩ := hadds
  have hcalls : e'.calls = e.prepare.2.calls ++ made := hadded
  rw [prepare_calls, List.append_assoc] at hcalls
  -- There is no report, so the decision is the one that was prepared.
  cases hrender : e.prepare.1.decision.render with
  | true =>
    have hgrows := grows_finish hrender (sample_height_pos e.board.registers) (e.prepare.2, x)
    rw [h] at hgrows
    obtain ⟨more, hmore, hgrown⟩ := hgrows
    obtain rfl : made = more := List.append_cancel_left (hadded.symm.trans hgrown)
    rw [linesOf, if_pos hrender] at hmade
    obtain ⟨n, hn, rfl⟩ := prefix_linesDrawn hmade hmore
    exact .inl ⟨n, hn, hcalls⟩
  | false =>
    rw [linesOf, if_neg (by rw [hrender]; exact Bool.false_ne_true), List.prefix_nil] at hmade
    have hsame : e.loop.lastMode = some (Mode.sample e.board.registers) := by
      by_contra hnew
      rw [prepare_new e hnew] at hrender
      cases hrender
    rw [hmade, hsame, newDimensions_same, List.append_nil, List.append_nil] at hcalls
    exact .inr ⟨hsame, hcalls⟩

end

/-! ### Films -/

section

variable {P R : Type}

/-- Something happens that leaves the renderer alone, and the loop's memory of the last mode. -/
def elsewhere (f : Emulation P Unit × Exchange → Emulation P Unit × Exchange) :
    Emulation P R × Exchange → Emulation P R × Exchange
  | (⟨processors, board, renderer, loop, sender, notices⟩, x) =>
    match f (⟨processors, board, (), loop, sender, notices⟩, x) with
    | (⟨processors, board, _, changed, sender, notices⟩, x) =>
      (⟨processors, board, renderer, { changed with lastMode := loop.lastMode }, sender, notices⟩, x)

/-- Start a new record. -/
def forgetCalls : Emulation P (Recorded R) → Emulation P (Recorded R)
  | ⟨processors, board, renderer, loop, sender, notices⟩ =>
    ⟨processors, board, ⟨renderer.renderer, []⟩, loop, sender, notices⟩

end

end Emulation

/-- What happens to the emulation side. As a frame looks at the exchange only once it is drawn, what
    the other side does meanwhile may as well have been done before. -/
inductive Event (P : Type)
  | frame
  | reset
  /-- Writes to the registers, another region, another policy, and whatever else may happen outside
      of the renderer. -/
  | elsewhere (f : Emulation P Unit × Exchange → Emulation P Unit × Exchange)

/-- What is seen of a frame. -/
structure Shot where
  /-- Whether there was no frame since the start or the last reset. -/
  first : Bool
  /-- The mode that the registers stood for as the frame began. -/
  mode : Mode
  /-- The frame's report; `none` if it broke down. -/
  report : Option FrameReport
  /-- What the renderer was asked to do since the frame before. -/
  calls : List RendererCall

/-- **What is seen of a run,** frame by frame. `first` says whether a frame to come is the first
    one. Nothing is seen after a fault. -/
def film {P R : Type} [Processors P] [Renderer R] (first : Bool) :
    List (Event P) → Emulation P (Recorded R) × Exchange → List Shot
  | [], _ => []
  | .elsewhere f :: rest, s => film first rest (Emulation.elsewhere f s)
  | .reset :: rest, s =>
    match Emulation.reset s with
    | .ok _ s => film true rest s
    | .error _ _ => []
  | .frame :: rest, (e, x) =>
    let mode := Mode.sample e.board.registers
    match Emulation.runFrame (e, x) with
    | .ok r (e, x) => ⟨first, mode, some r, e.calls⟩ :: film false rest (e.forgetCalls, x)
    | .error _ (e, _) => [⟨first, mode, none, e.calls⟩]

/-- The reports of a run with any renderer, frame by frame; `none` is for a frame that broke
    down. -/
def reports {P R : Type} [Processors P] [Renderer R] :
    List (Event P) → Emulation P R × Exchange → List (Option FrameReport)
  | [], _ => []
  | .elsewhere f :: rest, s => reports rest (Emulation.elsewhere f s)
  | .reset :: rest, s =>
    match Emulation.reset s with
    | .ok _ s => reports rest s
    | .error _ _ => []
  | .frame :: rest, s =>
    match Emulation.runFrame s with
    | .ok r s => some r :: reports rest s
    | .error _ _ => [none]

/-- **A film shows a run as it is without the record.** -/
theorem film_reports {P R : Type} [Processors P] [Renderer R] (first : Bool)
    (events : List (Event P)) (e : Emulation P (Recorded R)) (x : Exchange) :
    (film first events (e, x)).map (·.report) = reports events (e.plain, x) := by
  induction events generalizing first e x with
  | nil => rfl
  | cons event rest ih =>
    cases event with
    | elsewhere f => exact ih first _ _
    | reset =>
      rw [film, reports, Emulation.reset_plain]
      cases Emulation.reset (e, x) with
      | ok _ s => exact ih true s.1 s.2
      | error fault s => rfl
    | frame =>
      rw [film, reports, Emulation.runFrame_plain]
      cases Emulation.runFrame (e, x) with
      | ok r s => exact congrArg (some r :: ·) (ih false s.1.forgetCalls s.2)
      | error fault s => rfl

/-- The dimensions that were given last. -/
def dimensionsGiven (calls : List RendererCall) : Option (Nat × Nat) :=
  (calls.filterMap fun
    | .configure width height => some (width, height)
    | .line _ => none).getLast?

theorem dimensionsGiven_lines (calls : List RendererCall) (n : Nat) :
    dimensionsGiven (calls ++ linesDrawn n) = dimensionsGiven calls := by
  have hnone : (linesDrawn n).filterMap (fun
      | .configure width height => some (width, height)
      | .line _ => none) = ([] : List (Nat × Nat)) := by
    rw [linesDrawn, List.filterMap_map]
    exact List.filterMap_eq_nil_iff.mpr fun _ _ => rfl
  rw [dimensionsGiven, List.filterMap_append, hnone, List.append_nil, dimensionsGiven]

theorem dimensionsGiven_configure (calls : List RendererCall) (width height : Nat) :
    dimensionsGiven (calls ++ [.configure width height]) = some (width, height) := by
  rw [dimensionsGiven, List.filterMap_append]
  exact List.getLast?_concat

namespace Shot

/-- What the renderer is told before a frame is drawn: the dimensions, at the start, after a reset,
    and when those of the frame before were others. -/
def told (before : List Shot) (shot : Shot) : List RendererCall :=
  if shot.first = true ∨ before.getLast?.map (·.mode.dimensions) ≠ some shot.mode.dimensions then
    [.configure shot.mode.width shot.mode.height]
  else []

/-- The frame's mode is a new one: there was no frame since the start or the last reset, or the one
    before had another mode. -/
def New (before : List Shot) (shot : Shot) : Prop :=
  shot.first = true ∨ before.getLast?.map (·.mode) ≠ some shot.mode

/-- **A frame is right,** given the frames before. -/
structure Right (before : List Shot) (shot : Shot) : Prop where
  /-- The mode is that of the registers as the frame began. -/
  sampled : ∀ r ∈ shot.report, r.mode = shot.mode
  /-- A frame in a new mode is rendered. -/
  forced : shot.New before → ∀ r ∈ shot.report, r.decision.render = true
  /-- Each line is drawn once and in order, and nothing else is asked of the renderer. -/
  rendered : ∀ r ∈ shot.report, r.decision.render = true →
    shot.calls = shot.told before ++ linesDrawn shot.mode.height
  skipped : ∀ r ∈ shot.report, r.decision.render = false → shot.calls = []
  /-- A frame that breaks down does so at a line or after the last one. In a mode that is not new,
      it may also be one that is not drawn. -/
  broken : shot.report = none →
    (∃ n < shot.mode.height, shot.calls = shot.told before ++ linesDrawn (n + 1)) ∨
      (¬ shot.New before ∧ shot.calls = [])
  /-- The renderer has the dimensions of the frame's mode. -/
  given : dimensionsGiven (before.flatMap (·.calls) ++ shot.calls) = some shot.mode.dimensions

/-- Without a report, only the calls have to be right. -/
theorem Right.of_none {before : List Shot} {shot : Shot} (hnone : shot.report = none)
    (hbroken : (∃ n < shot.mode.height, shot.calls = shot.told before ++ linesDrawn (n + 1)) ∨
      (¬ shot.New before ∧ shot.calls = []))
    (hgiven : dimensionsGiven (before.flatMap (·.calls) ++ shot.calls) =
      some shot.mode.dimensions) : shot.Right before := by
  have hnever {q : FrameReport → Prop} : ∀ r ∈ shot.report, q r := by
    rw [hnone]
    exact fun r hr => absurd hr (Option.not_mem_none r)
  exact ⟨hnever, fun _ => hnever, hnever, hnever, fun _ => hbroken, hgiven⟩

/-- All these frames are right, given the frames before. -/
def AllRight (before shots : List Shot) : Prop :=
  ∀ i : Fin shots.length, shots[i].Right (before ++ shots.take i)

theorem allRight_nil (before : List Shot) : AllRight before [] :=
  fun i => i.elim0

theorem allRight_cons {before shots : List Shot} {shot : Shot} (h : shot.Right before)
    (hrest : AllRight (before ++ [shot]) shots) : AllRight before (shot :: shots) := by
  intro i
  cases i using Fin.cases with
  | zero => simpa using h
  | succ i => simpa using hrest i

end Shot

/-! ### Every frame is right -/

section

variable {P R : Type} {before : List Shot} {first : Bool} {mode : Mode}
  {e e' : Emulation P (Recorded R)}

/-- **Between two frames:** the loop knows the mode of the last one, and the renderer has its
    dimensions. -/
structure Follows (before : List Shot) (first : Bool) (e : Emulation P (Recorded R)) : Prop where
  calls : e.calls = []
  lastMode : e.loop.lastMode = if first then none else before.getLast?.map (·.mode)
  given : first = false →
    dimensionsGiven (before.flatMap (·.calls)) = before.getLast?.map (·.mode.dimensions)

/-- The next frame follows this one. -/
theorem Emulation.Shows.follows {r : FrameReport} (hr : e.Shows mode r e')
    (hright : Shot.Right before ⟨first, mode, some r, e'.calls⟩) :
    Follows (before ++ [⟨first, mode, some r, e'.calls⟩]) false e'.forgetCalls where
  calls := rfl
  lastMode := hr.lastMode.trans (by simp)
  given _ := by
    rw [List.flatMap_append, List.flatMap_singleton, hright.given]
    simp

namespace Follows

theorem elsewhere {x : Exchange} (h : Follows before first e)
    (f : Emulation P Unit × Exchange → Emulation P Unit × Exchange) :
    Follows before first (Emulation.elsewhere f (e, x)).1 :=
  ⟨h.calls, h.lastMode, h.given⟩

theorem lastMode_ne_iff (h : Follows before first e) :
    e.loop.lastMode ≠ some mode ↔ first = true ∨ before.getLast?.map (·.mode) ≠ some mode := by
  rw [h.lastMode]
  cases first <;> simp

/-- What the renderer is told goes by the frame before. -/
theorem newDimensions_eq (h : Follows before first e) (report : Option FrameReport)
    (calls : List RendererCall) :
    Emulation.newDimensions e.loop.lastMode mode =
      Shot.told before ⟨first, mode, report, calls⟩ := by
  rw [Emulation.newDimensions, Shot.told, h.lastMode]
  cases first with
  | true => rfl
  | false => simp only [Bool.false_eq_true, if_false, Option.map_map, false_or, ne_eq, ite_not]; rfl

/-- **The renderer has the dimensions,** old or new. -/
theorem given_told (h : Follows before first e) (n : Nat) :
    dimensionsGiven (before.flatMap (·.calls) ++
      (Emulation.newDimensions e.loop.lastMode mode ++ linesDrawn n)) = some mode.dimensions := by
  rw [← List.append_assoc, dimensionsGiven_lines, Emulation.newDimensions]
  split
  · -- Nothing is told, so what the renderer was told before must be what it needs.
    next hsame =>
    rw [List.append_nil]
    rw [h.lastMode] at hsame
    cases first with
    | true => cases hsame
    | false =>
      rw [h.given rfl, ← hsame]
      simp [Option.map_map, Function.comp_def]
  · exact dimensionsGiven_configure _ _ _

/-- A frame that ends well. -/
theorem right (h : Follows before first e) {r : FrameReport} (hr : e.Shows mode r e') :
    Shot.Right before ⟨first, mode, some r, e'.calls⟩ := by
  have hcalls := hr.calls
  rw [h.calls, List.nil_append] at hcalls
  refine ⟨?_, fun hnew => ?_, ?_, ?_, nofun, ?_⟩
  · rintro _ ⟨⟩
    exact hr.reported
  · rintro _ ⟨⟩
    exact hr.forced (h.lastMode_ne_iff.mpr hnew)
  · rintro _ ⟨⟩ hrender
    rw [if_pos hrender, h.newDimensions_eq (some r) e'.calls] at hcalls
    exact hcalls
  · -- Without a new mode there are no new dimensions either.
    rintro _ ⟨⟩ hskip
    have hsame : e.loop.lastMode = some mode := by
      by_contra hnew
      rw [hr.forced hnew] at hskip
      cases hskip
    rw [if_neg (by rw [hskip]; exact Bool.false_ne_true), hsame,
      Emulation.newDimensions_same] at hcalls
    exact hcalls
  · -- Lines give no dimensions, so it does not matter whether there are any.
    show dimensionsGiven (_ ++ e'.calls) = _
    rw [hcalls]
    split
    · exact h.given_told mode.height
    · exact h.given_told 0

/-- A frame that breaks down as it is drawn. -/
theorem right_broken (h : Follows before first e) {n : Nat} (hn : n < mode.height)
    (hcalls : e'.calls =
      e.calls ++ (Emulation.newDimensions e.loop.lastMode mode ++ linesDrawn (n + 1))) :
    Shot.Right before ⟨first, mode, none, e'.calls⟩ := by
  rw [h.calls, List.nil_append] at hcalls
  refine Shot.Right.of_none rfl (.inl ⟨n, hn, ?_⟩) ?_
  · rw [h.newDimensions_eq none e'.calls] at hcalls
    exact hcalls
  · show dimensionsGiven (_ ++ e'.calls) = _
    rw [hcalls]
    exact h.given_told (n + 1)

/-- A frame that breaks down without being drawn. -/
theorem right_undrawn (h : Follows before first e) (hsame : e.loop.lastMode = some mode)
    (hcalls : e'.calls = e.calls) : Shot.Right before ⟨first, mode, none, e'.calls⟩ := by
  rw [h.calls] at hcalls
  refine Shot.Right.of_none rfl (.inr ⟨?_, hcalls⟩) ?_
  · exact fun hnew => h.lastMode_ne_iff.mpr hnew hsame
  · show dimensionsGiven (_ ++ e'.calls) = some mode.dimensions
    have hnothing : e'.calls = Emulation.newDimensions e.loop.lastMode mode ++ linesDrawn 0 := by
      rw [hcalls, hsame, Emulation.newDimensions_same]
      rfl
    rw [hnothing]
    exact h.given_told 0

variable [Processors P]

/-- After a reset comes a first frame. -/
theorem reset {x x' : Exchange} (h : Follows before first e)
    (hreset : Emulation.reset (e, x) = .ok () (e', x')) : Follows before true e' := by
  have hcalls := Emulation.adds_reset (e, x)
  rw [hreset] at hcalls
  obtain ⟨_, s₁, hdrain, hrestart⟩ := Run.bind_inv hreset
  cases hrestart
  exact ⟨hcalls.trans (by rw [Emulation.callsBeside, h.calls]; rfl), rfl, nofun⟩

variable [Renderer R]

/-- **Every frame of a film is right,** whatever happens. -/
theorem film (events : List (Event P)) {x : Exchange} (h : Follows before first e) :
    Shot.AllRight before (Machine.film first events (e, x)) := by
  -- Each event hands `Follows` on to the next one, with the frames seen so far.
  induction events generalizing before first e x with
  | nil => exact Shot.allRight_nil before
  | cons event rest ih =>
    cases event with
    | elsewhere f => exact ih (h.elsewhere f)
    | reset =>
      rw [Machine.film]
      split
      · next hreset => exact ih (h.reset hreset)
      · exact Shot.allRight_nil before
    | frame =>
      rw [Machine.film]
      split
      · next r e' x' hframe =>
        have hshows := Emulation.runFrame_shows hframe
        have hright := h.right hshows
        exact Shot.allRight_cons hright (ih (hshows.follows hright))
      · next e' x' hframe =>
        refine Shot.allRight_cons ?_ (Shot.allRight_nil _)
        obtain ⟨n, hn, hcalls⟩ | ⟨hsame, hcalls⟩ := Emulation.runFrame_breaks hframe
        · exact h.right_broken hn hcalls
        · exact h.right_undrawn hsame hcalls

end Follows

end

/-- The parts of a pipeline, with a renderer that records its calls. -/
def Parts.recorded {P R : Type} (parts : Parts P R) : Parts P (Recorded R) :=
  { parts with renderer := { renderer := parts.renderer } }

/-- **The renderer always has the right geometry,** whatever processors, frames, resets and all else
    do in between: a record of its calls changes none of the reports, and shows every frame to be
    right. -/
theorem geometry_kept {P R : Type} [Processors P] [Renderer R] (c : Config) (parts : Parts P R)
    (events : List (Event P)) :
    let shots := film true events (Pipeline.emulationFor c parts.recorded, {})
    shots.map (·.report) = reports events (Pipeline.emulationFor c parts, {}) ∧
      ∀ i : Fin shots.length, shots[i].Right (shots.take i) := by
  intro shots
  have hstart : Follows [] true (Pipeline.emulationFor c parts.recorded) := ⟨rfl, rfl, nofun⟩
  exact ⟨film_reports true events _ {}, hstart.film events⟩

/-- A console that becomes a PAL one as its first frame runs: that frame is not any taller, and the
    second one is drawn although it was to be skipped. -/
example :
    let m68kScript : List Bench.Cue := [⟨100, [.registers (.setRegion .pal)]⟩]
    let parts := Bench.parts {} { m68kScript := some m68kScript }
    let comesBack : Event Bench.StandIns := .elsewhere fun (e, x) => (e, x.frame.elim {} .returning)
    (film true [.frame, comesBack, .frame]
      (Pipeline.emulationFor {} parts.recorded, {})).map (·.calls) =
        [.configure 320 224 :: linesDrawn 224, .configure 320 240 :: linesDrawn 240] := by
  decide +kernel

end ConsolePipeline.Machine
