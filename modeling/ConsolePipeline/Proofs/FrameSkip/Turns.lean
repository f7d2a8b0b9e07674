import ConsolePipeline.Proofs.FrameSkip.Tally

namespace ConsolePipeline.FrameSkip

/-!
# Consecutive frames

A frame loop asks a controller about one frame after the other. Between two decisions it reports
what it has measured, as often as it likes, and each decision may be forced.

* `Turn`, `callsFrom` — consecutive frames, and the calls that they come to.
* `renderedFrom` — the numbers of the frames that were rendered.
* `History.run_callsFrom` — what each measurement keeps and each decision carries on holds at the
  end.
* `History.forces_callsFrom` — there is one decision for each frame, in order.
-/

/-- What is measured between two decisions. -/
inductive Measurement
  | rendered (us : UInt32)
  | finished (t : Timing)
  deriving DecidableEq, Repr, Inhabited

def Measurement.call : Measurement → Call
  | rendered us => .recordRender us
  | finished t => .finishFrame t

/-- The decision on one frame, with what was measured since the one before. -/
structure Turn where
  measured : List Measurement := []
  force : Bool := false
  deriving DecidableEq, Repr, Inhabited

/-- The calls of consecutive frames, of which the first has the number `first`. -/
def callsFrom (first : Nat) : List Turn → List Call
  | [] => []
  | turn :: rest =>
    turn.measured.map Measurement.call ++ .decide first turn.force :: callsFrom (first + 1) rest

/-- The numbers of the frames that were rendered, in order. -/
def renderedFrom (first : Nat) (rs : List Ruling) : List Nat :=
  ((rs.zipIdx first).filter (·.1.decision.render)).map (·.2)

theorem renderedFrom_concat (first : Nat) (rs : List Ruling) (r : Ruling) :
    renderedFrom first (rs ++ [r]) =
      renderedFrom first rs ++ if r.decision.render then [first + rs.length] else [] := by
  rw [renderedFrom, List.zipIdx_append, List.filter_append, List.map_append, renderedFrom]
  cases h : r.decision.render <;> simp [h]

namespace History

variable {h : History}

/-- A decision goes to the end of the history. -/
theorem call_decide (c : Controller) (rs : List Ruling) (n : Nat) (force : Bool) :
    call ⟨c, rs⟩ (.decide n force) = ⟨(c.decide n force).2, rs ++ [ruling c n force]⟩ :=
  rfl

theorem run_append (h : History) (calls more : List Call) :
    h.run (calls ++ more) = (h.run calls).run more :=
  List.foldl_append

/-- Measurements add no decision. -/
theorem rulings_measured (h : History) (ms : List Measurement) :
    (h.run (ms.map Measurement.call)).rulings = h.rulings := by
  induction ms generalizing h with
  | nil => rfl
  | cons m ms ih =>
    have hfirst : (h.call m.call).rulings = h.rulings := by cases m <;> rfl
    exact (ih (h.call m.call)).trans hfirst

/-- **A run over consecutive frames.** `I n h` is what holds before the decision on frame `n`. -/
theorem run_callsFrom {I : Nat → History → Prop}
    (hmeasured : ∀ n h (m : Measurement), I n h → I n (h.call m.call))
    (hdecided : ∀ n h force, I n h → I (n + 1) (h.call (.decide n force)))
    {first : Nat} (hI : I first h) (turns : List Turn) :
    I (first + turns.length) (h.run (callsFrom first turns)) := by
  induction turns generalizing first h with
  | nil => exact hI
  | cons turn rest ih =>
    have hready : I first (h.run (turn.measured.map Measurement.call)) := by
      generalize turn.measured = ms
      induction ms generalizing h with
      | nil => exact hI
      | cons m ms ihm => exact ihm (hmeasured first h m hI)
    rw [callsFrom, run_append, List.length_cons,
      show first + (rest.length + 1) = first + 1 + rest.length by omega]
    exact ih (hdecided first _ turn.force hready)

/-- There is one decision for each frame, and it is forced where the frame says so. -/
theorem forces_callsFrom (h : History) (first : Nat) (turns : List Turn) :
    (h.run (callsFrom first turns)).rulings.map (·.force) =
      h.rulings.map (·.force) ++ turns.map (·.force) := by
  induction turns generalizing first h with
  | nil => simp [callsFrom, run]
  | cons turn rest ih =>
    have hdecide : ∀ h' : History, (h'.call (.decide first turn.force)).rulings.map (·.force) =
        h'.rulings.map (·.force) ++ [turn.force] := by
      intro h'
      rw [call, List.map_append]
      rfl
    rw [callsFrom, run_append, run, List.foldl_cons, ← run, ih, hdecide, rulings_measured,
      List.append_assoc, List.map_cons, List.singleton_append]

end History

end ConsolePipeline.FrameSkip
