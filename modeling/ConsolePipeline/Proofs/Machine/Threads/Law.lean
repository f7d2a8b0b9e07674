import ConsolePipeline.Bench.Assembly
import ConsolePipeline.Proofs.Machine.Threads.Progress

namespace ConsolePipeline.Machine

open Handoff Sound

/-!
# Two threads do what a pipeline in lockstep does

Whichever thread takes the next step, the frames that are mixed are those that were sent, in order,
and the run comes to the end that the same frames in lockstep come to.

* `Threads.sent`, `mixed` — the frames that the steps of a schedule send off and mix.
* `Threads.Follows` — what a run has done so far, held against the frames in lockstep.
* `Threads.Follows.step`, `run` — each step and each schedule keeps that.
* `Threads.Follows.ends` — both threads finish if both get turns.
* `Threads.AsLockstep` — what that says about frames, reports, counters and what is heard.
* `threads_run_as_lockstep` — it holds under every schedule.
-/

namespace Threads

variable {P R κ : Type} {t t' : Threads P R κ}

/-- **A step of one thread,** as the other one and what is left to do see it. -/
structure Advances (side : Side) (t t' : Threads P R κ) : Prop where
  work : t'.work ≤ t.work
  gain : t.able side = true → t'.work < t.work
  others : ∀ other, other ≠ side → t.able other = true → t'.able other = true

theorem EmulationMove.advances (h : EmulationMove t t') : Advances .emulation t t' := by
  refine ⟨h.work, h.gain, fun other hother hable => ?_⟩
  cases other with
  | emulation => exact absurd rfl hother
  | audio =>
    rw [able, h.audio]
    exact AudioTask.able_mono h.ready h.stopped hable

theorem AudioMove.advances (h : AudioMove t t') : Advances .audio t t' := by
  refine ⟨h.work, h.gain, fun other hother hable => ?_⟩
  cases other with
  | emulation =>
    rw [able, h.emulation, h.sender]
    exact EmulationTask.able_mono h.back hable
  | audio => exact absurd rfl hother

variable [Processors P] [Renderer R]

/-- The frames that the steps of a schedule send off. -/
def sent : (schedule : List Side) → Threads P R κ → List FrameAudio
  | [], _ => []
  | side :: rest, t => t.sentBy side ++ sent rest (t.step side)

/-- The frames that the steps of a schedule mix. -/
def mixed : (schedule : List Side) → Threads P R κ → List FrameAudio
  | [], _ => []
  | side :: rest, t => t.mixedBy side ++ mixed rest (t.step side)

variable {p p' s : Pipeline P R κ} {n left : Nat}
  {reports : Array FrameReport} {sent mixed behind : List FrameAudio}

/-! ### One step -/

/-- **What a run has done so far,** held against `n` frames in lockstep from `p` to `p'`: it is
    around one of their states, from which the rest of them follows. -/
structure Follows (p p' : Pipeline P R κ) (n : Nat) (reports : Array FrameReport)
    (sent mixed : List FrameAudio) (s : Pipeline P R κ) (left : Nat) (behind : List FrameAudio)
    (t : Threads P R κ) : Prop where
  around : Around s left behind t
  rests : Rests s.emulation.sender s.exchange
  rest : Pipeline.run left t.reports s = .ok reports p'
  pending : sent = mixed ++ behind
  count : sent.length + left = n
  frame : s.emulation.loop.frame = sent.length
  numbered : sent.map (·.frame) = List.range sent.length
  seen : t.pipeline.audio.seen = mixed.foldl (fun seen a => p.audio.look a seen) p.audio.seen
  look : t.pipeline.audio.look = p.audio.look

theorem Follows.emulationStep (h : Follows p p' n reports sent mixed s left behind t) :
    ∃ s' left' behind', Follows p p' n reports (sent ++ t.sentBy .emulation) mixed s' left' behind'
      t.emulationStep ∧ EmulationMove t t.emulationStep := by
  have hnext : ∀ k, left = k + 1 → ∃ r s', Pipeline.step s = .ok r s' := by
    rintro k rfl
    obtain ⟨r, s', hstep, -⟩ := Pipeline.run_succ_inv h.rest
    exact ⟨r, s', hstep⟩
  obtain hgoes | ⟨k, a, s', rfl, rfl, hsends⟩ := h.around.emulationStep h.rests hnext
  · -- Nothing is sent off, and the rest follows from the same state as before.
    rw [hgoes.sentBy, List.append_nil]
    refine ⟨s, left, behind, ⟨hgoes.around, h.rests, ?_, h.pending, h.count, h.frame, h.numbered,
      ?_, ?_⟩, hgoes.move⟩
    · rw [hgoes.reports]
      exact h.rest
    · rw [hgoes.move.core]
      exact h.seen
    · rw [hgoes.move.core]
      exact h.look
  · -- The frame that is sent off is the next one, and the rest follows from the next state on.
    obtain ⟨r, hstep, hreports⟩ := hsends.step
    obtain ⟨r', s'', hstep', hrest⟩ := Pipeline.run_succ_inv h.rest
    rw [hstep] at hstep'
    cases hstep'
    obtain ⟨d, e₁, e₂, hframe⟩ := Pipeline.step_inv h.rests hstep
    obtain ⟨hrests, hnumber⟩ := hframe.next
    have hcount := h.count
    have hsent : sent = mixed := h.pending.trans (List.append_nil mixed)
    rw [hsends.sentBy]
    refine ⟨s', k, [a], ⟨hsends.around, hrests, ?_, by rw [hsent], ?_, ?_, ?_, ?_, ?_⟩, hsends.move⟩
    · rw [hreports]
      exact hrest
    · rw [List.length_append, List.length_singleton]
      omega
    · rw [hnumber, h.frame, List.length_append, List.length_singleton]
    · rw [List.map_append, h.numbered, List.length_append, List.length_singleton, List.range_succ,
        List.map_singleton, hsends.frame, h.frame]
    · rw [hsends.move.core]
      exact h.seen
    · rw [hsends.move.core]
      exact h.look

theorem Follows.audioStep (h : Follows p p' n reports sent mixed s left behind t) :
    ∃ behind', Follows p p' n reports sent (mixed ++ t.mixedBy .audio) s left behind'
      t.audioStep ∧ AudioMove t t.audioStep := by
  obtain hstays | ⟨a, rfl, hcatches⟩ := h.around.audioStep h.rests
  · rw [hstays.mixedBy, List.append_nil]
    refine ⟨behind, ⟨hstays.around, h.rests, ?_, h.pending, h.count, h.frame, h.numbered, ?_, ?_⟩,
      hstays.move⟩
    · rw [hstays.move.reports]
      exact h.rest
    · rw [hstays.core]
      exact h.seen
    · rw [hstays.core]
      exact h.look
  · -- The frame that was behind joins those that are mixed, so none is behind any more.
    rw [hcatches.mixedBy]
    refine ⟨[], ⟨hcatches.around, h.rests, ?_, ?_, h.count, h.frame, h.numbered, ?_, ?_⟩,
      hcatches.move⟩
    · rw [hcatches.move.reports]
      exact h.rest
    · rw [List.append_nil]
      exact h.pending
    · rw [hcatches.seen, h.look, h.seen, List.foldl_append, List.foldl_cons, List.foldl_nil]
    · rw [hcatches.look]
      exact h.look

/-- **Each step keeps what has been done,** whichever thread takes it. -/
theorem Follows.step (h : Follows p p' n reports sent mixed s left behind t) (side : Side) :
    ∃ s' left' behind', Follows p p' n reports (sent ++ t.sentBy side) (mixed ++ t.mixedBy side) s'
      left' behind' (t.step side) ∧ Advances side t (t.step side) := by
  cases side with
  | emulation =>
    obtain ⟨s', left', behind', hfollows, hmove⟩ := h.emulationStep
    refine ⟨s', left', behind', ?_, hmove.advances⟩
    rw [show t.mixedBy .emulation = [] from rfl, List.append_nil]
    exact hfollows
  | audio =>
    obtain ⟨behind', hfollows, hmove⟩ := h.audioStep
    refine ⟨s, left, behind', ?_, hmove.advances⟩
    rw [show t.sentBy .audio = [] from rfl, List.append_nil]
    exact hfollows

/-- **Each schedule keeps it.** -/
theorem Follows.run (schedule : List Side)
    (h : Follows p p' n reports sent mixed s left behind t) :
    ∃ s' left' behind', Follows p p' n reports (sent ++ t.sent schedule) (mixed ++ t.mixed schedule)
      s' left' behind' (t.run schedule) ∧ (t.run schedule).work ≤ t.work := by
  -- The state in lockstep, too, may be another one after each step.
  induction schedule generalizing sent mixed s left behind t with
  | nil =>
    refine ⟨s, left, behind, ?_, Nat.le_refl _⟩
    rw [Threads.sent, Threads.mixed, List.append_nil, List.append_nil]
    exact h
  | cons side rest ih =>
    obtain ⟨s₁, left₁, behind₁, hstep, hadvances⟩ := h.step side
    obtain ⟨s₂, left₂, behind₂, hrun, hwork⟩ := ih hstep
    refine ⟨s₂, left₂, behind₂, ?_, Nat.le_trans hwork hadvances.work⟩
    rw [Threads.sent, Threads.mixed, ← List.append_assoc, ← List.append_assoc]
    exact hrun

/-! ### The end -/

theorem run_append (schedule rest : List Side) (t : Threads P R κ) :
    t.run (schedule ++ rest) = (t.run schedule).run rest := by
  induction schedule generalizing t with
  | nil => rfl
  | cons side schedule ih => exact ih (t.step side)

/-- Threads that have finished stay as they are. -/
theorem Finished.step (h : Finished t) (side : Side) : t.step side = t := by
  obtain ⟨pipeline, remaining, task, audioTask, stopped, reports⟩ := t
  obtain ⟨hemulation, haudio⟩ := h
  dsimp only at hemulation haudio
  subst hemulation haudio
  cases side <;> rfl

theorem Finished.run (h : Finished t) (schedule : List Side) : t.run schedule = t := by
  induction schedule with
  | nil => rfl
  | cons side rest ih =>
    rw [Threads.run, h.step side]
    exact ih

/-- A thread that gets further with its next step does so once it gets a turn. -/
theorem Follows.gains {side : Side} {round : List Side}
    (h : Follows p p' n reports sent mixed s left behind t) (hable : t.able side = true)
    (hturn : side ∈ round) : (t.run round).work < t.work := by
  induction round generalizing sent mixed s left behind t with
  | nil => cases hturn
  | cons first rest ih =>
    obtain ⟨s₁, left₁, behind₁, hstep, hadvances⟩ := h.step first
    by_cases hfirst : side = first
    · subst hfirst
      obtain ⟨s₂, left₂, behind₂, -, hwork⟩ := hstep.run rest
      exact Nat.lt_of_le_of_lt hwork (hadvances.gain hable)
    · -- The other thread's turn leaves this one able, and what is left grows no larger.
      have hturn : side ∈ rest := (List.mem_cons.mp hturn).resolve_left hfirst
      exact Nat.lt_of_lt_of_le (ih hstep (hadvances.others side hfirst hable) hturn)
        hadvances.work

/-- **Both threads finish** if both get turns, in as many rounds as there is work left. -/
theorem Follows.ends (rounds : List (List Side))
    (h : Follows p p' n reports sent mixed s left behind t)
    (hturns : ∀ round ∈ rounds, .emulation ∈ round ∧ .audio ∈ round)
    (hwork : t.work ≤ rounds.length) : Finished (t.run rounds.flatten) := by
  induction rounds generalizing sent mixed s left behind t with
  | nil =>
    obtain hfinished | ⟨side, hable⟩ := h.around.exists_able h.rests
    · exact hfinished
    · -- With no work left, neither thread can get further.
      have hless := h.gains hable (List.mem_singleton_self side)
      exact absurd hless (Nat.not_lt_of_le (Nat.le_trans hwork (Nat.zero_le _)))
  | cons round rest ih =>
    rw [List.flatten_cons, run_append]
    obtain hfinished | ⟨side, hable⟩ := h.around.exists_able h.rests
    · rw [hfinished.run, hfinished.run]
      exact hfinished
    · -- Whichever thread is able gets a turn in this round.
      obtain ⟨hemulation, haudio⟩ := hturns round List.mem_cons_self
      have hturn : side ∈ round := by
        cases side
        · exact hemulation
        · exact haudio
      have hless := h.gains hable hturn
      obtain ⟨s₁, left₁, behind₁, hrun, -⟩ := h.run round
      rw [List.length_cons] at hwork
      exact ih hrun (fun other hother => hturns other (List.mem_cons_of_mem _ hother))
        (by omega)

/-! ### The whole run -/

/-- **As in lockstep:** what two threads have done, held against `n` frames in lockstep from `p` to
    `p'` that gave these reports. -/
structure AsLockstep (p p' : Pipeline P R κ) (n : Nat) (reports : Array FrameReport)
    (sent mixed : List FrameAudio) (t : Threads P R κ) : Prop where
  /-- Neither thread fails. -/
  unfailing : ∀ fault, t.emulation ≠ .failed fault ∧ t.audio ≠ .failed fault
  /-- What has been mixed is what was sent, in that order. -/
  intact : mixed <+: sent
  numbered : sent.map (·.frame) = List.range sent.length
  atMost : sent.length ≤ n
  /-- The observer has seen each frame that was mixed, once. -/
  observed : t.pipeline.audio.seen = mixed.foldl (fun seen a => p.audio.look a seen) p.audio.seen
  /-- The audio thread leaves no frame unmixed. -/
  complete : t.audio = .finished →
    mixed = sent ∧ sent.length = n ∧ t.pipeline.exchange.frameReady = false
  /-- Then the reports, the counters and the audio side with all it has played are the same. -/
  outcome : t.audio = .finished →
    t.outcome = .ok (reports, p'.stats) ∧ t.pipeline.audio = p'.audio
  /-- Both threads finish, in so many rounds in which both get a turn. -/
  ends : ∀ rounds : List (List Side), (∀ round ∈ rounds, .emulation ∈ round ∧ .audio ∈ round) →
    7 * n + 6 ≤ rounds.length → Finished (t.run rounds.flatten)

/-- No thread fails. -/
theorem Around.unfailing (h : Around s left behind t) (fault : Fault) :
    t.emulation ≠ .failed fault ∧ t.audio ≠ .failed fault := by
  obtain ⟨⟨emulation, exchange, audio, notices⟩, remaining, task, audioTask, stopped, reports⟩ := t
  obtain ⟨⟨holds, hworking, hlistening⟩, -, -⟩ := h
  dsimp only at hworking hlistening
  constructor
  · rintro rfl
    cases hworking
  · rintro rfl
    cases hlistening with
    | home hidle => cases hidle
    | back hidle => cases hidle
    | sent hidle => cases hidle

/-- **When the audio thread has finished,** so has the emulation thread, and both are where lockstep
    has ended. -/
theorem Around.finished (h : Around s left behind t) (haudio : t.audio = .finished) :
    left = 0 ∧ behind = [] ∧ t.emulation = .finished ∧ t.pipeline.exchange = {} ∧
      t.pipeline.audio = s.audio ∧ t.pipeline.stats = s.stats := by
  obtain ⟨⟨emulation, exchange, audio, notices⟩, remaining, task, audioTask, stopped, reports⟩ := t
  obtain ⟨⟨holds, hworking, hlistening⟩, -, -⟩ := h
  dsimp only at hworking hlistening haudio
  subst haudio
  -- Only a thread that has been stopped finishes, and that is when all buffers are home.
  cases hlistening with
  | home hidle =>
    cases hidle
    cases hworking with
    | finished hloop hpublished =>
      refine ⟨rfl, rfl, rfl, rfl, rfl, ?_⟩
      simp only [Pipeline.stats, Pipeline.statsOf, hloop, hpublished]
  | back hidle => cases hidle
  | sent hidle => cases hidle

theorem Follows.asLockstep (h : Follows p p' n reports sent mixed s left behind t)
    (hwork : t.work ≤ 7 * n + 6) : AsLockstep p p' n reports sent mixed t where
  unfailing := h.around.unfailing
  intact := ⟨behind, h.pending.symm⟩
  numbered := h.numbered
  atMost := h.count ▸ Nat.le_add_right _ _
  observed := h.seen
  complete haudio := by
    obtain ⟨rfl, rfl, -, hexchange, -, -⟩ := h.around.finished haudio
    refine ⟨?_, h.count, by rw [hexchange]⟩
    rw [h.pending, List.append_nil]
  outcome haudio := by
    obtain ⟨rfl, rfl, hemulation, -, hsame, hstats⟩ := h.around.finished haudio
    -- No frame is left, so lockstep has ended in this state, too.
    have hend : EStateM.Result.ok t.reports s = .ok reports p' := h.rest
    cases hend
    exact ⟨by rw [Threads.outcome, hemulation, haudio, hstats], hsame⟩
  ends rounds hturns hrounds := h.ends rounds hturns (Nat.le_trans hwork hrounds)

end Threads

/-- What a pipeline is like that has been built. -/
theorem Pipeline.build_inv {P R κ : Type} {c : Config} {parts : Parts P R}
    {look : FrameAudio → κ → κ} {seen : κ} {p : Pipeline P R κ}
    (h : build c parts look seen = .ok p) :
    ∃ player, p =
      { emulation := emulationFor c parts
        audio := audioFor c player look seen
        notices := #[readyEntry c] } := by
  rw [build] at h
  obtain ⟨_, -, h⟩ := Run.bind_eq_ok h
  obtain ⟨player, -, h⟩ := Run.bind_eq_ok h
  exact ⟨player, (Except.ok.inj h).symm⟩

/-- Whether so many frames in lockstep come to an end on a pipeline for a configuration. -/
def completes {P R κ : Type} [Processors P] [Renderer R] (c : Config) (parts : Parts P R)
    (look : FrameAudio → κ → κ) (seen : κ) (n : Nat) : Bool :=
  match Pipeline.build c parts look seen with
  | .ok p => match Pipeline.run n #[] p with
    | .ok _ _ => true
    | .error _ _ => false
  | .error _ => false

section Law

open Threads

variable {P R κ : Type} [Processors P] [Renderer R] {c : Config} {parts : Parts P R}
  {look : FrameAudio → κ → κ} {seen : κ} {p p' : Pipeline P R κ} {n : Nat}
  {reports : Array FrameReport}

theorem exists_of_completes (h : completes c parts look seen n = true) :
    ∃ p reports p', Pipeline.build c parts look seen = .ok p ∧
      Pipeline.run n #[] p = .ok reports p' := by
  rw [completes] at h
  cases hbuild : Pipeline.build c parts look seen with
  | error reason =>
    rw [hbuild] at h
    cases h
  | ok p =>
    cases hrun : Pipeline.run n #[] p with
    | error fault p' =>
      simp only [hbuild, hrun] at h
      cases h
    | ok reports p' => exact ⟨p, reports, p', rfl, hrun⟩

/-- Before the first step nothing has been done. -/
theorem Threads.follows_start (hbuild : Pipeline.build c parts look seen = .ok p)
    (hrun : Pipeline.run n #[] p = .ok reports p') :
    Follows p p' n reports [] [] p n [] (start n p) := by
  obtain ⟨player, rfl⟩ := Pipeline.build_inv hbuild
  exact ⟨⟨⟨false, .make n, .back .poll⟩, rfl, rfl⟩, .first rfl, hrun, rfl, Nat.zero_add n, rfl, rfl,
    rfl, rfl⟩

/-- **Two threads do what a pipeline in lockstep does,** under every schedule: if so many frames in
    lockstep come to an end, the threads mix the same frames and leave the same behind. Time passes
    for the player only as the calls let it pass, so this is not about a player in real time; and
    there has to be room for the reports (`reportLimit`). -/
theorem threads_run_as_lockstep (c : Config) (parts : Parts P R) (look : FrameAudio → κ → κ)
    (seen : κ) (hbuild : Pipeline.build c parts look seen = .ok p)
    (hrun : Pipeline.run n #[] p = .ok reports p') (schedule : List Side) :
    AsLockstep p p' n reports ((start n p).sent schedule) ((start n p).mixed schedule)
      ((start n p).run schedule) := by
  obtain ⟨s, left, behind, hfollows, hwork⟩ := (follows_start hbuild hrun).run schedule
  rw [List.nil_append, List.nil_append] at hfollows
  refine hfollows.asLockstep (Nat.le_trans hwork ?_)
  obtain ⟨player, rfl⟩ := Pipeline.build_inv hbuild
  show 7 * n + 3 + 3 ≤ 7 * n + 6
  omega

/-- A configuration with frames of eight words and a ring for some of them. -/
def shortFrames : Config where
  mixer := { samplesPerFrame := 8, crossfadeLen := 4 }
  ring := { size := 64, margin := 16, guard := 8 }

/-- Three short frames on the test bench come to an end; an observer notes their numbers. -/
theorem three_frames_run_as_lockstep :
    ∃ p reports p', Pipeline.build shortFrames (Bench.parts shortFrames {})
        (fun a seen => seen ++ [a.frame]) [] = .ok p ∧
      Pipeline.run 3 #[] p = .ok reports p' ∧
      ∀ schedule, AsLockstep p p' 3 reports ((start 3 p).sent schedule)
        ((start 3 p).mixed schedule) ((start 3 p).run schedule) := by
  have hcompletes : completes shortFrames (Bench.parts shortFrames {})
      (fun a seen => seen ++ [a.frame]) [] 3 = true := by decide +kernel
  obtain ⟨p, reports, p', hbuild, hrun⟩ := exists_of_completes hcompletes
  exact ⟨p, reports, p', hbuild, hrun, threads_run_as_lockstep _ _ _ _ hbuild hrun⟩

end Law

end ConsolePipeline.Machine
