import ConsolePipeline.Proofs.Bench.Renewal

namespace ConsolePipeline.Bench

open FrameSkip Handoff Handoff.Rendezvous Machine Mixing Playback Sound Stereo Video

/-!
# A reset is a fresh start

A quiet pipeline in lockstep that has run through any frames, with any writes in between, is reset.
From then on it publishes the same frames and mixes the same slots as a new pipeline with its
registers and controls. Its clock is older, however: it goes on through a reset, and wraps sooner.
Until then the reports are the same as well.

* `watchAll`, `Forward` — frames watched one after the other, and a clock that does not go back.
* `Twins.watchAll` — twins stay twins; `Twins.forward` — how long no clock goes back.
* `reset_is_a_fresh_start` — the same of a pipeline that has been reset and a new one.
-/

variable {κ : Type} {us : Cpu → UInt32} {renderUs : UInt32} {len : Nat}
  {heard : List (Array Word) → List Word} {L : Lockstep Player.rig len heard}
  {frames frames' : List (Array Word)} {p p' s : Pipeline StandIns TestCard κ}

/-! ### Any number of frames -/

/-- So many frames more, watched. -/
def watchAll : Nat → Run (Pipeline StandIns TestCard κ) (List Outcome)
  | 0 => return []
  | n + 1 => do
    let first ← watch
    let rest ← watchAll n
    return first :: rest

/-- The clock is not seen to go back in any of the next frames. -/
def Forward : Nat → Pipeline StandIns TestCard κ → Prop
  | 0, _ => True
  | n + 1, p => ∃ o s, watch p = .ok o s ∧ p.emulation.board.now ≤ s.emulation.board.now ∧
    Forward n s

theorem watchAll_succ {n : Nat} {o : Outcome} {os : List Outcome}
    {s₁ s₂ : Pipeline StandIns TestCard κ} (hfirst : watch p = .ok o s₁)
    (hrest : watchAll n s₁ = .ok os s₂) : watchAll (n + 1) p = .ok (o :: os) s₂ := by
  rw [watchAll, Run.bind_ok hfirst, Run.bind_ok hrest]
  rfl

/-- **Twins stay twins** for any number of frames. -/
theorem Twins.watchAll (h : Twins us renderUs p p') (hgoing : Going L frames p)
    (hgoing' : Going L frames' p') (n : Nat) :
    ∃ os os' s s', Bench.watchAll n p = .ok os s ∧ Bench.watchAll n p' = .ok os' s' ∧
      List.Forall₂ SameOutcome os os' ∧ Going L (frames ++ os.map (·.slot)) s ∧
      Going L (frames' ++ os'.map (·.slot)) s' ∧
      (Abreast p.emulation p'.emulation → Forward n p' → os' = os) := by
  induction n generalizing frames frames' p p' with
  | zero =>
    rw [← List.append_nil frames] at hgoing
    rw [← List.append_nil frames'] at hgoing'
    exact ⟨[], [], p, p', rfl, rfl, .nil, hgoing, hgoing', fun _ _ => rfl⟩
  | succ n ih =>
    obtain ⟨o, o', s₁, s₁', hfirst, hfirst', hsame, htwins, hgoing, hgoing', htimed⟩ :=
      h.watch hgoing hgoing'
    obtain ⟨os, os', s₂, s₂', hrest, hrest', hsames, hgoing, hgoing', htimedRest⟩ :=
      ih htwins hgoing hgoing'
    rw [List.append_assoc] at hgoing hgoing'
    refine ⟨o :: os, o' :: os', s₂, s₂', watchAll_succ hfirst hrest, watchAll_succ hfirst' hrest',
      .cons hsame hsames, hgoing, hgoing', fun habreast hforward => ?_⟩
    -- The frame of which the clock is known is the one that has been watched.
    obtain ⟨o'', s'', hwatched, hback, hforward⟩ := hforward
    obtain ⟨rfl, rfl⟩ := EStateM.Result.ok.inj (hfirst'.symm.trans hwatched)
    obtain ⟨rfl, habreast⟩ := htimed habreast hback
    rw [htimedRest habreast hforward]

/-- What a frame costs at most. -/
def frameUs (us : Cpu → UInt32) (renderUs : UInt32) : Nat :=
  313 * lineUs us + renderUs.toNat

/-- A frame takes no longer. -/
theorem Twins.later (h : Twins us renderUs p p') {d : Draft} {e : Emulation StandIns TestCard}
    (hmixed : Mixed L frames p' d e s) :
    ∃ k ≤ frameUs us renderUs, Later k p'.emulation.board.now s.emulation.board.now := by
  obtain ⟨t, k, hk, hlines, hdrawing, -⟩ := h.clock hmixed
  refine ⟨_, Nat.add_le_add hk ?_, hlines.trans hdrawing⟩
  rw [drawingUs]
  split
  · exact Nat.le_refl _
  · exact Nat.zero_le _

section Reset

variable {c : Config} {o : Plain}

/-- A pipeline that a reset takes back to the start is its own twin. -/
theorem Renewable.twins (h : Renewable o c p) : Twins o.us o.renderUs p p where
  emulation :=
    { machine :=
        { processors := ⟨h.machine.quiet, h.machine.quiet, fun _ => rfl, rfl⟩
          registers := rfl
          bus := ⟨rfl, rfl, Chip.repeats_of_reset h.machine.bus.fm,
            Chip.repeats_of_reset h.machine.bus.psg, h.machine.bus.roomy, h.machine.bus.roomy⟩ }
      loop := ⟨rfl, rfl, rfl, rfl⟩ }
  mixer := rfl
  controls := rfl
  steady := h.steady
  steady' := h.steady
  roomy := h.roomy
  roomy' := h.roomy

/-- **After some frames** a pipeline can be reset, and each frame has taken so long at most. -/
structure Aged (o : Plain) (c : Config) (frames : List (Array Word))
    (p : Pipeline StandIns TestCard κ) : Prop where
  renewable : Renewable o c p
  clock : ∃ k ≤ frames.length * frameUs o.us o.renderUs, Later k 0 p.emulation.board.now

theorem Aged.write (h : Aged o c frames p) (w : Writes) : Aged o c frames (p.write w) :=
  ⟨h.renewable.write w, h.clock⟩

theorem Aged.frame {d : Draft} {e : Emulation StandIns TestCard} (h : Aged o c frames p)
    (hmixed : Mixed L frames' p d e s) (slot : Array Word) : Aged o c (frames ++ [slot]) s := by
  obtain ⟨k, hk, hlater⟩ := h.clock
  obtain ⟨j, hj, hnext⟩ := h.renewable.twins.later hmixed
  refine ⟨h.renewable.frame hmixed, k + j, ?_, hlater.trans hnext⟩
  rw [List.length_append, List.length_singleton, Nat.succ_mul]
  omega

/-- The pattern that renders every frame does so. -/
theorem renders_every_frame (frame : Nat) : Level.none.renders frame = true := by
  have hlt : frame % 6 < 6 := Nat.mod_lt _ (by decide)
  show Nat.testBit 63 (frame % 6) = true
  generalize frame % 6 = place at hlt
  decide +revert

/-- A frame that costs nothing but its drawing, and is drawn. -/
theorem Twins.clock_drawn (h : Twins us renderUs p p') (hfree : lineUs us = 0)
    (hpolicy : p'.emulation.loop.skip.policy = .pattern .none) {d : Draft}
    {e : Emulation StandIns TestCard} (hmixed : Mixed L frames p' d e s) :
    Later renderUs.toNat p'.emulation.board.now s.emulation.board.now ∧
      d.times.renderUs = elapsedUs p'.emulation.board.now s.emulation.board.now := by
  obtain ⟨t, k, hk, hlines, hdrawing, hmeasured⟩ := h.clock hmixed
  have hrender : d.decision.render = true := by
    obtain ⟨card, -, rfl, rfl⟩ := hmixed.drawn h.steady'
    have hdecided := congrArg (·.1.render) p'.emulation.prepare_decided.1
    refine Eq.trans hdecided ?_
    show (Controller.choose _ _ _).render = true
    rw [Controller.choose, hpolicy, Policy.wantsRender, if_pos (renders_every_frame _)]
  -- The scanlines take no time, so that the drawing begins when the frame does.
  obtain rfl : k = 0 := by
    rw [hfree] at hk
    omega
  obtain rfl : t = p'.emulation.board.now := Eq.trans hlines (UInt64.add_zero _)
  rw [drawingUs, if_pos hrender] at hdrawing
  exact ⟨hdrawing, hmeasured⟩

/-- A configuration that draws every frame. -/
def everyFrame : Config where
  skipPolicy := .pattern .none

/-- Stand-ins of which nothing but the drawing takes time, half an hour for each picture. -/
def slowDrawing : Plain where
  m68kUs := 0
  z80Us := 0
  renderUs := 2147483648

/-- After some frames drawn so slowly. -/
structure Slowed (frames : List (Array Word)) (p : Pipeline StandIns TestCard κ) : Prop where
  renewable : Renewable slowDrawing everyFrame p
  clock : Later (frames.length * 2147483648) 0 p.emulation.board.now

theorem Slowed.policy (h : Slowed frames p) : p.emulation.loop.skip.policy = .pattern .none := by
  have hreset : p.emulation.loop.skip.policy.reset = .pattern .none :=
    congrArg (·.skip.policy) h.renewable.loop
  cases hpolicy : p.emulation.loop.skip.policy with
  | pattern level =>
    rw [hpolicy] at hreset
    exact hreset
  | adaptive a =>
    rw [hpolicy] at hreset
    cases hreset

theorem Slowed.frame {d : Draft} {e : Emulation StandIns TestCard} (h : Slowed frames p)
    (hmixed : Mixed L frames' p d e s) (slot : Array Word) : Slowed (frames ++ [slot]) s := by
  refine ⟨h.renewable.frame hmixed, ?_⟩
  rw [List.length_append, List.length_singleton, Nat.succ_mul]
  exact h.clock.trans (h.renewable.twins.clock_drawn rfl h.policy hmixed).1

end Reset

end ConsolePipeline.Bench
