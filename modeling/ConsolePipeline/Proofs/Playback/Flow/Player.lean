import ConsolePipeline.Proofs.Playback.Flow.Ring
import ConsolePipeline.Proofs.Playback.Flow.Slots

namespace ConsolePipeline.Playback

open Stereo

/-!
# Time flows evenly: players

Whatever strategy a player follows, it makes no difference into which stretches hardware time is
cut: what the player has played, its slots, its channels, its cursors and its counters come out the
same. With a ring, what has been noted of an underrun tells how far the reader was when it was next
looked at, and that is all that differs.

* `Flows.carried` — time flows for the player as for its strategy.
* `Player.Sound`, `Sound.call` — the states between calls, of any strategy.
* `Player.advance_add` — time flows evenly after any run of calls.
-/

/-- A player whose strategy's time flows evenly. -/
theorem Flows.carried {σ τ υ : Type} {Q : Port τ} {P : Port σ} {put : σ → τ}
    (h : Q.Carries P put) {view : σ → υ} {d : σ} (hflows : Flows P.advance P.deck view d)
    {υ' : Type} {view' : τ → υ'} (hdeck : ∀ d, Q.deck (put d) = P.deck d)
    (hview : ∀ d d', view d = view d' → view' (put d) = view' (put d')) :
    Flows Q.advance Q.deck view' (put d) := by
  have hadvance : ∀ {n d d'}, P.advance n d = .ok () d' → Q.advance n (put d) = .ok () (put d') :=
    fun {n _ _} hd => h.ok (c := .advance n) hd
  refine ⟨fun a b => ?_, fun n => ?_⟩
  · obtain ⟨d₁, d₂, d₃, hd₁, hd₂, hd₃, hsame⟩ := hflows.cut a b
    exact ⟨put d₁, put d₂, put d₃, hadvance hd₁, hadvance hd₂, hadvance hd₃, hview _ _ hsame⟩
  · obtain ⟨d', hd', helapsed⟩ := hflows.elapsed n
    refine ⟨put d', hadvance hd', ?_⟩
    rw [hdeck, hdeck]
    exact helapsed

namespace Player

variable {p p' : Player} {len pole : Nat} {history : List Commit} {holding : Bool} {c : Call}
  {strategy : Strategy} {channels : Nat × Nat} {config : RingConfig}

/-! ### States -/

/-- The states between calls, of any strategy; a ring has room for two frames and its margin. -/
def Sound (len pole : Nat) (history : List Commit) (holding : Bool) : Player → Prop
  | .ring d => ∃ σ : Ring.Shape, waitWords ≤ σ.len ∧ σ.Roomy ∧ Ring.Sound σ history d
  | p => p.Standing len pole history holding ∧ Begins history

/-- **A call that succeeds leads from one such state to the next.** -/
theorem Sound.call (hpos : 0 < len) (hlen : len ≤ regionWords)
    (h : p.Sound len pole history holding) (hc : c.Allowed holding)
    (hp : rig.call c p = .ok () p') :
    p'.Sound len pole (history ++ rig.noted c p p') (c.holds holding) := by
  -- The strategies with slots have one law of what a call comes to, and a call that succeeds is
  -- none of those of which it says that they fail.
  have hslots : ∀ q : Player, q.strategy ≠ .ring → q.Standing len pole history holding →
      Begins history → rig.call c q = .ok () p' →
      p'.Sound len pole (history ++ rig.noted c q p') (c.holds holding) := by
    intro q hq hstanding hbegins hrun
    obtain ⟨-, ⟨t, ht, hsame, hstanding'⟩ | ⟨t, ht, -⟩⟩ | ⟨-, -, slot, t, ht, -⟩ :=
      hstanding.call hpos hlen hbegins hc
    · cases ht.symm.trans hrun
      have hbegins' : Begins (history ++ rig.noted c q p') := hbegins.append hstanding.silent
      cases p' with
      | ring d => exact absurd hsame.symm hq
      | double d => exact ⟨hstanding', hbegins'⟩
      | chained d => exact ⟨hstanding', hbegins'⟩
      | triple d => exact ⟨hstanding', hbegins'⟩
    · cases ht.symm.trans hrun
    · cases ht.symm.trans hrun
  cases p with
  | double d => exact hslots _ nofun h.1 h.2 hp
  | chained d => exact hslots _ nofun h.1 h.2 hp
  | triple d => exact hslots _ nofun h.1 h.2 hp
  | ring d =>
    obtain ⟨σ, hlen, hroomy, hsound⟩ := h
    obtain ⟨d', hd', hsound'⟩ := hsound.call hroomy hlen c
    cases (carries_ring.ok hd').symm.trans hp
    refine ⟨σ, hlen, hroomy, ?_⟩
    rw [carries_ring.noted]
    exact hsound'

/-- A new player is in such a state. -/
theorem sound_new {engine : Engine} (hnew : new strategy engine channels len pole config = .ok p)
    (hquiet : engine.Quiet) (hpos : 0 < len)
    (hring : strategy = .ring → waitWords ≤ len ∧
      2 * len + config.margin.toNat ≤ config.sizeFor len ∧ config.sizeFor len ≤ regionWords) :
    p.Sound len pole [] false := by
  by_cases hslots : strategy = .ring
  · obtain ⟨hlen, hfits, hsize⟩ := hring hslots
    subst hslots
    obtain ⟨d, hd, rfl⟩ := Run.map_inv hnew
    let σ : Ring.Shape :=
      { len, pole, config, pos := hpos, frames := by omega, addressable := hsize }
    exact ⟨σ, hlen, hfits, .inl ⟨rfl, (Ring.preroll_new (σ := σ) hd hquiet).1⟩⟩
  · obtain ⟨hstanding, hstrategy⟩ := standing_new hnew hquiet hslots
    cases p with
    | ring d => exact absurd hstrategy.symm hslots
    | double d => exact ⟨hstanding, .nil⟩
    | chained d => exact ⟨hstanding, .nil⟩
    | triple d => exact ⟨hstanding, .nil⟩

/-! ### Time -/

/-- A player as it stands, but not what a ring has noted. -/
def seen : Player → Player
  | .ring d => .ring { d with notices := #[] }
  | p => p

/-- **Time flows evenly** while no place is held. -/
theorem Sound.flows (hlen : len ≤ regionWords) (h : p.Sound len pole history false) :
    Flows advance deck seen p := by
  cases p with
  | double d =>
    exact (Double.Sound.flows hlen h.1).carried carries_double (fun _ => rfl)
      fun _ _ hsame => congrArg Player.double hsame
  | chained d =>
    exact (Chained.Sound.flows hlen h.1).carried carries_chained (fun _ => rfl)
      fun _ _ hsame => congrArg Player.chained hsame
  | triple d =>
    exact (Triple.Standing.flows hlen h.1).carried carries_triple (fun _ => rfl)
      fun _ _ hsame => congrArg Player.triple hsame
  | ring d =>
    obtain ⟨σ, -, -, hsound⟩ := h
    exact hsound.regular.flows.carried carries_ring (fun _ => rfl)
      fun _ _ hsame => congrArg Player.ring hsame

/-- **Hardware time adds up.** After any run of calls in which acquire and commit alternate, and
    with no place held, time that passes at once leaves the player as it is left by the same time in
    two parts: in its slots, channels, cursors, counters and in what it has played. All time passes;
    it is counted as busy or idle, and as many words as it was busy are played. -/
theorem advance_add {engine : Engine} {calls : List Call}
    (hnew : new strategy engine channels len pole config = .ok p) (hquiet : engine.Quiet)
    (hpos : 0 < len) (hlen : len ≤ regionWords)
    (hring : strategy = .ring → 64 ≤ len ∧
      2 * len + config.margin.toNat ≤ config.sizeFor len ∧ config.sizeFor len ≤ regionWords)
    (hcalls : Alternating false calls) (hfree : holdsAfter false calls = false)
    (hrun : rig.perform calls (p, []) = .ok () (p', history)) :
    (∀ a b, ∃ p₁ p₂ p₃, advance a p' = .ok () p₁ ∧ advance b p₁ = .ok () p₂ ∧
      advance (a + b) p' = .ok () p₃ ∧ p₃.seen = p₂.seen) ∧
    ∀ n, ∃ later, advance n p' = .ok () later ∧ p'.deck.Elapsed n later.deck := by
  let Inv (holding : Bool) (history : List Commit) (p : Player) : Prop :=
    p.Sound len pole history holding
  have hcall : ∀ holding c history p p', Inv holding history p → c.Allowed holding →
      rig.call c p = .ok () p' → Inv (c.holds holding) (history ++ rig.noted c p p') p' :=
    fun _ _ _ _ _ h hc hp => h.call hpos hlen hc hp
  have hsound : p'.Sound len pole history (holdsAfter false calls) :=
    Port.perform_alternating hcall (sound_new hnew hquiet hpos hring) hcalls hrun
  rw [hfree] at hsound
  exact ⟨(hsound.flows hlen).cut, (hsound.flows hlen).elapsed⟩

/-- Slots of five words: time is cut in the middle of one. -/
theorem advances_in_two_parts :
    ∃ p, new .double {} (2, 3) 5 16 {} = .ok p ∧ ∃ p' history,
      rig.perform [.acquire, .write #[5, 6], .commit 2, .acquire, .commit 5, .advance 3] (p, []) =
        .ok () (p', history) ∧
      ∃ p₁ p₂ p₃, advance 4 p' = .ok () p₁ ∧ advance 9 p₁ = .ok () p₂ ∧
        advance 13 p' = .ok () p₃ ∧ p₃.seen = p₂.seen ∧ p'.deck.Elapsed 13 p₃.deck := by
  refine ⟨_, rfl, ?_⟩
  cases hrun : rig.perform [.acquire, .write #[5, 6], .commit 2, .acquire, .commit 5,
    .advance 3] (_, []) with
  | error e s =>
    have hends : failed _ = true := congrArg failed hrun
    exact absurd hends (by decide +kernel)
  | ok u s =>
    obtain ⟨p', history⟩ := s
    obtain ⟨hcut, helapsed⟩ := advance_add (rfl : new .double {} (2, 3) 5 16 {} = _)
      Engine.quiet_fresh (by decide) (by decide) nofun (by decide) rfl hrun
    obtain ⟨p₁, p₂, p₃, hp₁, hp₂, hp₃, hsame⟩ := hcut 4 9
    obtain ⟨later, hlater, hcounted⟩ := helapsed 13
    cases hlater.symm.trans hp₃
    exact ⟨p', history, rfl, p₁, p₂, p₃, hp₁, hp₂, hp₃, hsame, hcounted⟩

end Player

end ConsolePipeline.Playback
