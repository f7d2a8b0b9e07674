import ConsolePipeline.Proofs.Playback.Fed.Ring
import ConsolePipeline.Proofs.Playback.Flow.Player

namespace ConsolePipeline.Playback

open Run

/-!
# Waiting never starves the hardware: players

Software that hands over frames back to back, and lets no time pass but by waiting for a place,
keeps the hardware fed: nothing is played but the frames, in their order and without a gap. So much
holds of every strategy but triple buffering, in which software never waits.

* `Port.call_timeless` — what the calls of a frame keep.
* `Player.Fed`, `Fed.call` — the states between calls.
* `Player.never_starves` — after any run of calls, the hardware has been fed.
-/

/-- **A call that is no mere passing of time,** by what each of the others keeps. -/
theorem Port.call_timeless {σ : Type} {P : Port σ} (Inv : List Commit → Bool → σ → Prop)
    (hacquire : ∀ history d, Inv history false d →
      ∃ words d', P.acquire d = .ok words d' ∧ Inv history true d')
    (hwrite : ∀ history words d, Inv history true d →
      ∃ d', P.write words d = .ok () d' ∧ Inv history true d')
    (hcommit : ∀ history count d, Inv history true d → ∃ d', P.commit count d = .ok () d' ∧
      Inv (history ++ P.noted (.commit count) d d') false d')
    {c : Call} {history : List Commit} {holding : Bool} {d : σ} (h : Inv history holding d)
    (hc : c.Allowed holding) (htimeless : ∀ n, c ≠ .advance n) :
    ∃ d', P.call c d = .ok () d' ∧ Inv (history ++ P.noted c d d') (c.holds holding) d' := by
  cases c with
  | acquire =>
    obtain rfl : holding = false := hc
    obtain ⟨words, d', hd', hinv⟩ := hacquire history d h
    refine ⟨d', bind_ok hd', ?_⟩
    rw [noted, List.append_nil]
    exact hinv
  | write words =>
    obtain rfl : holding = true := hc
    obtain ⟨d', hd', hinv⟩ := hwrite history words d h
    refine ⟨d', hd', ?_⟩
    rw [noted, List.append_nil]
    exact hinv
  | commit count =>
    obtain rfl : holding = true := hc
    exact hcommit history count d h
  | advance n => exact absurd rfl (htimeless n)

namespace Player

variable {p : Player} {len pole : Nat} {history : List Commit} {holding : Bool} {c : Call}
  {strategy : Strategy} {channels : Nat × Nat} {config : RingConfig}

/-! ### States -/

/-- Words of silence before the first frame. -/
def lead (strategy : Strategy) (len : Nat) : Nat :=
  match strategy with
  | .ring => len
  | _ => 0

/-- How many words may have been handed over that have not been played. -/
def slack (strategy : Strategy) (len : Nat) (config : RingConfig) : Nat :=
  match strategy with
  | .ring => config.sizeFor len - config.margin.toNat
  | _ => 2 * len

/-- The states between calls, if no time passes but in waits. -/
def Fed (len pole : Nat) (config : RingConfig) (history : List Commit) (holding : Bool) :
    Player → Prop
  | .double d => Double.Fed len pole history holding d
  | .chained d => Chained.Fed len pole history holding d
  | .ring d => ∃ σ : Ring.Shape, σ.len = len ∧ σ.config = config ∧ σ.Roomy ∧ Ring.Fed σ history d
  | .triple _ => False

theorem Fed.deck (h : p.Fed len pole config history holding) :
    p.deck.Fed len (lead p.strategy len) (slack p.strategy len config) history holding := by
  cases p with
  | double d => exact Double.Fed.deck h
  | chained d => exact Chained.Fed.deck h
  | triple d => exact h.elim
  | ring d =>
    obtain ⟨σ, rfl, rfl, hroomy, h⟩ := h
    exact h.deck hroomy

/-- **A call leads from one such state to the next,** and does not fail. -/
theorem Fed.call (hround : waitWords ≤ len) (hlen : len ≤ regionWords)
    (h : p.Fed len pole config history holding) (hc : c.Allowed holding)
    (htimeless : ∀ n, c ≠ .advance n) :
    ∃ p', rig.call c p = .ok () p' ∧ p'.strategy = p.strategy ∧
      p'.Fed len pole config (history ++ rig.noted c p p') (c.holds holding) := by
  have hpos : 0 < len := Nat.lt_of_lt_of_le (by decide) hround
  cases p with
  | triple d => exact h.elim
  | double d =>
    obtain ⟨d', hd', hfed⟩ := Port.call_timeless (P := Double.port) (Double.Fed len pole)
      (fun _ _ h => h.acquire hround hlen) (fun _ words _ h => h.write words)
      (fun _ count _ h => h.commit hpos count) h hc htimeless
    refine ⟨.double d', carries_double.ok hd', rfl, ?_⟩
    rw [carries_double.noted]
    exact hfed
  | chained d =>
    obtain ⟨d', hd', hfed⟩ := Port.call_timeless (P := Chained.port) (Chained.Fed len pole)
      (fun _ _ h => h.acquire hround hlen) (fun _ words _ h => h.write words)
      (fun _ count _ h => h.commit hpos count) h hc htimeless
    refine ⟨.chained d', carries_chained.ok hd', rfl, ?_⟩
    rw [carries_chained.noted]
    exact hfed
  | ring d =>
    obtain ⟨σ, rfl, rfl, hroomy, h⟩ := h
    obtain ⟨d', hd', hfed⟩ := Port.call_timeless (P := Ring.port)
      (fun history _ => Ring.Fed σ history) (fun _ d h => ⟨d.staging, d, rfl, h⟩)
      (fun _ words _ h => h.write words) (fun _ count _ h => h.commit hroomy hround count) h hc
      htimeless
    refine ⟨.ring d', carries_ring.ok hd', rfl, σ, rfl, rfl, hroomy, ?_⟩
    rw [carries_ring.noted]
    exact hfed

/-- A new player is in such a state. -/
theorem fed_new {engine : Engine} (hnew : new strategy engine channels len pole config = .ok p)
    (hquiet : engine.Quiet) (hstrategy : strategy ≠ .triple) (hpos : 0 < len)
    (hring : strategy = .ring → 2 * len + config.margin.toNat ≤ config.sizeFor len ∧
      config.sizeFor len ≤ regionWords) :
    p.strategy = strategy ∧ p.Fed len pole config [] false := by
  cases strategy with
  | triple => exact absurd rfl hstrategy
  | double =>
    obtain ⟨d, hd, rfl⟩ := Run.map_inv hnew
    obtain ⟨hpre, hstats⟩ := Double.preroll_new hd hquiet
    exact ⟨rfl, congrArg Stats.idleWords hstats, .inl hpre⟩
  | chained =>
    obtain ⟨d, hd, rfl⟩ := Run.map_inv hnew
    obtain ⟨hpre, hstats⟩ := Chained.preroll_new hd hquiet (Chained.channels_ne hd)
    exact ⟨rfl, congrArg Stats.idleWords hstats, .inl hpre⟩
  | ring =>
    obtain ⟨hfits, hsize⟩ := hring rfl
    obtain ⟨d, hd, rfl⟩ := Run.map_inv hnew
    let σ : Ring.Shape :=
      { len, pole, config, pos := hpos, frames := by omega, addressable := hsize }
    obtain ⟨hpre, hstats⟩ := Ring.preroll_new (σ := σ) hd hquiet
    exact ⟨rfl, σ, rfl, rfl, hfits, congrArg Stats.idleWords hstats, .inl ⟨rfl, hpre⟩⟩

/-! ### Runs -/

/-- **Busy waiting alone never starves the hardware.** Software hands over frames back to back, and
    no time passes but while it waits for a place. Then no call fails, there is no underrun, no
    stray completion and no idle word, and the words played are the opening of the frames handed
    over, behind a frame of silence if they go through a ring. When a commit returns, at most two
    frames have not been played, or as many words as the ring has without its margin. -/
theorem never_starves {engine : Engine} {calls : List Call}
    (hnew : new strategy engine channels len pole config = .ok p) (hquiet : engine.Quiet)
    (hstrategy : strategy ≠ .triple) (hround : 64 ≤ len) (hlen : len ≤ regionWords)
    (hring : strategy = .ring → 2 * len + config.margin.toNat ≤ config.sizeFor len ∧
      config.sizeFor len ≤ regionWords)
    (hcalls : Alternating false calls) (htimeless : ∀ n, Call.advance n ∉ calls) :
    ∃ p' history, rig.perform calls (p, []) = .ok () (p', history) ∧
      p'.deck.Fed len (lead strategy len) (slack strategy len config) history
        (holdsAfter false calls) := by
  -- One call keeps this invariant, as none of the calls that are left passes time.
  let Inv (rest : List Call) (history : List Commit) (q : Player) : Prop :=
    ∃ holding, (q.strategy = strategy ∧ q.Fed len pole config history holding) ∧
      Alternating holding rest ∧ (∀ n, Call.advance n ∉ rest) ∧
      holdsAfter holding rest = holdsAfter false calls
  have hcall : ∀ c rest history q, Inv (c :: rest) history q →
      ∃ q', rig.call c q = .ok () q' ∧ Inv rest (history ++ rig.noted c q q') q' := by
    rintro c rest history q ⟨holding, ⟨hsame, hfed⟩, ⟨hc, hrest⟩, htimes, hends⟩
    obtain ⟨q', hq', hkept, hfed'⟩ := hfed.call hround hlen hc fun n hn =>
      htimes n (hn ▸ List.mem_cons_self)
    exact ⟨q', hq', c.holds holding, ⟨hkept.trans hsame, hfed'⟩, hrest,
      fun n hn => htimes n (List.mem_cons_of_mem c hn), hends⟩
  have hpos : 0 < len := Nat.lt_of_lt_of_le (by decide) hround
  have hfirst : Inv calls [] p :=
    ⟨false, fed_new hnew hquiet hstrategy hpos hring, hcalls, htimeless, rfl⟩
  obtain ⟨p', history, hrun, holding, ⟨rfl, hfed⟩, -, -, hends⟩ :=
    Port.perform_ok hcall hfirst
  have hheld : holding = holdsAfter false calls := hends
  rw [← hheld]
  exact ⟨p', history, hrun, hfed.deck⟩

/-- Five frames through a ring of 256 words: the last has to wait for space. -/
theorem never_starves_small_ring :
    ∃ p, new .ring {} (2, 3) 64 16 Ring.smallConfig = .ok p ∧ ∃ p' history,
      rig.perform [.acquire, .write #[5, 6], .commit 2, .acquire, .commit 64, .acquire, .commit 64,
        .acquire, .commit 64, .acquire, .commit 0] (p, []) = .ok () (p', history) ∧
      p'.deck.Fed 64 64 248 history false := by
  refine ⟨_, rfl, ?_⟩
  have hsize := Ring.sizeFor_smallConfig
  obtain ⟨p', history, hrun, hfed⟩ := never_starves
    (rfl : new .ring {} (2, 3) 64 16 Ring.smallConfig = _) Engine.quiet_fresh (by decide)
    (le_refl 64) (by decide) (fun _ => by rw [hsize]; decide)
    (show Alternating false [.acquire, .write #[5, 6], .commit 2, .acquire, .commit 64, .acquire,
      .commit 64, .acquire, .commit 64, .acquire, .commit 0] by decide) (by simp)
  rw [slack, hsize] at hfed
  exact ⟨p', history, hrun, hfed⟩

end Player

end ConsolePipeline.Playback
