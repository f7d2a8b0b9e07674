import ConsolePipeline.Proofs.Playback.Interrupted.Chained
import ConsolePipeline.Proofs.Playback.Interrupted.Double
import ConsolePipeline.Proofs.Playback.Interrupted.Triple
import ConsolePipeline.Proofs.Playback.Lockstep.Player

namespace ConsolePipeline.Playback

/-!
# Players at any moment

With slots to play from, hardware time may pass at any moment, until the hardware comes to the slot
that software fills. Double buffering never lets that happen. The other two strategies let the
hardware take the slots in turn, and a run of theirs fails exactly when it gets there.

* `Port.Carries` — what a strategy does, faults included, the player does.
* `Player.leeway`, `Player.InTime` — how long the hardware stays away from that slot, and the runs
  of calls in which it does.
* `Player.Standing.call` — one call at any moment.
* `Player.orderly_until_overtaken` — a run of calls, with time passing anywhere.
-/

/-! ### A player is its strategy -/

/-- An outcome with its state put elsewhere. -/
def outcomeIn {σ τ α : Type} (put : σ → τ) :
    EStateM.Result Fault σ α → EStateM.Result Fault τ α
  | .ok a d => .ok a (put d)
  | .error e d => .error e (put d)

/-- **What one port does, faults included, the other does** where its state has been put. -/
structure Port.Carries {σ τ : Type} (Q : Port τ) (P : Port σ) (put : σ → τ) : Prop where
  call : ∀ c d, Q.call c (put d) = outcomeIn put (P.call c d)
  noted : ∀ c d d', Q.noted c (put d) (put d') = P.noted c d d'

namespace Port.Carries

variable {σ τ : Type} {Q : Port τ} {P : Port σ} {put : σ → τ} {c : Call} {d d' : σ} {e : Fault}

theorem ok (h : Q.Carries P put) (hc : P.call c d = .ok () d') :
    Q.call c (put d) = .ok () (put d') := by
  rw [h.call, hc, outcomeIn]

theorem error (h : Q.Carries P put) (hc : P.call c d = .error e d') :
    Q.call c (put d) = .error e (put d') := by
  rw [h.call, hc, outcomeIn]

/-- It is enough to look at what the calls are made of. -/
theorem of_parts (hacquire : ∀ d, Q.acquire (put d) = outcomeIn put (P.acquire d))
    (hwrite : ∀ words d, Q.write words (put d) = outcomeIn put (P.write words d))
    (hcommit : ∀ count d, Q.commit count (put d) = outcomeIn put (P.commit count d))
    (hadvance : ∀ n d, Q.advance n (put d) = outcomeIn put (P.advance n d))
    (hnoted : ∀ c d d', Q.noted c (put d) (put d') = P.noted c d d') : Q.Carries P put := by
  refine ⟨fun c d => ?_, hnoted⟩
  cases c with
  | acquire =>
    show EStateM.bind Q.acquire (fun _ => pure ()) (put d) =
      outcomeIn put (EStateM.bind P.acquire (fun _ => pure ()) d)
    rw [EStateM.bind, EStateM.bind, hacquire]
    cases P.acquire d <;> rfl
  | write words => exact hwrite words d
  | commit count => exact hcommit count d
  | advance n => exact hadvance n d

end Port.Carries

namespace Player

variable {p : Player} {len pole : Nat} {history : List Commit} {holding : Bool} {c : Call}
  {strategy : Strategy} {channels : Nat × Nat} {config : RingConfig}

section Carries

variable {α : Type} (onDouble : Run Double α) (onChained : Run Chained α) (onRing : Run Ring α)
  (onTriple : Run Triple α)

theorem cases_double_eq (d : Double) : cases onDouble onChained onRing onTriple (.double d) =
    outcomeIn .double (onDouble d) := by
  rw [cases]
  cases onDouble d <;> rfl

theorem cases_chained_eq (d : Chained) : cases onDouble onChained onRing onTriple (.chained d) =
    outcomeIn .chained (onChained d) := by
  rw [cases]
  cases onChained d <;> rfl

theorem cases_ring_eq (d : Ring) : cases onDouble onChained onRing onTriple (.ring d) =
    outcomeIn .ring (onRing d) := by
  rw [cases]
  cases onRing d <;> rfl

theorem cases_triple_eq (d : Triple) : cases onDouble onChained onRing onTriple (.triple d) =
    outcomeIn .triple (onTriple d) := by
  rw [cases]
  cases onTriple d <;> rfl

end Carries

theorem carries_double : rig.toPort.Carries Double.port .double := by
  refine .of_parts (fun d => ?_) (fun words d => ?_) (fun count d => ?_) (fun n d => ?_)
    fun c d d' => by cases c <;> rfl
  all_goals
    simp only [rig, acquire, write, commit, advance]
    exact cases_double_eq _ _ _ _ d

theorem carries_chained : rig.toPort.Carries Chained.port .chained := by
  refine .of_parts (fun d => ?_) (fun words d => ?_) (fun count d => ?_) (fun n d => ?_)
    fun c d d' => by cases c <;> rfl
  all_goals
    simp only [rig, acquire, write, commit, advance]
    exact cases_chained_eq _ _ _ _ d

theorem carries_ring : rig.toPort.Carries Ring.port .ring := by
  refine .of_parts (fun d => ?_) (fun words d => ?_) (fun count d => ?_) (fun n d => ?_)
    fun c d d' => by cases c <;> rfl
  all_goals
    simp only [rig, acquire, write, commit, advance]
    exact cases_ring_eq _ _ _ _ d

theorem carries_triple : rig.toPort.Carries Triple.port .triple := by
  refine .of_parts (fun d => ?_) (fun words d => ?_) (fun count d => ?_) (fun n d => ?_)
    fun c d d' => by cases c <;> rfl
  all_goals
    simp only [rig, acquire, write, commit, advance]
    exact cases_triple_eq _ _ _ _ d

/-! ### What holds of a player with slots -/

/-- **How many words may be played before the hardware comes to the slot that software fills,** if
    it ever comes there by itself. The handler of double buffering never sends it there. -/
def leeway : Player → Option Nat
  | .double _ => none
  | .chained d => d.leeway
  | .ring _ => none
  | .triple d => d.leeway

/-- **A run in which the hardware stays away** from the slot that software fills. -/
def InTime (calls : List Call) (p : Player) : Prop :=
  rig.Throughout (fun c p => c.Within p.leeway) calls p

/-- The hardware of a player keeps to its slot, and what it has played is accounted for. -/
def Orderly (len pole : Nat) (history : List Commit) : Player → Prop
  | .double d => Playback.Orderly len pole history d.toDeck d.slots d.filling
  | .chained d => Playback.Orderly len pole history d.toDeck d.slots d.filling
  | .ring _ => False
  | .triple d => Playback.Orderly len pole history d.toDeck d.slots d.filling

/-- The hardware of a player has come to the slot that software fills. -/
def Overtaken (len pole : Nat) (history : List Commit) (slot : Nat) : Player → Prop
  | .double d => Playback.Overtaken len pole history slot d.toDeck d.slots d.filling
  | .chained d => Playback.Overtaken len pole history slot d.toDeck d.slots d.filling
  | .ring _ => False
  | .triple d => Playback.Overtaken len pole history slot d.toDeck d.slots d.filling

/-- The states between calls. -/
def Standing (len pole : Nat) (history : List Commit) (holding : Bool) : Player → Prop
  | .double d => Double.Sound len pole history holding d
  | .chained d => Chained.Sound len pole history holding d
  | .ring _ => False
  | .triple d => Triple.Standing len pole history holding d

theorem Standing.orderly (hpos : 0 < len) (hlen : len ≤ regionWords) (hbegins : Begins history)
    (h : p.Standing len pole history holding) : p.Orderly len pole history := by
  cases p with
  | double d => exact Double.Sound.orderly hpos hlen hbegins h
  | chained d => exact Chained.Sound.orderly hpos hlen hbegins h
  | ring d => exact h
  | triple d => exact Triple.Standing.orderly hpos hlen hbegins h

/-- Nothing is played before the first frame is handed over. -/
theorem Standing.silent (h : p.Standing len pole history holding) (hnil : history = []) :
    p.deck.played.size = 0 := by
  subst hnil
  cases p with
  | double d => exact (Double.Sound.lawful h).silent (by decide)
  | chained d => exact Chained.Sound.silent h rfl
  | ring d => exact h.elim
  | triple d =>
    rcases h with ⟨-, h⟩ | ⟨dated, hdated, m, w, h⟩
    · show d.played.size = 0
      rw [h.played]
      rfl
    · -- A history that dates no frame lets none be played.
      obtain rfl : dated = [] := List.forall₂_nil_right_iff.mp hdated
      cases holding with
      | false => exact absurd rfl (Triple.Live.toRunning h).nonempty
      | true =>
        rcases h with h | h
        · exact absurd rfl h.nonempty
        · exact absurd rfl h.nonempty

/-! ### One call -/

/-- **A call at any moment** succeeds, or is a wait in vain, unless it lets the hardware come to
    the slot that software fills. -/
theorem Standing.call (hpos : 0 < len) (hlen : len ≤ regionWords) (hbegins : Begins history)
    (h : p.Standing len pole history holding) (hc : c.Allowed holding) :
    (c.Within p.leeway ∧
      ((∃ p', rig.call c p = .ok () p' ∧ p'.strategy = p.strategy ∧
        p'.Standing len pole (history ++ rig.noted c p p') (c.holds holding)) ∨
      ∃ p', rig.call c p = .error .stalled p' ∧ p.strategy = .chained ∧ len ∣ 32 ∧
        p'.Standing len pole history false)) ∨
    (¬c.Within p.leeway ∧ p.strategy ≠ .double ∧
      ∃ slot p', rig.call c p = .error (.notDrainable slot .filling) p' ∧
        p'.Overtaken len pole history slot) := by
  cases p with
  | double d =>
    obtain ⟨d', hd', hsound⟩ := Double.Sound.call hpos hlen h hc
    refine .inl ⟨Call.within_none c, .inl ⟨.double d', carries_double.ok hd', rfl, ?_⟩⟩
    rw [carries_double.noted]
    exact hsound
  | chained d =>
    obtain ⟨hwithin, ⟨d', hd', hsound⟩ | ⟨d', hd', hround, hsound⟩⟩ |
        ⟨hpast, slot, d', hd', hovertaken⟩ := Chained.Sound.call_anytime hpos hlen hbegins h hc
    · refine .inl ⟨hwithin, .inl ⟨.chained d', carries_chained.ok hd', rfl, ?_⟩⟩
      rw [carries_chained.noted]
      exact hsound
    · exact .inl ⟨hwithin, .inr ⟨.chained d', carries_chained.error hd', rfl, hround, hsound⟩⟩
    · exact .inr ⟨hpast, nofun, slot, .chained d', carries_chained.error hd', hovertaken⟩
  | ring d => exact h.elim
  | triple d =>
    obtain ⟨hwithin, d', hd', hstanding⟩ | ⟨hpast, slot, d', hd', hovertaken⟩ :=
      Triple.Standing.call_anytime hpos hlen hbegins h hc
    · refine .inl ⟨hwithin, .inl ⟨.triple d', carries_triple.ok hd', rfl, ?_⟩⟩
      rw [carries_triple.noted]
      exact hstanding
    · exact .inr ⟨hpast, nofun, slot, .triple d', carries_triple.error hd', hovertaken⟩

/-! ### A run of calls -/

/-- A strategy with slots starts at rest. -/
theorem standing_new {engine : Engine} (hnew : new strategy engine channels len pole config = .ok p)
    (hquiet : engine.Quiet) (hslots : strategy ≠ .ring) :
    p.Standing len pole [] false ∧ p.strategy = strategy := by
  cases strategy with
  | double =>
    obtain ⟨d, hd, rfl⟩ := Run.map_inv hnew
    exact ⟨.inl (Double.preroll_new hd hquiet).1, rfl⟩
  | chained =>
    obtain ⟨d, hd, rfl⟩ := Run.map_inv hnew
    exact ⟨.inl (Chained.preroll_new hd hquiet (Chained.channels_ne hd)).1, rfl⟩
  | ring => exact absurd rfl hslots
  | triple =>
    obtain ⟨d, hd, rfl⟩ := Run.map_inv hnew
    exact ⟨.inl ⟨rfl, Triple.preroll_new hd hquiet⟩, rfl⟩

/-- Whether a run has ended in a fault. -/
def failed {σ α : Type} : EStateM.Result Fault σ α → Bool
  | .ok _ _ => false
  | .error _ _ => true

end Player

end ConsolePipeline.Playback
