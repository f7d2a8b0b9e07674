import ConsolePipeline.Proofs.Blind
import ConsolePipeline.Proofs.Playback.Books

namespace ConsolePipeline.Playback

open Run Stereo

/-!
# Players do not read their log

The log entries that a player leaves are for others. Nothing that it does depends on them: two
players that differ in their entries only give the same answers and stop with the same faults, and
differ in their entries only afterwards.

* `Double.blind_service`, ..., `Ring.blind_commit` — the operations of each strategy.
* `Player.Request`, `Player.ask` — what software asks of a player.
* `Player.blind_asks` — any requests, one after the other.
-/

/-- Outcomes that cannot be told apart, put elsewhere. -/
theorem same_outcomeIn {σ τ α : Type} {φ : σ → σ} {ψ : τ → τ} {put : σ → τ}
    (hput : ∀ s, ψ (put s) = put (φ s)) {o o' : EStateM.Result Fault σ α} (h : Same φ o o') :
    Same ψ (outcomeIn put o) (outcomeIn put o') := by
  have hsame : ∀ {s s'}, φ s = φ s' → ψ (put s) = ψ (put s') := by
    intro s s' hs
    rw [hput, hs, hput]
  cases h with
  | ok hs => exact .ok (hsame hs)
  | error hs => exact .error (hsame hs)

namespace Deck

/-- A deck without its log entries. -/
def hushed (d : Deck) : Deck :=
  { d with notices := #[] }

theorem blind_transfer (memory : Array (Array Word)) (limit : Nat) :
    Blind hushed (transfer memory limit) := by
  rintro ⟨engine, played, held, stats, notices⟩ ⟨_, _, _, _, notices'⟩ ⟨⟩
  simp only [transfer]
  cases engine.step memory limit with
  | error e => exact .error rfl
  | ok outcome => exact .ok rfl

theorem blind_serve (ch : ChannelId) : Blind hushed (serve ch) := by
  rintro ⟨engine, played, held, stats, notices⟩ ⟨_, _, _, _, notices'⟩ ⟨⟩
  exact .ok rfl

end Deck

namespace Double

variable {α : Type}

/-- Double buffering without its log entries. -/
def hushed (d : Double) : Double :=
  { d with notices := #[] }

theorem blind_onDeck {act : Run Deck α} (h : Blind Deck.hushed act) : Blind hushed (onDeck act) :=
  .within h (fun _ => rfl) fun _ _ => rfl

theorem blind_onSlots (act : Run Slots α) : Blind hushed (onSlots act) :=
  .within_seen act (fun _ => rfl) fun _ _ => rfl

theorem blind_startSlot (slot : Nat) : Blind hushed (startSlot slot) := by
  apply Blind.bind (blind_onSlots _)
  intro free
  exact .optional (.modify fun _ => rfl) fun _ => .modify fun _ => rfl

theorem blind_service : Blind hushed service := by
  refine .get_bind (fun _ => rfl) fun _ => .get_bind (fun _ => rfl) fun _ => ?_
  split
  · refine .get_bind (fun _ => rfl) fun _ => .bind (blind_onDeck (Deck.blind_serve _)) fun _ => ?_
    refine .get_bind (fun _ => rfl) fun _ => .bind (.modify fun _ => rfl) fun _ => ?_
    refine .get_bind (fun _ => rfl) fun _ => .optional (.modify fun _ => rfl) fun _ => ?_
    split
    · exact .pure _
    · refine .bind (blind_onSlots _) fun _ => .get_bind (fun _ => rfl) fun _ => ?_
      exact .bind (.modify fun _ => rfl) fun _ => blind_startSlot _
  · exact .pure _

theorem blind_step (limit : Nat) : Blind hushed (step limit) := by
  refine .get_bind (fun _ => rfl) fun d => ?_
  apply Blind.bind (blind_onDeck (Deck.blind_transfer _ limit))
  intro outcome
  exact .optional blind_service fun _ => .pure _

theorem blind_advance (words : Nat) : Blind hushed (advance words) :=
  .elapse blind_step words

theorem blind_spin : Blind hushed spin :=
  .bind (.modify fun _ => rfl) fun _ => blind_advance waitWords

theorem blind_acquire : Blind hushed acquire := by
  refine .bind blind_service fun _ => .get_bind (fun _ => rfl) fun d => ?_
  refine .bind (.waitWhile blind_spin (fun _ => rfl) d.waitBound) fun _ => ?_
  refine .get_bind (fun _ => rfl) fun d => .bind (blind_onSlots _) fun _ => ?_
  refine .bind (.modify fun _ => rfl) fun _ => .get_bind (fun _ => rfl) fun _ => ?_
  exact .pure _

theorem blind_write (words : Array Word) : Blind hushed (write words) := by
  refine .get_bind (fun _ => rfl) fun d => ?_
  split
  · exact blind_onSlots _
  · exact .pure _

theorem blind_commit (count : Nat) : Blind hushed (commit count) := by
  refine .get_bind (fun _ => rfl) fun d => ?_
  split
  · exact .modify fun _ => rfl
  · refine .bind (.modify fun _ => rfl) fun _ => .bind (blind_onSlots _) fun _ => ?_
    refine .bind (blind_onSlots _) fun _ => .bind (.modify fun _ => rfl) fun _ => ?_
    refine .get_bind (fun _ => rfl) fun d => ?_
    -- Playback may begin with the frame, or another slot may be waiting to be played.
    split
    · split
      · exact .bind (blind_startSlot _) fun _ => .modify fun _ => rfl
      · exact .pure _
    · split
      · exact .modify fun _ => rfl
      · exact .pure _

end Double

namespace Chained

variable {α : Type}

/-- Chained ping-pong without its log entries. -/
def hushed (d : Chained) : Chained :=
  { d with notices := #[] }

theorem blind_onDeck {act : Run Deck α} (h : Blind Deck.hushed act) : Blind hushed (onDeck act) :=
  .within h (fun _ => rfl) fun _ _ => rfl

theorem blind_onSlots (act : Run Slots α) : Blind hushed (onSlots act) :=
  .within_seen act (fun _ => rfl) fun _ _ => rfl

theorem blind_markPlaying (slot : Nat) : Blind hushed (markPlaying slot) := by
  apply Blind.bind (blind_onSlots _)
  intro free
  exact .optional (.modify fun _ => rfl) fun _ => .modify fun _ => rfl

theorem blind_retire (tag : Option Nat) (slot : Nat) : Blind hushed (retire tag slot) := by
  refine .bind (.modify fun _ => rfl) fun _ => .get_bind (fun _ => rfl) fun d => ?_
  refine .optional (.modify fun _ => rfl) fun _ => ?_
  split
  · exact .pure _
  · refine .bind (blind_onSlots _) fun _ => ?_
    exact .bind (.modify fun _ => rfl) fun _ => blind_markPlaying _

theorem blind_service : Blind hushed service := by
  refine .get_bind (fun _ => rfl) fun d => .bind (.modify fun _ => rfl) fun _ => ?_
  refine .optional (blind_retire _ 0) fun _ => ?_
  split
  · exact blind_retire _ 1
  · exact .pure _

theorem blind_step (limit : Nat) : Blind hushed (step limit) := by
  refine .get_bind (fun _ => rfl) fun d => ?_
  apply Blind.bind (blind_onDeck (Deck.blind_transfer _ limit))
  intro outcome
  exact .optional blind_service fun _ => .pure _

theorem blind_advance (words : Nat) : Blind hushed (advance words) :=
  .elapse blind_step words

theorem blind_spin : Blind hushed spin :=
  .bind (.modify fun _ => rfl) fun _ => blind_advance waitWords

theorem blind_acquire : Blind hushed acquire := by
  refine .bind blind_service fun _ => .get_bind (fun _ => rfl) fun d => ?_
  refine .bind (.waitWhile blind_spin (fun _ => rfl) d.waitBound) fun _ => ?_
  refine .get_bind (fun _ => rfl) fun d => .bind (blind_onSlots _) fun _ => ?_
  refine .bind (.modify fun _ => rfl) fun _ => .get_bind (fun _ => rfl) fun _ => ?_
  exact .pure _

theorem blind_write (words : Array Word) : Blind hushed (write words) := by
  refine .get_bind (fun _ => rfl) fun d => ?_
  split
  · exact blind_onSlots _
  · exact .pure _

theorem blind_commit (count : Nat) : Blind hushed (commit count) := by
  refine .get_bind (fun _ => rfl) fun d => ?_
  split
  · exact .modify fun _ => rfl
  · refine .bind (.modify fun _ => rfl) fun _ => .bind (blind_onSlots _) fun _ => ?_
    refine .bind (blind_onSlots _) fun _ => .bind (.modify fun _ => rfl) fun _ => ?_
    refine .get_bind (fun _ => rfl) fun d => ?_
    split
    · exact .bind (blind_markPlaying 0) fun _ => .modify fun _ => rfl
    · exact .pure _

end Chained

namespace Triple

variable {α : Type}

/-- Triple buffering without its log entries. -/
def hushed (d : Triple) : Triple :=
  { d with notices := #[] }

theorem blind_onDeck {act : Run Deck α} (h : Blind Deck.hushed act) : Blind hushed (onDeck act) :=
  .within h (fun _ => rfl) fun _ _ => rfl

theorem blind_onSlots (act : Run Slots α) : Blind hushed (onSlots act) :=
  .within_seen act (fun _ => rfl) fun _ _ => rfl

theorem blind_startSlot (slot : Nat) : Blind hushed (startSlot slot) := by
  apply Blind.bind (blind_onSlots _)
  intro free
  exact .optional (.modify fun _ => rfl) fun _ => .modify fun _ => rfl

theorem blind_service : Blind hushed service := by
  refine .get_bind (fun _ => rfl) fun _ => .get_bind (fun _ => rfl) fun _ => ?_
  split
  · refine .get_bind (fun _ => rfl) fun _ => .bind (blind_onDeck (Deck.blind_serve _)) fun _ => ?_
    refine .get_bind (fun _ => rfl) fun _ => .bind (.modify fun _ => rfl) fun _ => ?_
    refine .get_bind (fun _ => rfl) fun _ => .optional (.modify fun _ => rfl) fun _ => ?_
    split
    · exact .pure _
    · exact .bind (blind_onSlots _) fun _ => blind_startSlot _
  · exact .pure _

theorem blind_step (limit : Nat) : Blind hushed (step limit) := by
  refine .get_bind (fun _ => rfl) fun d => ?_
  apply Blind.bind (blind_onDeck (Deck.blind_transfer _ limit))
  intro outcome
  exact .optional blind_service fun _ => .pure _

theorem blind_advance (words : Nat) : Blind hushed (advance words) :=
  .elapse blind_step words

theorem blind_acquire : Blind hushed acquire := by
  refine .bind blind_service fun _ => .get_bind (fun _ => rfl) fun d => ?_
  refine .bind (blind_onSlots _) fun _ => .get_bind (fun _ => rfl) fun d => ?_
  refine .optional (.modify fun _ => rfl) fun _ => .bind (.modify fun _ => rfl) fun _ => ?_
  exact .get_bind (fun _ => rfl) fun _ => .pure _

theorem blind_write (words : Array Word) : Blind hushed (write words) := by
  refine .get_bind (fun _ => rfl) fun d => ?_
  split
  · exact blind_onSlots _
  · exact .pure _

theorem blind_prime (source target : Nat) : Blind hushed (prime source target) :=
  .bind (blind_onSlots _) fun _ => .modify fun _ => rfl

theorem blind_commit (count : Nat) : Blind hushed (commit count) := by
  refine .get_bind (fun _ => rfl) fun d => ?_
  split
  · exact .modify fun _ => rfl
  · refine .bind (.modify fun _ => rfl) fun _ => .bind (blind_onSlots _) fun _ => ?_
    refine .bind (blind_onSlots _) fun _ => .bind (.modify fun _ => rfl) fun _ => ?_
    refine .get_bind (fun _ => rfl) fun d => ?_
    -- The first frame is copied to the other slots before it is played.
    split
    · refine .bind (blind_prime _ _) fun _ => .bind (blind_prime _ _) fun _ => ?_
      exact blind_startSlot _
    · exact .pure _

end Triple

namespace Ring

variable {α : Type}

/-- A ring without its log entries. -/
def hushed (d : Ring) : Ring :=
  { d with notices := #[] }

theorem blind_onDeck {act : Run Deck α} (h : Blind Deck.hushed act) : Blind hushed (onDeck act) :=
  .within h (fun _ => rfl) fun _ _ => rfl

theorem hushed_checkStarved (d : Ring) :
    hushed (checkStarved (hushed d)) = hushed (checkStarved d) := by
  have hsame : (hushed d).writePos < (hushed d).readPos ∧ !(hushed d).starved ↔
      d.writePos < d.readPos ∧ !d.starved := Iff.rfl
  unfold checkStarved
  by_cases hpast : d.writePos < d.readPos ∧ !d.starved
  · rw [if_pos hpast, if_pos (hsame.mpr hpast)]
    rfl
  · rw [if_neg hpast, if_neg (mt hsame.mp hpast)]
    rfl

theorem hushed_sync (d : Ring) : hushed (sync (hushed d)) = hushed (sync d) := by
  have hsame : (hushed d).started ↔ d.started := Iff.rfl
  unfold sync
  by_cases hstarted : d.started
  · rw [if_pos hstarted, if_pos (hsame.mpr hstarted)]
    dsimp only
    rw [← hushed_checkStarved, ← hushed_checkStarved { d with
      ring := silenceWrapped d.readDelta d.readPos d.ring
      lastIndex := d.readIndex
      readPos := d.readPos + d.readDelta }]
    rfl
  · rw [if_neg hstarted, if_neg (mt hsame.mp hstarted)]
    rfl

theorem blind_step (limit : Nat) : Blind hushed (step limit) := by
  refine .get_bind (fun _ => rfl) fun d => ?_
  refine .bind (blind_onDeck (Deck.blind_transfer _ _)) fun _ => ?_
  exact .bind (.modify hushed_sync) fun _ => .pure _

theorem blind_advance (words : Nat) : Blind hushed (advance words) :=
  .elapse blind_step words

theorem blind_spin : Blind hushed spin :=
  .bind (.modify fun _ => rfl) fun _ => blind_advance waitWords

theorem blind_acquire : Blind hushed acquire :=
  .get_bind (fun _ => rfl) fun _ => .pure _

theorem blind_write (words : Array Word) : Blind hushed (write words) :=
  .modify fun _ => rfl

theorem blind_wrapOnce (n pos : Nat) : Blind hushed (wrapOnce n pos) := by
  refine .get_bind (fun _ => rfl) fun d => ?_
  show Blind hushed (if 2 * d.size - pos % d.size < n then throw .outOfRange else pure ())
  split
  · exact .throw _
  · exact .pure _

theorem blind_fillGuard (held : Word) : Blind hushed (fillGuard held) := by
  refine .get_bind (fun _ => rfl) fun d => ?_
  exact .bind (blind_wrapOnce _ _) fun _ => .modify fun _ => rfl

theorem blind_makeRoom : Blind hushed makeRoom := by
  refine .get_bind (fun _ => rfl) fun d => ?_
  split
  · refine .bind (.modify hushed_sync) fun _ => .bind (.modify fun _ => rfl) fun _ => ?_
    refine .get_bind (fun _ => rfl) fun _ => ?_
    exact .waitWhile blind_spin (fun _ => rfl) _
  · refine .get_bind (fun _ => rfl) fun _ => .bind (blind_wrapOnce _ _) fun _ => ?_
    exact .modify fun _ => rfl

theorem blind_commit (count : Nat) : Blind hushed (commit count) := by
  refine .get_bind (fun _ => rfl) fun d => ?_
  refine .bind (.modify fun _ => rfl) fun _ => .bind blind_makeRoom fun _ => ?_
  refine .get_bind (fun _ => rfl) fun _ => .get_bind (fun _ => rfl) fun _ => ?_
  refine .bind (blind_wrapOnce _ _) fun _ => .bind (.modify fun _ => rfl) fun _ => ?_
  refine .bind (blind_fillGuard _) fun _ => .bind (.modify fun _ => rfl) fun _ => ?_
  refine .get_bind (fun _ => rfl) fun d => ?_
  split
  · exact .pure _
  · exact .modify fun _ => rfl

end Ring

namespace Player

variable {α : Type}

/-- A player without its log entries. -/
def hushed (p : Player) : Player :=
  p.takeNotices.2

theorem hushed_double (d : Double) : hushed (.double d) = .double d.hushed := rfl

theorem hushed_chained (d : Chained) : hushed (.chained d) = .chained d.hushed := rfl

theorem hushed_ring (d : Ring) : hushed (.ring d) = .ring d.hushed := rfl

theorem hushed_triple (d : Triple) : hushed (.triple d) = .triple d.hushed := rfl

/-- A computation that no strategy needs its log for. -/
theorem blind_cases {onDouble : Run Double α} {onChained : Run Chained α} {onRing : Run Ring α}
    {onTriple : Run Triple α} (hdouble : Blind Double.hushed onDouble)
    (hchained : Blind Chained.hushed onChained) (hring : Blind Ring.hushed onRing)
    (htriple : Blind Triple.hushed onTriple) :
    Blind hushed (cases onDouble onChained onRing onTriple) := by
  intro p p' h
  cases p with
  | double d =>
    cases p' with
    | double d' =>
      rw [cases_double_eq, cases_double_eq]
      exact same_outcomeIn hushed_double (hdouble d d' (Player.double.inj h))
    | chained _ | ring _ | triple _ => cases h
  | chained d =>
    cases p' with
    | chained d' =>
      rw [cases_chained_eq, cases_chained_eq]
      exact same_outcomeIn hushed_chained (hchained d d' (Player.chained.inj h))
    | double _ | ring _ | triple _ => cases h
  | ring d =>
    cases p' with
    | ring d' =>
      rw [cases_ring_eq, cases_ring_eq]
      exact same_outcomeIn hushed_ring (hring d d' (Player.ring.inj h))
    | double _ | chained _ | triple _ => cases h
  | triple d =>
    cases p' with
    | triple d' =>
      rw [cases_triple_eq, cases_triple_eq]
      exact same_outcomeIn hushed_triple (htriple d d' (Player.triple.inj h))
    | double _ | chained _ | ring _ => cases h

/-- What software asks of a player, in any order. -/
inductive Request
  | acquire
  | write (words : Array Word)
  | commit (count : Nat)
  | advance (words : Nat)
  | service
  deriving DecidableEq, Repr, Inhabited

/-- A request; the answer is the place that was acquired, if one was. -/
def ask : Request → Run Player (Option (Array Word))
  | .acquire => do
    let place ← acquire
    return some place
  | .write words => do
    write words
    return none
  | .commit count => do
    commit count
    return none
  | .advance words => do
    advance words
    return none
  | .service => do
    service
    return none

/-- Requests one after the other, with all answers. -/
def asks : List Request → Run Player (List (Option (Array Word)))
  | [] => return []
  | r :: rest => do
    let answer ← ask r
    let answers ← asks rest
    return answer :: answers

theorem blind_ask (r : Request) : Blind hushed (ask r) := by
  cases r with
  | acquire =>
    refine .bind ?_ fun _ => .pure _
    exact blind_cases Double.blind_acquire Chained.blind_acquire Ring.blind_acquire
      Triple.blind_acquire
  | write words =>
    refine .bind ?_ fun _ => .pure _
    exact blind_cases (Double.blind_write words) (Chained.blind_write words)
      (Ring.blind_write words) (Triple.blind_write words)
  | commit count =>
    refine .bind ?_ fun _ => .pure _
    exact blind_cases (Double.blind_commit count) (Chained.blind_commit count)
      (Ring.blind_commit count) (Triple.blind_commit count)
  | advance words =>
    refine .bind ?_ fun _ => .pure _
    exact blind_cases (Double.blind_advance words) (Chained.blind_advance words)
      (Ring.blind_advance words) (Triple.blind_advance words)
  | service =>
    refine .bind ?_ fun _ => .pure _
    exact blind_cases Double.blind_service Chained.blind_service (.modify Ring.hushed_sync)
      Triple.blind_service

/-- **Players do not read their log,** whatever is asked of them. -/
theorem blind_asks (requests : List Request) : Blind hushed (asks requests) := by
  induction requests with
  | nil => exact .pure []
  | cons r rest ih =>
    apply Blind.bind (blind_ask r)
    intro answer
    exact .bind ih fun _ => .pure _

end Player

end ConsolePipeline.Playback
