import ConsolePipeline.Proofs.Playback.Unlogged

namespace ConsolePipeline.Playback

open Run Stereo

/-!
# Commits without a place

Software is to acquire a place before it commits it. A strategy with slots remembers which slot was
acquired; a commit that no slot belongs to is noted, and nothing comes of it. A ring gives out the
same staging area each time and does not remember whether it did: any commit is one of a frame to
it, and without a new frame it is the last one that is handed over again.

* `Double.Unfilled`, `Chained.Unfilled`, `Triple.Unfilled` — no slot is acquired, which nothing but
  an acquire changes; `commit_unfilled` — so it is after a commit.
* `Ring.commit_counts` — a ring counts every commit.
* `Player.outstanding` — whether a place is acquired, by what was asked so far; `asks_unfilled` — a
  strategy with slots knows it.
* `Player.Unheard` — a commit that changes nothing but the log.
* `Player.stray_commit_unheard_iff` — stray commits of any player.
-/

/-! ### Strategies with slots -/

namespace Double

variable {α : Type}

/-- No slot is acquired. -/
def Unfilled (d : Double) : Prop :=
  d.filling = none

theorem unfilled_onDeck (act : Run Deck α) : Preserves Unfilled (onDeck act) :=
  .within fun _ _ _ hd _ => hd

theorem unfilled_onSlots (act : Run Slots α) : Preserves Unfilled (onSlots act) :=
  .within fun _ _ _ hd _ => hd

theorem unfilled_startSlot (slot : Nat) : Preserves Unfilled (startSlot slot) := by
  apply Preserves.bind (unfilled_onSlots _)
  intro free
  exact .optional (.modify fun _ hd => hd) fun _ => .modify fun _ hd => hd

theorem unfilled_service : Preserves Unfilled service := by
  refine .get_bind fun _ _ => .get_bind fun _ _ => ?_
  split
  · refine .get_bind fun d _ => .bind (unfilled_onDeck _) fun _ => ?_
    refine .get_bind fun _ _ => .bind (.modify fun _ hd => hd) fun _ => ?_
    refine .get_bind fun _ _ => .optional (.modify fun _ hd => hd) fun _ => ?_
    split
    · exact .pure _
    · refine .bind (unfilled_onSlots _) fun _ => .get_bind fun _ _ => ?_
      exact .bind (.modify fun _ hd => hd) fun _ => unfilled_startSlot _
  · exact .pure _

theorem unfilled_step (limit : Nat) : Preserves Unfilled (step limit) := by
  refine .get_bind fun d _ => .bind (unfilled_onDeck _) fun outcome => ?_
  exact .optional unfilled_service fun _ => .pure _

theorem unfilled_advance (words : Nat) : Preserves Unfilled (advance words) :=
  .elapse unfilled_step words

theorem unfilled_write (words : Array Word) : Preserves Unfilled (write words) := by
  refine .get_bind fun d _ => ?_
  split
  · exact unfilled_onSlots _
  · exact .pure _

/-- **A stray commit** is noted. -/
theorem commit_stray {d : Double} (h : d.Unfilled) (count : Nat) :
    commit count d = .ok () { d with toDeck := d.toDeck.strayCommit } := by
  obtain ⟨deck, slots, channel, nextFill, filling, playing, queued⟩ := d
  obtain rfl : filling = none := h
  rfl

/-- After a commit no slot is acquired. -/
theorem commit_unfilled {d d' : Double} {count : Nat} (h : commit count d = .ok () d') :
    d'.Unfilled := by
  cases hfilling : d.filling with
  | none =>
    rw [commit_stray hfilling] at h
    cases h
    exact hfilling
  | some slot =>
    rw [commit, get_bind] at h
    simp only [hfilling] at h
    rw [modify_bind] at h
    -- The slot is forgotten first, and nothing after that acquires one.
    refine (?_ : Preserves Unfilled _) { d with filling := none } () d' rfl h
    refine .bind (unfilled_onSlots _) fun _ => .bind (unfilled_onSlots _) fun _ => ?_
    refine .bind (.modify fun _ hd => hd) fun _ => .get_bind fun _ _ => ?_
    split
    · split
      · exact .bind (unfilled_startSlot _) fun _ => .modify fun _ hd => hd
      · exact .pure _
    · split
      · exact .modify fun _ hd => hd
      · exact .pure _

/-- A new one has acquired none. -/
theorem unfilled_new {engine : Engine} {channel length pole : Nat} {d : Double}
    (h : new engine channel length pole = .ok d) : d.Unfilled := by
  rw [new] at h
  obtain ⟨claimed, -, h⟩ := Run.bind_eq_ok h
  cases h
  rfl

end Double

namespace Chained

variable {α : Type}

/-- No slot is acquired. -/
def Unfilled (d : Chained) : Prop :=
  d.filling = none

theorem unfilled_onDeck (act : Run Deck α) : Preserves Unfilled (onDeck act) :=
  .within fun _ _ _ hd _ => hd

theorem unfilled_onSlots (act : Run Slots α) : Preserves Unfilled (onSlots act) :=
  .within fun _ _ _ hd _ => hd

theorem unfilled_markPlaying (slot : Nat) : Preserves Unfilled (markPlaying slot) := by
  apply Preserves.bind (unfilled_onSlots _)
  intro free
  exact .optional (.modify fun _ hd => hd) fun _ => .modify fun _ hd => hd

theorem unfilled_retire (tag : Option Nat) (slot : Nat) : Preserves Unfilled (retire tag slot) := by
  refine .bind (.modify fun _ hd => hd) fun _ => .get_bind fun _ _ => ?_
  refine .optional (.modify fun _ hd => hd) fun _ => ?_
  split
  · exact .pure _
  · refine .bind (unfilled_onSlots _) fun _ => .bind (.modify fun _ hd => hd) fun _ => ?_
    exact unfilled_markPlaying _

theorem unfilled_service : Preserves Unfilled service := by
  refine .get_bind fun d _ => .bind (.modify fun _ hd => hd) fun _ => ?_
  refine .optional (unfilled_retire _ 0) fun _ => ?_
  split
  · exact unfilled_retire _ 1
  · exact .pure _

theorem unfilled_step (limit : Nat) : Preserves Unfilled (step limit) := by
  refine .get_bind fun d _ => .bind (unfilled_onDeck _) fun outcome => ?_
  exact .optional unfilled_service fun _ => .pure _

theorem unfilled_advance (words : Nat) : Preserves Unfilled (advance words) :=
  .elapse unfilled_step words

theorem unfilled_write (words : Array Word) : Preserves Unfilled (write words) := by
  refine .get_bind fun d _ => ?_
  split
  · exact unfilled_onSlots _
  · exact .pure _

/-- **A stray commit** is noted. -/
theorem commit_stray {d : Chained} (h : d.Unfilled) (count : Nat) :
    commit count d = .ok () { d with toDeck := d.toDeck.strayCommit } := by
  obtain ⟨deck, slots, channels, nextFill, filling, playing⟩ := d
  obtain rfl : filling = none := h
  rfl

/-- After a commit no slot is acquired. -/
theorem commit_unfilled {d d' : Chained} {count : Nat} (h : commit count d = .ok () d') :
    d'.Unfilled := by
  cases hfilling : d.filling with
  | none =>
    rw [commit_stray hfilling] at h
    cases h
    exact hfilling
  | some slot =>
    rw [commit, get_bind] at h
    simp only [hfilling] at h
    rw [modify_bind] at h
    refine (?_ : Preserves Unfilled _) { d with filling := none } () d' rfl h
    refine .bind (unfilled_onSlots _) fun _ => .bind (unfilled_onSlots _) fun _ => ?_
    refine .bind (.modify fun _ hd => hd) fun _ => .get_bind fun _ _ => ?_
    split
    · exact .bind (unfilled_markPlaying 0) fun _ => .modify fun _ hd => hd
    · exact .pure _

/-- A new one has acquired none. -/
theorem unfilled_new {engine : Engine} {first second length pole : Nat} {d : Chained}
    (h : new engine first second length pole = .ok d) : d.Unfilled := by
  rw [new] at h
  obtain ⟨claimed, -, h⟩ := Run.bind_eq_ok h
  obtain ⟨both, -, h⟩ := Run.bind_eq_ok h
  cases h
  rfl

end Chained

namespace Triple

variable {α : Type}

/-- No slot is acquired. -/
def Unfilled (d : Triple) : Prop :=
  d.filling = none

theorem unfilled_onDeck (act : Run Deck α) : Preserves Unfilled (onDeck act) :=
  .within fun _ _ _ hd _ => hd

theorem unfilled_onSlots (act : Run Slots α) : Preserves Unfilled (onSlots act) :=
  .within fun _ _ _ hd _ => hd

theorem unfilled_startSlot (slot : Nat) : Preserves Unfilled (startSlot slot) := by
  apply Preserves.bind (unfilled_onSlots _)
  intro free
  exact .optional (.modify fun _ hd => hd) fun _ => .modify fun _ hd => hd

theorem unfilled_service : Preserves Unfilled service := by
  refine .get_bind fun _ _ => .get_bind fun _ _ => ?_
  split
  · refine .get_bind fun d _ => .bind (unfilled_onDeck _) fun _ => ?_
    refine .get_bind fun _ _ => .bind (.modify fun _ hd => hd) fun _ => ?_
    refine .get_bind fun _ _ => .optional (.modify fun _ hd => hd) fun _ => ?_
    split
    · exact .pure _
    · exact .bind (unfilled_onSlots _) fun _ => unfilled_startSlot _
  · exact .pure _

theorem unfilled_step (limit : Nat) : Preserves Unfilled (step limit) := by
  refine .get_bind fun d _ => .bind (unfilled_onDeck _) fun outcome => ?_
  exact .optional unfilled_service fun _ => .pure _

theorem unfilled_advance (words : Nat) : Preserves Unfilled (advance words) :=
  .elapse unfilled_step words

theorem unfilled_write (words : Array Word) : Preserves Unfilled (write words) := by
  refine .get_bind fun d _ => ?_
  split
  · exact unfilled_onSlots _
  · exact .pure _

theorem unfilled_prime (source target : Nat) : Preserves Unfilled (prime source target) :=
  .bind (unfilled_onSlots _) fun _ => .modify fun _ hd => hd

/-- **A stray commit** is noted. -/
theorem commit_stray {d : Triple} (h : d.Unfilled) (count : Nat) :
    commit count d = .ok () { d with toDeck := d.toDeck.strayCommit } := by
  obtain ⟨deck, slots, channel, filling, playing, primed⟩ := d
  obtain rfl : filling = none := h
  rfl

/-- After a commit no slot is acquired. -/
theorem commit_unfilled {d d' : Triple} {count : Nat} (h : commit count d = .ok () d') :
    d'.Unfilled := by
  cases hfilling : d.filling with
  | none =>
    rw [commit_stray hfilling] at h
    cases h
    exact hfilling
  | some slot =>
    rw [commit, get_bind] at h
    simp only [hfilling] at h
    rw [modify_bind] at h
    refine (?_ : Preserves Unfilled _) { d with filling := none } () d' rfl h
    refine .bind (unfilled_onSlots _) fun _ => .bind (unfilled_onSlots _) fun _ => ?_
    refine .bind (.modify fun _ hd => hd) fun _ => .get_bind fun _ _ => ?_
    split
    · refine .bind (unfilled_prime _ _) fun _ => .bind (unfilled_prime _ _) fun _ => ?_
      exact unfilled_startSlot _
    · exact .pure _

/-- A new one has acquired none. -/
theorem unfilled_new {engine : Engine} {channel length pole : Nat} {d : Triple}
    (h : new engine channel length pole = .ok d) : d.Unfilled := by
  rw [new] at h
  obtain ⟨claimed, -, h⟩ := Run.bind_eq_ok h
  cases h
  rfl

end Triple

/-! ### The ring -/

namespace Ring

variable {k : Nat}

/-- So many frames have been counted. -/
def Counted (k : Nat) (d : Ring) : Prop :=
  d.stats.commits = k

theorem Counted.sync {d : Ring} (h : d.Counted k) : d.sync.Counted k := by
  unfold Ring.sync checkStarved
  split
  · dsimp only
    split <;> exact h
  · exact h

theorem counted_transfer (memory : Array (Array Word)) (limit : Nat) :
    Preserves (Counted k) (onDeck (Deck.transfer memory limit)) := by
  apply Preserves.within
  intro d outcome deck hd h
  simp only [Deck.transfer] at h
  split at h
  · cases h
  · cases h
    -- The time is counted as idle or not, and the frames not at all.
    simp only [Counted]
    split <;> exact hd

theorem counted_step (limit : Nat) : Preserves (Counted k) (step limit) := by
  refine .get_bind fun _ _ => .bind (counted_transfer _ _) fun _ => ?_
  exact .bind (.modify fun _ hd => hd.sync) fun _ => .pure _

theorem counted_spin : Preserves (Counted k) spin :=
  .bind (.modify fun _ hd => hd) fun _ => .elapse counted_step waitWords

theorem counted_wrapOnce (n pos : Nat) : Preserves (Counted k) (wrapOnce n pos) := by
  refine .get_bind fun d _ => ?_
  show Preserves _ (if 2 * d.size - pos % d.size < n then throw .outOfRange else pure ())
  split
  · exact .throw _
  · exact .pure _

theorem counted_fillGuard (held : Word) : Preserves (Counted k) (fillGuard held) := by
  refine .get_bind fun _ _ => .bind (counted_wrapOnce _ _) fun _ => ?_
  exact .modify fun _ hd => hd

theorem counted_makeRoom : Preserves (Counted k) makeRoom := by
  refine .get_bind fun _ _ => ?_
  split
  · refine .bind (.modify fun _ hd => hd.sync) fun _ => ?_
    refine .bind (.modify fun _ hd => hd) fun _ => .get_bind fun _ _ => ?_
    exact .waitWhile counted_spin _
  · refine .get_bind fun _ _ => .bind (counted_wrapOnce _ _) fun _ => ?_
    exact .modify fun _ hd => hd

/-- **A ring counts every commit** that returns, whether a place was acquired or not. -/
theorem commit_counts {d d' : Ring} {count : Nat} (h : commit count d = .ok () d') :
    d'.stats.commits = d.stats.commits + 1 := by
  rw [commit, get_bind] at h
  dsimp only at h
  rw [modify_bind] at h
  -- No part of a commit but its last one changes the count.
  obtain ⟨_, d₁, hroom, h⟩ := bind_inv h
  have h₁ : d₁.Counted d.stats.commits := by
    refine counted_makeRoom _ _ _ ?_ hroom
    rfl
  rw [get_bind, get_bind] at h
  obtain ⟨_, d₂, hwrap, h⟩ := bind_inv h
  have h₂ : d₂.Counted d.stats.commits := counted_wrapOnce _ _ _ _ _ h₁ hwrap
  rw [modify_bind] at h
  obtain ⟨_, d₃, hguard, h⟩ := bind_inv h
  have h₃ : d₃.Counted d.stats.commits := by
    refine counted_fillGuard _ _ _ _ ?_ hguard
    exact h₂
  rw [modify_bind, get_bind] at h
  have hcommits : d₃.stats.commits + 1 = d.stats.commits + 1 := congrArg (· + 1) h₃
  split at h <;> cases h <;> exact hcommits

end Ring

/-! ### Players -/

namespace Player

/-- What the hardware can play: the slots, or the ring. -/
def memory : Player → Array (Array Word)
  | .double d => d.slots.memory
  | .chained d => d.slots.memory
  | .ring d => #[d.ring]
  | .triple d => d.slots.memory

/-- No slot is acquired; a ring has none. -/
def Unfilled : Player → Prop
  | .double d => d.Unfilled
  | .chained d => d.Unfilled
  | .ring _ => True
  | .triple d => d.Unfilled

/-- Whether a place is acquired after a request. -/
def Request.holds (holding : Bool) : Request → Bool
  | .acquire => true
  | .commit _ => false
  | _ => holding

/-- **Whether a place is acquired,** by what was asked so far. -/
def outstanding (requests : List Request) : Bool :=
  requests.foldl Request.holds false

/-- **A new player** has no place acquired. -/
theorem unfilled_new {strategy : Strategy} {engine : Engine} {channels : Nat × Nat}
    {len pole : Nat} {config : RingConfig} {p : Player}
    (h : new strategy engine channels len pole config = .ok p) : p.Unfilled := by
  cases strategy with
  | double =>
    obtain ⟨d, hd, rfl⟩ := Run.map_inv h
    exact Double.unfilled_new hd
  | chained =>
    obtain ⟨d, hd, rfl⟩ := Run.map_inv h
    exact Chained.unfilled_new hd
  | ring =>
    obtain ⟨d, -, rfl⟩ := Run.map_inv h
    trivial
  | triple =>
    obtain ⟨d, hd, rfl⟩ := Run.map_inv h
    exact Triple.unfilled_new hd

/-! #### What requests keep -/

section

variable {P : Player → Prop}

theorem preserves_ask (hacquire : Preserves P acquire) (hwrite : ∀ words, Preserves P (write words))
    (hcommit : ∀ count, Preserves P (commit count))
    (hadvance : ∀ words, Preserves P (advance words)) (hservice : Preserves P service)
    (r : Request) : Preserves P (ask r) := by
  cases r with
  | acquire => exact .bind hacquire fun _ => .pure _
  | write words => exact .bind (hwrite words) fun _ => .pure _
  | commit count => exact .bind (hcommit count) fun _ => .pure _
  | advance words => exact .bind (hadvance words) fun _ => .pure _
  | service => exact .bind hservice fun _ => .pure _

/-- What each request keeps is kept by all of them. -/
theorem preserves_asks (hask : ∀ r, Preserves P (ask r)) (requests : List Request) :
    Preserves P (asks requests) := by
  induction requests with
  | nil => exact .pure _
  | cons r rest ih => exact .bind (hask r) fun _ => .bind ih fun _ => .pure _

end

/-- A player stays with its strategy. -/
theorem preserves_strategy {α : Type} {onDouble : Run Double α} {onChained : Run Chained α}
    {onRing : Run Ring α} {onTriple : Run Triple α} (strategy : Strategy) :
    Preserves (fun p => p.strategy = strategy) (cases onDouble onChained onRing onTriple) :=
  preserves_cases (fun _ _ _ hd _ => hd) (fun _ _ _ hd _ => hd) (fun _ _ _ hd _ => hd)
    fun _ _ _ hd _ => hd

theorem strategy_asks (strategy : Strategy) (requests : List Request) :
    Preserves (fun p => p.strategy = strategy) (asks requests) :=
  preserves_asks (preserves_ask (preserves_strategy _) (fun _ => preserves_strategy _)
    (fun _ => preserves_strategy _) (fun _ => preserves_strategy _) (preserves_strategy _)) requests

theorem booked_asks (len : Nat) (requests : List Request) :
    Preserves (Booked len) (asks requests) :=
  preserves_asks (preserves_ask booked_acquire booked_write booked_commit booked_advance
    booked_service) requests

/-- After a commit no slot is acquired. -/
theorem commit_unfilled {p p' : Player} {count : Nat} (h : commit count p = .ok () p') :
    p'.Unfilled :=
  cases_inv (Q := fun _ _ p' => p'.Unfilled) (fun _ _ _ => Double.commit_unfilled)
    (fun _ _ _ => Chained.commit_unfilled) (fun _ _ _ _ => trivial)
    (fun _ _ _ => Triple.commit_unfilled) h

/-- **One request more:** if no place is acquired after it, no slot is. -/
theorem ask_unfilled {p p' : Player} {r : Request} {answer : Option (Array Word)} {holding : Bool}
    (hp : holding = false → p.Unfilled) (h : ask r p = .ok answer p')
    (hfree : r.holds holding = false) : p'.Unfilled := by
  cases r with
  | acquire => cases hfree
  | write words =>
    have hkeeps : Preserves Unfilled (write words) := preserves_cases (Double.unfilled_write words)
      (Chained.unfilled_write words) (fun _ _ _ _ _ => trivial) (Triple.unfilled_write words)
    exact Preserves.bind hkeeps (fun _ => .pure _) _ _ _ (hp hfree) h
  | commit count =>
    obtain ⟨_, p₁, hcommit, h⟩ := bind_inv h
    cases h
    exact commit_unfilled hcommit
  | advance words =>
    have hkeeps : Preserves Unfilled (advance words) :=
      preserves_cases (Double.unfilled_advance words) (Chained.unfilled_advance words)
        (fun _ _ _ _ _ => trivial) (Triple.unfilled_advance words)
    exact Preserves.bind hkeeps (fun _ => .pure _) _ _ _ (hp hfree) h
  | service =>
    have hkeeps : Preserves Unfilled service := preserves_cases Double.unfilled_service
      Chained.unfilled_service (fun _ _ _ _ _ => trivial) Triple.unfilled_service
    exact Preserves.bind hkeeps (fun _ => .pure _) _ _ _ (hp hfree) h

/-- **A strategy with slots knows whether one is acquired,** after any requests. -/
theorem asks_unfilled {p p' : Player} {requests : List Request}
    {answers : List (Option (Array Word))} {holding : Bool} (hp : holding = false → p.Unfilled)
    (h : asks requests p = .ok answers p')
    (hfree : requests.foldl Request.holds holding = false) : p'.Unfilled := by
  induction requests generalizing p answers holding with
  | nil =>
    cases h
    exact hp hfree
  | cons r rest ih =>
    obtain ⟨answer, p₁, hask, h⟩ := bind_inv h
    obtain ⟨more, p₂, hrest, h⟩ := bind_inv h
    cases h
    exact ih (fun hholding => ask_unfilled hp hask hholding) hrest hfree

/-! #### Stray commits -/

/-- **A commit that changes nothing but the log:** not the counters, not the word that the next
    frame may be padded with, not what the hardware can play or has played; and whatever is asked
    after it is answered as it would have been without it. -/
def Unheard (count : Nat) (p : Player) : Prop :=
  ∃ p', commit count p = .ok () p' ∧ p'.stats = p.stats ∧ p'.held = p.held ∧
    p'.memory = p.memory ∧ p'.played = p.played ∧
    ∀ after, Same hushed (asks after p) (asks after p')

theorem stats_hushed (p : Player) : p.hushed.stats = p.stats := by
  cases p <;> rfl

theorem held_hushed (p : Player) : p.hushed.held = p.held := by
  cases p <;> rfl

theorem memory_hushed (p : Player) : p.hushed.memory = p.memory := by
  cases p <;> rfl

theorem played_hushed (p : Player) : p.hushed.played = p.played := by
  cases p <;> rfl

/-- What changes nothing but the log is not heard. -/
theorem unheard_of_hushed {p p' : Player} {count : Nat} (h : commit count p = .ok () p')
    (hsame : p'.hushed = p.hushed) : p.Unheard count := by
  refine ⟨p', h, ?_, ?_, ?_, ?_, fun after => blind_asks after p p' hsame.symm⟩
  · rw [← stats_hushed, hsame, stats_hushed]
  · rw [← held_hushed, hsame, held_hushed]
  · rw [← memory_hushed, hsame, memory_hushed]
  · rw [← played_hushed, hsame, played_hushed]

/-- **With slots,** a commit without one is not heard. -/
theorem Unfilled.unheard {p : Player} (h : p.Unfilled) (hslots : p.strategy ≠ .ring)
    (count : Nat) : p.Unheard count := by
  cases p with
  | ring d => exact absurd rfl hslots
  | double d =>
    have hcommit : commit count (.double d) =
        .ok () (.double { d with toDeck := d.toDeck.strayCommit }) := by
      rw [commit, cases_double_eq, Double.commit_stray h]
      rfl
    exact unheard_of_hushed hcommit rfl
  | chained d =>
    have hcommit : commit count (.chained d) =
        .ok () (.chained { d with toDeck := d.toDeck.strayCommit }) := by
      rw [commit, cases_chained_eq, Chained.commit_stray h]
      rfl
    exact unheard_of_hushed hcommit rfl
  | triple d =>
    have hcommit : commit count (.triple d) =
        .ok () (.triple { d with toDeck := d.toDeck.strayCommit }) := by
      rw [commit, cases_triple_eq, Triple.commit_stray h]
      rfl
    exact unheard_of_hushed hcommit rfl

/-- **A ring counts every commit** as one of a frame. -/
theorem ring_commit_counts {p p' : Player} {count len : Nat} (hring : p.strategy = .ring)
    (hbooked : p.Booked len) (h : commit count p = .ok () p') :
    p'.stats.commits = p.stats.commits + 1 ∧
      p'.stats.samplesCommitted = p.stats.samplesCommitted + len := by
  have hcommits : p'.stats.commits = p.stats.commits + 1 := by
    cases p with
    | ring d =>
      rw [commit, cases_ring_eq] at h
      obtain ⟨d', hrun, rfl⟩ := outcomeIn_inv h
      exact Ring.commit_counts hrun
    | double _ | chained _ | triple _ => cases hring
  have hafter : p'.Booked len := booked_commit count _ _ _ hbooked h
  refine ⟨hcommits, ?_⟩
  rw [hafter.balanced, hbooked.balanced, hcommits, Nat.succ_mul]

/-- To a ring a stray commit is the commit of a place that was acquired. -/
theorem ring_commit_eq {p : Player} (hring : p.strategy = .ring) (count : Nat) :
    commit count p = (acquire >>= fun _ => commit count) p := by
  cases p with
  | ring d =>
    have hacquire : acquire (.ring d) = .ok d.staging (.ring d) := by
      rw [acquire, cases_ring_eq]
      rfl
    rw [bind_ok hacquire]
  | double _ | chained _ | triple _ => cases hring

/-- **Which players a stray commit is not heard of:** all but rings. After any requests on a new
    player that leave no place acquired, a commit of any count changes nothing but the log, now and
    later, unless the player is a ring. A ring takes it for the commit of a frame, and counts it as
    one if it returns. -/
theorem stray_commit_unheard_iff {strategy : Strategy} {engine : Engine} {channels : Nat × Nat}
    {len pole : Nat} {config : RingConfig} {p q : Player} {before : List Request}
    {answers : List (Option (Array Word))}
    (hnew : new strategy engine channels len pole config = .ok p)
    (hrun : asks before p = .ok answers q) (hfree : outstanding before = false) (count : Nat) :
    (q.Unheard count ↔ strategy ≠ .ring) ∧
      (strategy = .ring → commit count q = (acquire >>= fun _ => commit count) q ∧
        ∀ q', commit count q = .ok () q' → q'.stats.commits = q.stats.commits + 1 ∧
          q'.stats.samplesCommitted = q.stats.samplesCommitted + len) := by
  have hstrategy : q.strategy = strategy :=
    strategy_asks strategy before p answers q (strategy_new hnew) hrun
  have hbooked : q.Booked len := booked_asks len before p answers q (booked_new hnew) hrun
  have hstart : p.Unfilled := unfilled_new hnew
  refine ⟨⟨?_, fun hslots => ?_⟩, fun hring => ?_⟩
  · rintro ⟨q', hcommit, hstats, -⟩ hring
    -- A commit that has been counted shows.
    obtain ⟨hcommits, -⟩ := ring_commit_counts (hstrategy.trans hring) hbooked hcommit
    rw [hstats] at hcommits
    omega
  · have hunfilled : q.Unfilled := asks_unfilled (fun _ => hstart) hrun hfree
    exact hunfilled.unheard (hstrategy.trans_ne hslots) count
  · have hq : q.strategy = .ring := hstrategy.trans hring
    exact ⟨ring_commit_eq hq count, fun q' hcommit => ring_commit_counts hq hbooked hcommit⟩

/-- A frame of two words through two slots, and through a ring: a stray commit after it is not heard
    of the slots, but puts the frame into the ring once more. -/
theorem stray_commit_repeats_frame :
    (∃ p q, new .double {} (0, 1) 2 16 {} = .ok p ∧
      asks [.acquire, .write #[5, 6], .commit 2] p = .ok [some #[0, 0], none, none] q ∧
      q.Unheard 2) ∧
    ∃ p q q', new .ring {} (0, 1) 2 16 { size := 8, margin := 0, guard := 0 } = .ok p ∧
      asks [.acquire, .write #[5, 6], .commit 2] p = .ok [some #[0, 0], none, none] q ∧
      ¬q.Unheard 2 ∧ q.memory = #[#[0, 0, 5, 6, 0, 0, 0, 0]] ∧
      commit 2 q = .ok () q' ∧ q'.memory = #[#[0, 0, 5, 6, 5, 6, 0, 0]] := by
  constructor
  · obtain ⟨p, q, hnew, hrun⟩ : ∃ p q, new .double {} (0, 1) 2 16 {} = .ok p ∧
        asks [.acquire, .write #[5, 6], .commit 2] p = .ok [some #[0, 0], none, none] q :=
      ⟨_, _, rfl, rfl⟩
    exact ⟨p, q, hnew, hrun, (stray_commit_unheard_iff hnew hrun rfl 2).1.mpr nofun⟩
  · obtain ⟨p, q, q', hnew, hrun, hfirst, hstray, hsecond⟩ :
        ∃ p q q', new .ring {} (0, 1) 2 16 { size := 8, margin := 0, guard := 0 } = .ok p ∧
          asks [.acquire, .write #[5, 6], .commit 2] p = .ok [some #[0, 0], none, none] q ∧
          q.memory = #[#[0, 0, 5, 6, 0, 0, 0, 0]] ∧ commit 2 q = .ok () q' ∧
          q'.memory = #[#[0, 0, 5, 6, 5, 6, 0, 0]] :=
      ⟨_, _, _, rfl, rfl, rfl, rfl, rfl⟩
    have hheard : ¬q.Unheard 2 := fun hunheard =>
      (stray_commit_unheard_iff hnew hrun rfl 2).1.mp hunheard rfl
    exact ⟨p, q, q', hnew, hrun, hheard, hfirst, hstray, hsecond⟩

end Player

end ConsolePipeline.Playback
