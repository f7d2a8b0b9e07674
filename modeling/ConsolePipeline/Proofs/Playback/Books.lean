import ConsolePipeline.Proofs.Playback.Interrupted.Player
import ConsolePipeline.Proofs.Preserves

namespace ConsolePipeline.Playback

open Run Stereo

/-!
# The books of a player

Each frame that a player commits has as many words as any other, so that the words it has counted
are those of the frames it has counted. No call upsets this, whether it comes in turn or not, and
however the hardware stands.

* `Deck.Balanced` — words counted are those of the frames counted.
* `Slots.shaped_beginFill`, ... — the slots stay as long as they are.
* `Double.Booked`, `Chained.Booked`, `Triple.Booked`, `Ring.Booked` — books that are in order, and
  places of the right length, so that they stay so.
* `Player.preserves_cases` — what a computation keeps that is given for each strategy.
* `Player.Booked`, `Player.booked_new` — the books of any player, and of a new one.
-/

/-! ### The deck -/

/-- **Words counted are those of the frames counted.** -/
def Deck.Balanced (len : Nat) (d : Deck) : Prop :=
  d.stats.samplesCommitted = d.stats.commits * len

namespace Deck

variable {len : Nat}

/-- A frame more, and its words. -/
theorem Balanced.committed {d : Deck} (h : d.Balanced len) (held : Word) :
    (d.committed held len).Balanced len := by
  show d.stats.samplesCommitted + len = (d.stats.commits + 1) * len
  rw [Nat.succ_mul]
  exact congrArg (· + len) h

theorem balanced_transfer (memory : Array (Array Word)) (limit : Nat) :
    Preserves (Balanced len) (transfer memory limit) := by
  intro d step d' hd h
  rw [transfer] at h
  split at h
  · cases h
  · cases h
    -- The time is counted as idle or not, and the frames not at all.
    simp only [Balanced]
    split <;> exact hd

theorem balanced_serve (ch : ChannelId) : Preserves (Balanced len) (serve ch) := by
  intro d tag d' hd h
  cases h
  exact hd

end Deck

/-! ### Slots -/

namespace Slots

variable {s s' : Slots} {count len pole slot : Nat} {state : SlotState}

theorem owner_inv (h : owner slot s = .ok state s') : s.state? slot = some state ∧ s' = s := by
  rw [owner] at h
  split at h
  · rename_i heq
    cases h
    exact ⟨heq, rfl⟩
  · cases h

/-- Words are replaced by as many. -/
theorem Shaped.resized (h : s.Shaped count len pole) {words : Array Word}
    (hwords : words.size = (s.words slot).size) :
    (s.setWords slot words).Shaped count len pole := by
  by_cases hslot : slot < count
  · exact Shaped.setWords h (hwords.trans (h.words_size slot hslot)) slot
  · -- There is no such slot.
    have hsame : s.setWords slot words = s := by
      have hout : s.memory.size ≤ slot := by
        rw [h.memory_size]
        exact Nat.le_of_not_lt hslot
      rw [Slots.setWords, Array.setIfInBounds_eq_of_size_le hout]
    rw [hsame]
    exact h

theorem shaped_owner (slot : Nat) : Preserves (Shaped · count len pole) (owner slot) := by
  intro s state s' hs h
  rw [(owner_inv h).2]
  exact hs

theorem shaped_beginFill (slot : Nat) : Preserves (Shaped · count len pole) (beginFill slot) := by
  apply Preserves.bind (shaped_owner slot)
  intro state
  split
  · apply Preserves.bind
    · exact Preserves.modify fun s hs => hs.setState slot .filling
    · exact fun _ => Preserves.pure _
  · exact Preserves.throw _

theorem shaped_overwrite (slot : Nat) (words : Array Word) :
    Preserves (Shaped · count len pole) (overwrite slot words) := by
  apply Preserves.bind (shaped_owner slot)
  intro state
  split
  · apply Preserves.modify
    intro s hs
    exact hs.resized (size_overlay words (s.words slot))
  · exact Preserves.throw _

theorem shaped_finishFill (slot : Nat) :
    Preserves (Shaped · count len pole) (finishFill slot) := by
  apply Preserves.bind (shaped_owner slot)
  intro state
  split
  · exact Preserves.modify fun s hs => hs.setState slot .ready
  · exact Preserves.throw _

theorem shaped_beginDrain (slot : Nat) :
    Preserves (Shaped · count len pole) (beginDrain slot) := by
  apply Preserves.bind (shaped_owner slot)
  intro state
  split
  · apply Preserves.bind
    · exact Preserves.modify fun s hs => hs.setState slot .draining
    · exact fun _ => Preserves.pure _
  · exact Preserves.throw _

theorem shaped_finishDrain (slot : Nat) :
    Preserves (Shaped · count len pole) (finishDrain slot) := by
  apply Preserves.bind (shaped_owner slot)
  intro state
  split
  · apply Preserves.modify
    intro s hs
    exact (hs.resized (size_fade _ _ _)).setState slot .free
  · exact Preserves.throw _

theorem shaped_duplicate (source target : Nat) :
    Preserves (Shaped · count len pole) (duplicate source target) := by
  intro s u s' hs h
  obtain ⟨state, s₁, howner, hrest⟩ := bind_inv h
  obtain ⟨hstate, rfl⟩ := owner_inv howner
  clear h howner
  -- The source is a slot, so its words are as many as those of any other.
  have hsource : (s₁.words source).size = len := hs.words_size source (lt_of_state? hs hstate)
  split at hrest
  · obtain ⟨other, s₂, howner, hcopy⟩ := bind_inv hrest
    obtain ⟨-, rfl⟩ := owner_inv howner
    clear hrest howner
    split at hcopy
    · cases hcopy
      exact (Shaped.setWords hs hsource target).setState target .ready
    · cases hcopy
  · cases hrest

end Slots

/-! ### Strategies with slots -/

/-- Books in order, beside slots of the right length. -/
structure Booked (count len : Nat) (d : Deck) (s : Slots) : Prop where
  shaped : ∃ pole, s.Shaped count len pole
  balanced : d.Balanced len

namespace Booked

variable {σ α : Type} {deck : σ → Deck} {slots : σ → Slots} {count len : Nat}

/-- Nothing has been counted at the start. -/
theorem start {engine : Engine} {pole : Nat} :
    Booked count len { engine } (Slots.new count len pole) :=
  ⟨⟨pole, Slots.shaped_new count len pole⟩, (Nat.zero_mul len).symm⟩

/-- A frame more, with the words of a slot. -/
theorem committed {d : Deck} {s : Slots} (h : Booked (count + 1) len d s) (held : Word) :
    Booked (count + 1) len (d.committed held s.slotLength) s := by
  obtain ⟨pole, hshaped⟩ := h.shaped
  refine ⟨h.shaped, ?_⟩
  rw [hshaped.slotLength (Nat.succ_pos count)]
  exact h.balanced.committed held

/-- What changes neither the slots nor the counters of frames keeps the books in order. -/
theorem modify {f : σ → σ}
    (h : ∀ d, slots (f d) = slots d ∧ (deck (f d)).stats.commits = (deck d).stats.commits ∧
      (deck (f d)).stats.samplesCommitted = (deck d).stats.samplesCommitted) :
    Preserves (fun d => Booked count len (deck d) (slots d)) (modify f : Run σ PUnit) := by
  apply Preserves.modify
  intro d hd
  obtain ⟨hslots, hcommits, hsamples⟩ := h d
  refine ⟨hslots ▸ hd.shaped, ?_⟩
  rw [Deck.Balanced, hcommits, hsamples]
  exact hd.balanced

theorem onDeck {focus : σ → Deck × (Deck → σ)} {act : Run Deck α}
    (hfocus : ∀ d, (focus d).1 = deck d ∧
      ∀ t, deck ((focus d).2 t) = t ∧ slots ((focus d).2 t) = slots d)
    (hact : Preserves (Deck.Balanced len) act) :
    Preserves (fun d => Booked count len (deck d) (slots d)) (within focus act) := by
  apply Preserves.within
  intro d a t hd hrun
  obtain ⟨hdeck, hback⟩ := hfocus d
  rw [hdeck] at hrun
  rw [(hback t).1, (hback t).2]
  exact ⟨hd.shaped, hact _ _ _ hd.balanced hrun⟩

theorem onSlots {focus : σ → Slots × (Slots → σ)} {act : Run Slots α}
    (hfocus : ∀ d, (focus d).1 = slots d ∧
      ∀ t, slots ((focus d).2 t) = t ∧ deck ((focus d).2 t) = deck d)
    (hact : ∀ pole, Preserves (Slots.Shaped · count len pole) act) :
    Preserves (fun d => Booked count len (deck d) (slots d)) (within focus act) := by
  apply Preserves.within
  intro d a t hd hrun
  obtain ⟨hslots, hback⟩ := hfocus d
  obtain ⟨pole, hshaped⟩ := hd.shaped
  rw [hslots] at hrun
  rw [(hback t).1, (hback t).2]
  exact ⟨⟨pole, hact pole _ _ _ hshaped hrun⟩, hd.balanced⟩

end Booked

namespace Double

variable {α : Type} {len : Nat}

/-- Books that are in order. -/
def Booked (len : Nat) (d : Double) : Prop :=
  Playback.Booked 2 len d.toDeck d.slots

theorem booked_onDeck {act : Run Deck α} (h : Preserves (Deck.Balanced len) act) :
    Preserves (Booked len) (onDeck act) :=
  Playback.Booked.onDeck (fun _ => ⟨rfl, fun _ => ⟨rfl, rfl⟩⟩) h

theorem booked_onSlots {act : Run Slots α} (h : ∀ pole, Preserves (Slots.Shaped · 2 len pole) act) :
    Preserves (Booked len) (onSlots act) :=
  Playback.Booked.onSlots (fun _ => ⟨rfl, fun _ => ⟨rfl, rfl⟩⟩) h

theorem booked_modify {f : Double → Double}
    (h : ∀ d, (f d).slots = d.slots ∧ (f d).stats.commits = d.stats.commits ∧
      (f d).stats.samplesCommitted = d.stats.samplesCommitted) :
    Preserves (Booked len) (modify f : Run Double PUnit) :=
  Playback.Booked.modify h

theorem booked_startSlot (slot : Nat) : Preserves (Booked len) (startSlot slot) := by
  refine .bind (booked_onSlots fun _ => Slots.shaped_beginDrain slot) fun _ => ?_
  refine .optional (booked_modify fun _ => ⟨rfl, rfl, rfl⟩) fun _ => ?_
  exact booked_modify fun _ => ⟨rfl, rfl, rfl⟩

theorem booked_service : Preserves (Booked len) service := by
  refine .get_bind fun _ _ => .get_bind fun _ _ => ?_
  split
  · refine .get_bind fun d _ => .bind (booked_onDeck (Deck.balanced_serve d.channel)) fun _ => ?_
    refine .get_bind fun _ _ => .bind (booked_modify fun _ => ⟨rfl, rfl, rfl⟩) fun _ => ?_
    refine .get_bind fun _ _ => .optional (booked_modify fun _ => ⟨rfl, rfl, rfl⟩) fun _ => ?_
    split
    · exact .pure _
    · refine .bind (booked_onSlots fun _ => Slots.shaped_finishDrain _) fun _ => ?_
      refine .get_bind fun _ _ => .bind (booked_modify fun _ => ⟨rfl, rfl, rfl⟩) fun _ => ?_
      exact booked_startSlot _
  · exact .pure _

theorem booked_step (limit : Nat) : Preserves (Booked len) (step limit) := by
  refine .get_bind fun d _ => ?_
  refine .bind (booked_onDeck (Deck.balanced_transfer d.slots.memory limit)) fun _ => ?_
  exact .optional booked_service fun _ => .pure _

theorem booked_advance (words : Nat) : Preserves (Booked len) (advance words) :=
  .elapse booked_step words

theorem booked_spin : Preserves (Booked len) spin :=
  .bind (booked_modify fun _ => ⟨rfl, rfl, rfl⟩) fun _ => booked_advance waitWords

theorem booked_acquire : Preserves (Booked len) acquire := by
  refine .bind booked_service fun _ => .get_bind fun d _ => ?_
  refine .bind (.waitWhile booked_spin d.waitBound) fun _ => .get_bind fun d _ => ?_
  refine .bind (booked_onSlots fun _ => Slots.shaped_beginFill d.nextFill) fun _ => ?_
  refine .bind (booked_modify fun _ => ⟨rfl, rfl, rfl⟩) fun _ => .get_bind fun _ _ => ?_
  exact .pure _

theorem booked_write (words : Array Word) : Preserves (Booked len) (write words) := by
  refine .get_bind fun _ _ => ?_
  split
  · exact booked_onSlots fun _ => Slots.shaped_overwrite _ words
  · exact .pure _

theorem booked_commit (count : Nat) : Preserves (Booked len) (commit count) := by
  refine .get_bind fun _ _ => ?_
  split
  · exact booked_modify fun _ => ⟨rfl, rfl, rfl⟩
  · refine .bind (booked_modify fun _ => ⟨rfl, rfl, rfl⟩) fun _ => ?_
    refine .bind (booked_onSlots fun _ => Slots.shaped_overwrite _ _) fun _ => ?_
    refine .bind (booked_onSlots fun _ => Slots.shaped_finishFill _) fun _ => ?_
    refine .bind (.modify fun _ hd => hd.committed _) fun _ => .get_bind fun d _ => ?_
    -- Playback may begin with the frame, or another slot may be waiting to be played.
    split
    · split
      · refine .bind (booked_startSlot _) fun _ => ?_
        exact booked_modify fun _ => ⟨rfl, rfl, rfl⟩
      · exact .pure _
    · split
      · exact booked_modify fun _ => ⟨rfl, rfl, rfl⟩
      · exact .pure _

theorem booked_new {engine : Engine} {channel pole : Nat} {d : Double}
    (h : new engine channel len pole = .ok d) : Booked len d := by
  rw [new] at h
  obtain ⟨claimed, -, h⟩ := Run.bind_eq_ok h
  cases h
  exact .start

end Double

namespace Chained

variable {α : Type} {len : Nat}

/-- Books that are in order. -/
def Booked (len : Nat) (d : Chained) : Prop :=
  Playback.Booked 2 len d.toDeck d.slots

theorem booked_onDeck {act : Run Deck α} (h : Preserves (Deck.Balanced len) act) :
    Preserves (Booked len) (onDeck act) :=
  Playback.Booked.onDeck (fun _ => ⟨rfl, fun _ => ⟨rfl, rfl⟩⟩) h

theorem booked_onSlots {act : Run Slots α} (h : ∀ pole, Preserves (Slots.Shaped · 2 len pole) act) :
    Preserves (Booked len) (onSlots act) :=
  Playback.Booked.onSlots (fun _ => ⟨rfl, fun _ => ⟨rfl, rfl⟩⟩) h

theorem booked_modify {f : Chained → Chained}
    (h : ∀ d, (f d).slots = d.slots ∧ (f d).stats.commits = d.stats.commits ∧
      (f d).stats.samplesCommitted = d.stats.samplesCommitted) :
    Preserves (Booked len) (modify f : Run Chained PUnit) :=
  Playback.Booked.modify h

theorem booked_markPlaying (slot : Nat) : Preserves (Booked len) (markPlaying slot) := by
  refine .bind (booked_onSlots fun _ => Slots.shaped_beginDrain slot) fun _ => ?_
  refine .optional (booked_modify fun _ => ⟨rfl, rfl, rfl⟩) fun _ => ?_
  exact booked_modify fun _ => ⟨rfl, rfl, rfl⟩

theorem booked_retire (tag : Option Nat) (slot : Nat) :
    Preserves (Booked len) (retire tag slot) := by
  refine .bind (booked_modify fun _ => ⟨rfl, rfl, rfl⟩) fun _ => .get_bind fun _ _ => ?_
  refine .optional (booked_modify fun _ => ⟨rfl, rfl, rfl⟩) fun _ => ?_
  split
  · exact .pure _
  · refine .bind (booked_onSlots fun _ => Slots.shaped_finishDrain _) fun _ => ?_
    refine .bind (booked_modify fun _ => ⟨rfl, rfl, rfl⟩) fun _ => ?_
    exact booked_markPlaying _

theorem booked_service : Preserves (Booked len) service := by
  refine .get_bind fun d _ => .bind (booked_modify fun _ => ⟨rfl, rfl, rfl⟩) fun _ => ?_
  refine .optional (booked_retire _ 0) fun _ => ?_
  split
  · exact booked_retire _ 1
  · exact .pure _

theorem booked_step (limit : Nat) : Preserves (Booked len) (step limit) := by
  refine .get_bind fun d _ => ?_
  refine .bind (booked_onDeck (Deck.balanced_transfer d.slots.memory limit)) fun _ => ?_
  exact .optional booked_service fun _ => .pure _

theorem booked_advance (words : Nat) : Preserves (Booked len) (advance words) :=
  .elapse booked_step words

theorem booked_spin : Preserves (Booked len) spin :=
  .bind (booked_modify fun _ => ⟨rfl, rfl, rfl⟩) fun _ => booked_advance waitWords

theorem booked_acquire : Preserves (Booked len) acquire := by
  refine .bind booked_service fun _ => .get_bind fun d _ => ?_
  refine .bind (.waitWhile booked_spin d.waitBound) fun _ => .get_bind fun d _ => ?_
  refine .bind (booked_onSlots fun _ => Slots.shaped_beginFill d.nextFill) fun _ => ?_
  refine .bind (booked_modify fun _ => ⟨rfl, rfl, rfl⟩) fun _ => .get_bind fun _ _ => ?_
  exact .pure _

theorem booked_write (words : Array Word) : Preserves (Booked len) (write words) := by
  refine .get_bind fun _ _ => ?_
  split
  · exact booked_onSlots fun _ => Slots.shaped_overwrite _ words
  · exact .pure _

theorem booked_commit (count : Nat) : Preserves (Booked len) (commit count) := by
  refine .get_bind fun _ _ => ?_
  split
  · exact booked_modify fun _ => ⟨rfl, rfl, rfl⟩
  · refine .bind (booked_modify fun _ => ⟨rfl, rfl, rfl⟩) fun _ => ?_
    refine .bind (booked_onSlots fun _ => Slots.shaped_overwrite _ _) fun _ => ?_
    refine .bind (booked_onSlots fun _ => Slots.shaped_finishFill _) fun _ => ?_
    refine .bind (.modify fun _ hd => hd.committed _) fun _ => .get_bind fun d _ => ?_
    split
    · refine .bind (booked_markPlaying 0) fun _ => ?_
      exact booked_modify fun _ => ⟨rfl, rfl, rfl⟩
    · exact .pure _

theorem booked_new {engine : Engine} {first second pole : Nat} {d : Chained}
    (h : new engine first second len pole = .ok d) : Booked len d := by
  rw [new] at h
  obtain ⟨claimed, -, h⟩ := Run.bind_eq_ok h
  obtain ⟨both, -, h⟩ := Run.bind_eq_ok h
  cases h
  exact .start

end Chained

namespace Triple

variable {α : Type} {len : Nat}

/-- Books that are in order. -/
def Booked (len : Nat) (d : Triple) : Prop :=
  Playback.Booked 3 len d.toDeck d.slots

theorem booked_onDeck {act : Run Deck α} (h : Preserves (Deck.Balanced len) act) :
    Preserves (Booked len) (onDeck act) :=
  Playback.Booked.onDeck (fun _ => ⟨rfl, fun _ => ⟨rfl, rfl⟩⟩) h

theorem booked_onSlots {act : Run Slots α} (h : ∀ pole, Preserves (Slots.Shaped · 3 len pole) act) :
    Preserves (Booked len) (onSlots act) :=
  Playback.Booked.onSlots (fun _ => ⟨rfl, fun _ => ⟨rfl, rfl⟩⟩) h

theorem booked_modify {f : Triple → Triple}
    (h : ∀ d, (f d).slots = d.slots ∧ (f d).stats.commits = d.stats.commits ∧
      (f d).stats.samplesCommitted = d.stats.samplesCommitted) :
    Preserves (Booked len) (modify f : Run Triple PUnit) :=
  Playback.Booked.modify h

theorem booked_startSlot (slot : Nat) : Preserves (Booked len) (startSlot slot) := by
  refine .bind (booked_onSlots fun _ => Slots.shaped_beginDrain slot) fun _ => ?_
  refine .optional (booked_modify fun _ => ⟨rfl, rfl, rfl⟩) fun _ => ?_
  exact booked_modify fun _ => ⟨rfl, rfl, rfl⟩

theorem booked_service : Preserves (Booked len) service := by
  refine .get_bind fun _ _ => .get_bind fun _ _ => ?_
  split
  · refine .get_bind fun d _ => .bind (booked_onDeck (Deck.balanced_serve d.channel)) fun _ => ?_
    refine .get_bind fun _ _ => .bind (booked_modify fun _ => ⟨rfl, rfl, rfl⟩) fun _ => ?_
    refine .get_bind fun _ _ => .optional (booked_modify fun _ => ⟨rfl, rfl, rfl⟩) fun _ => ?_
    split
    · exact .pure _
    · refine .bind (booked_onSlots fun _ => Slots.shaped_finishDrain _) fun _ => ?_
      exact booked_startSlot _
  · exact .pure _

theorem booked_step (limit : Nat) : Preserves (Booked len) (step limit) := by
  refine .get_bind fun d _ => ?_
  refine .bind (booked_onDeck (Deck.balanced_transfer d.slots.memory limit)) fun _ => ?_
  exact .optional booked_service fun _ => .pure _

theorem booked_advance (words : Nat) : Preserves (Booked len) (advance words) :=
  .elapse booked_step words

theorem booked_acquire : Preserves (Booked len) acquire := by
  refine .bind booked_service fun _ => .get_bind fun _ _ => ?_
  refine .bind (booked_onSlots fun _ => Slots.shaped_beginFill _) fun _ => .get_bind fun _ _ => ?_
  refine .optional (booked_modify fun _ => ⟨rfl, rfl, rfl⟩) fun _ => ?_
  refine .bind (booked_modify fun _ => ⟨rfl, rfl, rfl⟩) fun _ => .get_bind fun _ _ => ?_
  exact .pure _

theorem booked_write (words : Array Word) : Preserves (Booked len) (write words) := by
  refine .get_bind fun _ _ => ?_
  split
  · exact booked_onSlots fun _ => Slots.shaped_overwrite _ words
  · exact .pure _

theorem booked_prime (source target : Nat) : Preserves (Booked len) (prime source target) := by
  refine .bind (booked_onSlots fun _ => Slots.shaped_duplicate source target) fun _ => ?_
  exact booked_modify fun _ => ⟨rfl, rfl, rfl⟩

theorem booked_commit (count : Nat) : Preserves (Booked len) (commit count) := by
  refine .get_bind fun _ _ => ?_
  split
  · exact booked_modify fun _ => ⟨rfl, rfl, rfl⟩
  · refine .bind (booked_modify fun _ => ⟨rfl, rfl, rfl⟩) fun _ => ?_
    refine .bind (booked_onSlots fun _ => Slots.shaped_overwrite _ _) fun _ => ?_
    refine .bind (booked_onSlots fun _ => Slots.shaped_finishFill _) fun _ => ?_
    refine .bind (.modify fun _ hd => hd.committed _) fun _ => .get_bind fun d _ => ?_
    -- The first frame is copied to the other slots before it is played.
    split
    · refine .bind (booked_prime _ _) fun _ => .bind (booked_prime _ _) fun _ => ?_
      exact booked_startSlot _
    · exact .pure _

theorem booked_new {engine : Engine} {channel pole : Nat} {d : Triple}
    (h : new engine channel len pole = .ok d) : Booked len d := by
  rw [new] at h
  obtain ⟨claimed, -, h⟩ := Run.bind_eq_ok h
  cases h
  exact .start

end Triple

/-! ### The ring -/

namespace Ring

variable {α : Type} {len : Nat}

/-- Books that are in order, with a frame of the right length being written. -/
structure Booked (len : Nat) (d : Ring) : Prop where
  staging : d.staging.size = len
  balanced : d.toDeck.Balanced len

theorem booked_onDeck {act : Run Deck α} (h : Preserves (Deck.Balanced len) act) :
    Preserves (Booked len) (onDeck act) :=
  .within fun _ _ _ hd hact => ⟨hd.staging, h _ _ _ hd.balanced hact⟩

theorem Booked.checkStarved {d : Ring} (h : Booked len d) : Booked len d.checkStarved := by
  unfold Ring.checkStarved
  split
  · exact ⟨h.staging, h.balanced⟩
  · exact h

theorem Booked.sync {d : Ring} (h : Booked len d) : Booked len d.sync := by
  unfold Ring.sync
  split
  · apply Booked.checkStarved
    exact ⟨h.staging, h.balanced⟩
  · exact h

theorem booked_step (limit : Nat) : Preserves (Booked len) (step limit) := by
  refine .get_bind fun _ _ => .bind (booked_onDeck (Deck.balanced_transfer _ _)) fun _ => ?_
  exact .bind (.modify fun _ hd => hd.sync) fun _ => .pure _

theorem booked_advance (words : Nat) : Preserves (Booked len) (advance words) :=
  .elapse booked_step words

theorem booked_spin : Preserves (Booked len) spin :=
  .bind (.modify fun _ hd => ⟨hd.staging, hd.balanced⟩) fun _ => booked_advance waitWords

theorem booked_acquire : Preserves (Booked len) acquire :=
  .get_bind fun _ _ => .pure _

theorem booked_write (words : Array Word) : Preserves (Booked len) (write words) := by
  apply Preserves.modify
  intro d hd
  exact ⟨(size_overlay words d.staging).trans hd.staging, hd.balanced⟩

theorem booked_wrapOnce (n pos : Nat) : Preserves (Booked len) (wrapOnce n pos) := by
  refine .get_bind fun d _ => ?_
  show Preserves _ (if 2 * d.size - pos % d.size < n then throw .outOfRange else pure ())
  split
  · exact .throw _
  · exact .pure _

theorem booked_fillGuard (held : Word) : Preserves (Booked len) (fillGuard held) := by
  refine .get_bind fun _ _ => .bind (booked_wrapOnce _ _) fun _ => ?_
  exact .modify fun _ hd => ⟨hd.staging, hd.balanced⟩

theorem booked_makeRoom : Preserves (Booked len) makeRoom := by
  refine .get_bind fun _ _ => ?_
  split
  · refine .bind (.modify fun _ hd => hd.sync) fun _ => ?_
    refine .bind (.modify fun _ hd => ⟨hd.staging, hd.balanced⟩) fun _ => .get_bind fun _ _ => ?_
    exact .waitWhile booked_spin _
  · refine .get_bind fun _ _ => .bind (booked_wrapOnce _ _) fun _ => ?_
    exact .modify fun _ hd => ⟨hd.staging, hd.balanced⟩

theorem booked_commit (count : Nat) : Preserves (Booked len) (commit count) := by
  refine .get_bind fun d hd => ?_
  have hpadded : (padded d.staging count d.held).1.size = len :=
    (size_padded d.staging count d.held).trans hd.staging
  refine .bind (.modify fun _ hd => ⟨hpadded, hd.balanced⟩) fun _ => ?_
  refine .bind booked_makeRoom fun _ => .get_bind fun _ _ => .get_bind fun _ _ => ?_
  refine .bind (booked_wrapOnce _ _) fun _ => ?_
  refine .bind (.modify fun _ hd => ⟨hd.staging, hd.balanced⟩) fun _ => ?_
  refine .bind (booked_fillGuard _) fun _ => ?_
  refine .bind (.modify fun d hd => ⟨hd.staging, ?_⟩) fun _ => .get_bind fun _ _ => ?_
  · -- The frame is counted with the words that were written.
    rw [hd.staging]
    exact hd.balanced.committed _
  · split
    · exact .pure _
    · exact .modify fun _ hd => ⟨hd.staging, hd.balanced⟩

theorem booked_new {engine : Engine} {channel pole : Nat} {config : RingConfig} {d : Ring}
    (h : new engine channel len pole config = .ok d) : Booked len d := by
  rw [new] at h
  obtain ⟨claimed, -, h⟩ := Run.bind_eq_ok h
  cases h
  exact ⟨Array.size_replicate, (Nat.zero_mul len).symm⟩

end Ring

/-! ### Players -/

theorem outcomeIn_inv {σ τ α : Type} {put : σ → τ} {o : EStateM.Result Fault σ α} {a : α} {t : τ}
    (h : outcomeIn put o = .ok a t) : ∃ s, o = .ok a s ∧ put s = t := by
  cases o with
  | ok b s =>
    cases h
    exact ⟨s, rfl, rfl⟩
  | error e s => cases h

namespace Player

variable {α : Type} {len : Nat}

/-- **Books that are in order,** whatever the strategy. -/
def Booked (len : Nat) : Player → Prop
  | .double d => d.Booked len
  | .chained d => d.Booked len
  | .ring d => d.Booked len
  | .triple d => d.Booked len

/-- The words counted are those of the frames counted. -/
theorem Booked.balanced {p : Player} (h : p.Booked len) :
    p.stats.samplesCommitted = p.stats.commits * len := by
  cases p with
  | double d => exact Playback.Booked.balanced h
  | chained d => exact Playback.Booked.balanced h
  | ring d => exact Ring.Booked.balanced h
  | triple d => exact Playback.Booked.balanced h

/-- To collect the notices changes nothing that is counted. -/
theorem Booked.collected {p : Player} (h : p.Booked len) : p.takeNotices.2.Booked len := by
  cases p with
  | double d => exact ⟨h.shaped, h.balanced⟩
  | chained d => exact ⟨h.shaped, h.balanced⟩
  | ring d => exact ⟨h.staging, h.balanced⟩
  | triple d => exact ⟨h.shaped, h.balanced⟩

section

variable {onDouble : Run Double α} {onChained : Run Chained α} {onRing : Run Ring α}
  {onTriple : Run Triple α}

/-- **What the computation of each strategy comes to,** the player's comes to. -/
theorem cases_inv {Q : Player → α → Player → Prop}
    (hdouble : ∀ d a d', onDouble d = .ok a d' → Q (.double d) a (.double d'))
    (hchained : ∀ d a d', onChained d = .ok a d' → Q (.chained d) a (.chained d'))
    (hring : ∀ d a d', onRing d = .ok a d' → Q (.ring d) a (.ring d'))
    (htriple : ∀ d a d', onTriple d = .ok a d' → Q (.triple d) a (.triple d'))
    {p p' : Player} {a : α} (h : cases onDouble onChained onRing onTriple p = .ok a p') :
    Q p a p' := by
  cases p with
  | double d =>
    rw [cases_double_eq] at h
    obtain ⟨d', hrun, rfl⟩ := outcomeIn_inv h
    exact hdouble d a d' hrun
  | chained d =>
    rw [cases_chained_eq] at h
    obtain ⟨d', hrun, rfl⟩ := outcomeIn_inv h
    exact hchained d a d' hrun
  | ring d =>
    rw [cases_ring_eq] at h
    obtain ⟨d', hrun, rfl⟩ := outcomeIn_inv h
    exact hring d a d' hrun
  | triple d =>
    rw [cases_triple_eq] at h
    obtain ⟨d', hrun, rfl⟩ := outcomeIn_inv h
    exact htriple d a d' hrun

/-- What the computation of each strategy keeps. -/
theorem preserves_cases {P : Player → Prop} (hdouble : Preserves (fun d => P (.double d)) onDouble)
    (hchained : Preserves (fun d => P (.chained d)) onChained)
    (hring : Preserves (fun d => P (.ring d)) onRing)
    (htriple : Preserves (fun d => P (.triple d)) onTriple) :
    Preserves P (cases onDouble onChained onRing onTriple) := by
  intro p a p' hp h
  refine cases_inv (Q := fun p _ p' => P p → P p') ?_ ?_ ?_ ?_ h hp
  · exact fun d a d' hrun hd => hdouble d a d' hd hrun
  · exact fun d a d' hrun hd => hchained d a d' hd hrun
  · exact fun d a d' hrun hd => hring d a d' hd hrun
  · exact fun d a d' hrun hd => htriple d a d' hd hrun

theorem booked_cases (hdouble : Preserves (Double.Booked len) onDouble)
    (hchained : Preserves (Chained.Booked len) onChained)
    (hring : Preserves (Ring.Booked len) onRing)
    (htriple : Preserves (Triple.Booked len) onTriple) :
    Preserves (Booked len) (cases onDouble onChained onRing onTriple) :=
  preserves_cases hdouble hchained hring htriple

end

theorem booked_acquire : Preserves (Booked len) acquire :=
  booked_cases Double.booked_acquire Chained.booked_acquire Ring.booked_acquire
    Triple.booked_acquire

theorem booked_write (words : Array Word) : Preserves (Booked len) (write words) :=
  booked_cases (Double.booked_write words) (Chained.booked_write words) (Ring.booked_write words)
    (Triple.booked_write words)

theorem booked_commit (count : Nat) : Preserves (Booked len) (commit count) :=
  booked_cases (Double.booked_commit count) (Chained.booked_commit count)
    (Ring.booked_commit count) (Triple.booked_commit count)

theorem booked_advance (words : Nat) : Preserves (Booked len) (advance words) :=
  booked_cases (Double.booked_advance words) (Chained.booked_advance words)
    (Ring.booked_advance words) (Triple.booked_advance words)

theorem booked_service : Preserves (Booked len) service :=
  booked_cases Double.booked_service Chained.booked_service (.modify fun _ hd => hd.sync)
    Triple.booked_service

/-- A new player plays by its strategy. -/
theorem strategy_new {strategy : Strategy} {engine : Engine} {channels : Nat × Nat} {pole : Nat}
    {config : RingConfig} {p : Player}
    (h : new strategy engine channels len pole config = .ok p) : p.strategy = strategy := by
  cases strategy <;>
  · obtain ⟨_, -, rfl⟩ := Run.map_inv h
    rfl

/-- **The books of a new player are in order.** -/
theorem booked_new {strategy : Strategy} {engine : Engine} {channels : Nat × Nat} {pole : Nat}
    {config : RingConfig} {p : Player}
    (h : new strategy engine channels len pole config = .ok p) : p.Booked len := by
  cases strategy with
  | double =>
    obtain ⟨d, hd, rfl⟩ := Run.map_inv h
    exact Double.booked_new hd
  | chained =>
    obtain ⟨d, hd, rfl⟩ := Run.map_inv h
    exact Chained.booked_new hd
  | ring =>
    obtain ⟨d, hd, rfl⟩ := Run.map_inv h
    exact Ring.booked_new hd
  | triple =>
    obtain ⟨d, hd, rfl⟩ := Run.map_inv h
    exact Triple.booked_new hd

end Player

end ConsolePipeline.Playback
