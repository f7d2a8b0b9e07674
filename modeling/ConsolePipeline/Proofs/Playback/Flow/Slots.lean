import ConsolePipeline.Proofs.Playback.Flow.Transfers
import ConsolePipeline.Proofs.Playback.Interrupted.Player

namespace ConsolePipeline.Playback

open Run Stereo

/-!
# Time flows evenly: strategies that play from slots

Their handlers take no time and look at nothing but the slot that has just been completed. So a step
of theirs comes to its words, one at a time.

* `Deck.Settled.of_slot` — the engine is on its way through a slot.
* `Double.transfers`, `Chained.transfers`, `Triple.transfers` — a step is a transfer, and the
  handler if that completed a slot.
* `Double.Sound.step`, `Chained.Sound.step`, `Triple.Standing.step` — a step succeeds in every state
  in which no slot is held; `settled` — and the engine is where a transfer may be cut; `flows` — so
  that time flows evenly.
-/

variable {len pole limit : Nat} {history : List Commit}

/-- The engine is on its way through a slot. -/
theorem Deck.Settled.of_slot {d : Deck} {s : Slots} {ch : ChannelId} {count slot w : Nat}
    (hrun : d.engine.running? = some ch) (hreads : (d.engine.channel ch).Reads slot w len)
    (hshaped : s.Shaped count len pole) (hslot : slot < count) (hcount : count ≤ 4096)
    (hlen : len ≤ regionWords) (hw : w < len) : d.Settled s.memory :=
  .reads hrun hreads (Nat.lt_of_lt_of_le hslot hcount) (Slots.memory_eq_some_words hshaped hslot)
    (hshaped.words_size slot hslot) hlen hw

/-! ### Double buffering -/

namespace Double

variable {d : Double} {k : Array Word × Nat × Nat}

/-- What has been played and counted as time. -/
def Clock (k : Array Word × Nat × Nat) (d : Double) : Prop :=
  d.toDeck.clock = k

theorem clock_startSlot (slot : Nat) : Preserves (Clock k) (startSlot slot) := by
  refine .bind (.within fun _ _ _ hs _ => hs) fun _ => ?_
  exact .optional (.modify fun _ hd => hd) fun _ => .modify fun _ hd => hd

theorem clock_service : Preserves (Clock k) service := by
  refine .get_bind fun _ _ => .get_bind fun _ _ => ?_
  split
  · refine .get_bind fun _ _ => .bind (.within ?_) fun _ => ?_
    · rintro d _ _ hd h
      cases h
      exact hd
    refine .get_bind fun _ _ => .bind (.modify fun _ hd => hd) fun _ => ?_
    refine .get_bind fun _ _ => .optional (.modify fun _ hd => hd) fun _ => ?_
    split
    · exact .pure _
    · refine .bind (.within fun _ _ _ hs _ => hs) fun _ => .get_bind fun _ _ => ?_
      exact .bind (.modify fun _ hd => hd) fun _ => clock_startSlot _
  · exact .pure _

theorem transfers : Transfers Double.toDeck (fun t d => { d with toDeck := t })
    (fun d => d.slots.memory) service step where
  step_eq limit d := by
    rw [step, Run.get_bind]
    cases htransfer : Deck.transfer d.slots.memory limit d.toDeck with
    | ok st t => rw [Run.bind_ok (onDeck_ok htransfer)]
    | error e t => exact Run.bind_error (Run.within_error htransfer)
  deck_put _ _ := rfl
  memory_put _ _ := rfl
  put_put _ _ _ := rfl
  handler_clock _ := clock_service

theorem Sound.settled (hlen : len ≤ regionWords) (h : Sound len pole history false d) :
    d.toDeck.Settled d.slots.memory := by
  rcases h with h | ⟨m, w, p, h⟩
  · exact .idle (h.solo.idle h.stopped)
  · exact .of_slot (h.solo.running? h.reads.busy) h.reads h.shaped h.slot (by decide) hlen
      h.deck.word

/-- **A step succeeds** in every state in which no slot is held. -/
theorem Sound.step (hlen : len ≤ regionWords) (hlimit : 0 < limit)
    (h : Sound len pole history false d) :
    ∃ n d', Double.step limit d = .ok n d' ∧ 0 < n ∧ n ≤ limit ∧
      Sound len pole history false d' := by
  rcases h with h | ⟨m, w, p, h⟩
  · exact ⟨limit, _, step_idle (h.solo.idle h.stopped) limit, hlimit, Nat.le_refl _,
      .inl (h.alike (Deck.alike_idled _ _))⟩
  · obtain ⟨n, d', m', w', hd', hn, hle, ⟨⟨p', hlive⟩, -⟩, -⟩ :=
      (blockByBlock hlen d).step_ok ⟨⟨p, h⟩, rfl, rfl, rfl⟩ hlimit
    exact ⟨n, d', hd', hn, hle, .inr ⟨m', w', p', hlive⟩⟩

theorem Sound.flows (hlen : len ≤ regionWords) (h : Sound len pole history false d) :
    Flows Double.advance toDeck id d :=
  transfers.flows (fun _ => settled hlen) (fun _ _ => Sound.step hlen) h

end Double

/-! ### Chained ping-pong -/

namespace Chained

variable {d : Chained} {k : Array Word × Nat × Nat}

/-- What has been played and counted as time. -/
def Clock (k : Array Word × Nat × Nat) (d : Chained) : Prop :=
  d.toDeck.clock = k

theorem clock_markPlaying (slot : Nat) : Preserves (Clock k) (markPlaying slot) := by
  refine .bind (.within fun _ _ _ hs _ => hs) fun _ => ?_
  exact .optional (.modify fun _ hd => hd) fun _ => .modify fun _ hd => hd

theorem clock_retire (tag : Option Nat) (slot : Nat) : Preserves (Clock k) (retire tag slot) := by
  refine .bind (.modify fun _ hd => hd) fun _ => .get_bind fun _ _ => ?_
  refine .optional (.modify fun _ hd => hd) fun _ => ?_
  split
  · exact .pure _
  · refine .bind (.within fun _ _ _ hs _ => hs) fun _ => .bind (.modify fun _ hd => hd) fun _ => ?_
    exact clock_markPlaying _

theorem clock_service : Preserves (Clock k) service := by
  refine .get_bind fun _ _ => .bind (.modify fun _ hd => hd) fun _ => ?_
  refine .optional (clock_retire _ 0) fun _ => ?_
  split
  · exact clock_retire _ 1
  · exact .pure _

theorem transfers : Transfers Chained.toDeck (fun t d => { d with toDeck := t })
    (fun d => d.slots.memory) service step where
  step_eq limit d := by
    rw [step, Run.get_bind]
    cases htransfer : Deck.transfer d.slots.memory limit d.toDeck with
    | ok st t => rw [Run.bind_ok (onDeck_ok htransfer)]
    | error e t => exact Run.bind_error (Run.within_error htransfer)
  deck_put _ _ := rfl
  memory_put _ _ := rfl
  put_put _ _ _ := rfl
  handler_clock _ := clock_service

theorem Sound.settled (hlen : len ≤ regionWords) (h : Sound len pole history false d) :
    d.toDeck.Settled d.slots.memory := by
  rcases h with h | ⟨-, m, w, h⟩
  · exact .idle h.idle
  · have hlive : Live len pole history d m w := h
    exact .of_slot hlive.running? hlive.reads hlive.shaped (Nat.mod_lt m Nat.zero_lt_two)
      (by decide) hlen hlive.deck.word

/-- **A step succeeds** in every state in which no slot is held. -/
theorem Sound.step (hlen : len ≤ regionWords) (hlimit : 0 < limit)
    (h : Sound len pole history false d) :
    ∃ n d', Chained.step limit d = .ok n d' ∧ 0 < n ∧ n ≤ limit ∧
      Sound len pole history false d' := by
  rcases h with h | ⟨hopened, m, w, h⟩
  · exact ⟨limit, _, step_idle h.idle limit, hlimit, Nat.le_refl _,
      .inl (h.alike (Deck.alike_idled _ _))⟩
  · obtain ⟨n, d', m', w', hd', hn, hle, ⟨hlive, -⟩, -⟩ :=
      (blockByBlock hlen d).step_ok ⟨h, rfl, rfl, rfl⟩ hlimit
    exact ⟨n, d', hd', hn, hle, .inr ⟨hopened, m', w', hlive⟩⟩

theorem Sound.flows (hlen : len ≤ regionWords) (h : Sound len pole history false d) :
    Flows Chained.advance toDeck id d :=
  transfers.flows (fun _ => settled hlen) (fun _ _ => Sound.step hlen) h

end Chained

/-! ### Triple buffering -/

namespace Triple

variable {d : Triple} {k : Array Word × Nat × Nat}

/-- What has been played and counted as time. -/
def Clock (k : Array Word × Nat × Nat) (d : Triple) : Prop :=
  d.toDeck.clock = k

theorem clock_startSlot (slot : Nat) : Preserves (Clock k) (startSlot slot) := by
  refine .bind (.within fun _ _ _ hs _ => hs) fun _ => ?_
  exact .optional (.modify fun _ hd => hd) fun _ => .modify fun _ hd => hd

theorem clock_service : Preserves (Clock k) service := by
  refine .get_bind fun _ _ => .get_bind fun _ _ => ?_
  split
  · refine .get_bind fun _ _ => .bind (.within ?_) fun _ => ?_
    · rintro d _ _ hd h
      cases h
      exact hd
    refine .get_bind fun _ _ => .bind (.modify fun _ hd => hd) fun _ => ?_
    refine .get_bind fun _ _ => .optional (.modify fun _ hd => hd) fun _ => ?_
    split
    · exact .pure _
    · exact .bind (.within fun _ _ _ hs _ => hs) fun _ => clock_startSlot _
  · exact .pure _

theorem transfers : Transfers Triple.toDeck (fun t d => { d with toDeck := t })
    (fun d => d.slots.memory) service step where
  step_eq limit d := by
    rw [step, Run.get_bind]
    cases htransfer : Deck.transfer d.slots.memory limit d.toDeck with
    | ok st t => rw [Run.bind_ok (onDeck_ok htransfer)]
    | error e t => exact Run.bind_error (Run.within_error htransfer)
  deck_put _ _ := rfl
  memory_put _ _ := rfl
  put_put _ _ _ := rfl
  handler_clock _ := clock_service

theorem Standing.settled (hlen : len ≤ regionWords) (h : Standing len pole history false d) :
    d.toDeck.Settled d.slots.memory := by
  rcases h with ⟨-, h⟩ | ⟨dated, -, m, w, h⟩
  · exact .idle (h.solo.idle h.stopped)
  · have hlive : Live len pole dated d m w := h
    exact .of_slot (hlive.solo.running? hlive.reads.busy) hlive.reads hlive.shaped
      (Nat.mod_lt m (by decide)) (by decide) hlen hlive.deck.word

/-- **A step succeeds** in every state in which no slot is held. -/
theorem Standing.step (hlen : len ≤ regionWords) (hlimit : 0 < limit)
    (h : Standing len pole history false d) :
    ∃ n d', Triple.step limit d = .ok n d' ∧ 0 < n ∧ n ≤ limit ∧
      Standing len pole history false d' := by
  rcases h with ⟨hnil, h⟩ | ⟨dated, hdated, m, w, h⟩
  · exact ⟨limit, _, step_idle (h.solo.idle h.stopped) limit, hlimit, Nat.le_refl _,
      .inl ⟨hnil, h.alike (Deck.alike_idled _ _) rfl⟩⟩
  · have hlive : Live len pole dated d m w := h
    obtain ⟨n, d', m', w', hd', hn, hle, hlive', -⟩ := (blockByBlock hlen).step_ok hlive hlimit
    exact ⟨n, d', hd', hn, hle, .inr ⟨dated, hdated, m', w', hlive'⟩⟩

theorem Standing.flows (hlen : len ≤ regionWords) (h : Standing len pole history false d) :
    Flows advance toDeck id d :=
  transfers.flows (fun _ => settled hlen) (fun _ _ => Standing.step hlen) h

end Triple

end ConsolePipeline.Playback
