import ConsolePipeline.Proofs.Playback.Triple.States

namespace ConsolePipeline.Playback

open Stereo

/-!
# Triple buffering: time

* `Triple.Reading.step_within`, `Reading.step_last_eq` — one transfer, with the handler if it ends
  a block; `Live.step_last` — the next one in turn begins.
* `Triple.Live.advance` — in playback each word of time is a word played.
* `Triple.Preroll.advance` — before playback time passes without a word.
-/

namespace Triple

variable {d : Triple} {len pole n limit m w : Nat} {history : List Commit} {holding : Bool}

theorem step_ok {t : Deck}
    (h : Deck.transfer d.slots.memory limit d.toDeck = .ok ⟨n, false, none⟩ t) :
    step limit d = .ok n { d with toDeck := t } := by
  simp only [step, Run.get_bind]
  rw [Run.bind_ok (onDeck_ok h)]
  rfl

/-- A transfer that completes a block is followed by the handler. -/
theorem step_completed {t : Deck} {ch : ChannelId}
    (h : Deck.transfer d.slots.memory limit d.toDeck = .ok ⟨n, false, some ch⟩ t) :
    step limit d = (service >>= fun _ => pure n) { d with toDeck := t } := by
  simp only [step, Run.get_bind]
  rw [Run.bind_ok (onDeck_ok h)]
  simp only [Option.isSome_some, if_true]

/-- The state once words have been played. -/
def heard (d : Triple) (out : Array Word) (engine : Engine) : Triple :=
  { d with toDeck := d.toDeck.heard out engine }

/-- The state once the last words of a block have been played and its slot has been given back. -/
def turned (d : Triple) (m w len : Nat) : Triple :=
  (d.heard ((d.slots.words (m % 3)).extract w (w + (len - w)))
    ((d.engine.moved d.channel (len - w)).finished d.channel)).retired (m % 3)

/-- A slot given back leaves what the others hold. -/
theorem Holds.turned {slot : Nat} {b : Block} (h : d.Holds slot b) (hne : m % 3 ≠ slot) :
    (d.turned m w len).Holds slot b :=
  h.congr (Slots.state?_setState_ne _ _ hne) (Slots.words_setWords_ne _ _ hne) rfl

/-- **A block ends:** its slot is given back. -/
theorem Reading.poised (h : Reading len pole history d m w) :
    Poised len pole history (d.turned m w len) (m + 1) := by
  have hslot : m % 3 < 3 := Nat.mod_lt m (by decide)
  have hsize : (d.slots.words (m % 3)).size = len := h.shaped.words_size _ hslot
  have hfade : (afterglow d.slots.pole (d.slots.words (m % 3))).size = len := by
    rw [size_afterglow, hsize]
  have hsolo := h.solo.moved (len - w)
  have hreads : ((d.engine.moved d.channel (len - w)).channel d.channel).Reads (m % 3)
      (w + (len - w)) len := Engine.reads_moved h.reads
  refine ⟨⟨(h.shaped.setWords hfade _).setState _ .free, hsolo.served, ?_, h.frames, h.commits,
    h.waitSpins, h.tagMismatches⟩, h.nonempty, ?_, ?_, congrArg (· + 1) h.irqs, h.underruns⟩
  · exact (Engine.ring_served_finished _ d.channel).trans hreads.ring
  · exact fun c hc => Nat.lt_of_lt_of_le (h.entries c hc)
      (Nat.mul_le_mul_right len (Nat.le_succ (m + 1)))
  · exact (h.deck.heard_rest h.words hsize d.engine).same rfl rfl

/-- As nothing has been committed in the block that begins, the slot that is given back holds the
    decay that is due if nothing will be. -/
theorem Reading.faded (h : Reading len pole history d m w) :
    (d.turned m w len).Holds (m % 3) (block len pole history (m + 1 + 2)) := by
  have hslot : m % 3 < 3 := Nat.mod_lt m (by decide)
  have hfade : (afterglow d.slots.pole (d.slots.words (m % 3))).size = len := by
    rw [size_afterglow, h.shaped.words_size _ hslot]
  rw [block_eq_fade (during_eq_nil h.entries)]
  refine ⟨Slots.state?_setState_self (h.shaped.setWords hfade _) hslot .free, ?_, h.unprimed⟩
  refine (Slots.words_setWords_self h.shaped hslot _).trans ?_
  show afterglow d.slots.pole (d.slots.words (m % 3)) = _
  rw [h.shaped.pole, h.words]
  rfl

theorem Live.between (h : Live len pole history d m w) :
    Between len pole history (d.turned m w len) (m + 1) := by
  have hpoised := h.toRunning.reading.poised
  refine ⟨hpoised.toSteady, hpoised.nonempty, hpoised.entries, hpoised.deck, hpoised.irqs,
    hpoised.underruns, h.filling, h.next.turned (by omega), h.later.turned (by omega), ?_, ?_⟩
  · rw [show (m + 1 + 2) % 3 = m % 3 by omega]
    exact h.toRunning.reading.faded
  · rw [lost_succ, during_eq_nil h.entries]
    exact h.overruns

section Live

variable (hlen : len ≤ regionWords)

include hlen

/-- A transfer that stays inside the block only moves on within it. -/
theorem Reading.step_within (h : Reading len pole history d m w) (hlimit : 0 < limit)
    (hlt : limit < len - w) :
    step limit d = .ok limit (d.heard ((d.slots.words (m % 3)).extract w (w + limit))
        (d.engine.moved d.channel limit)) ∧
      Reading len pole history (d.heard ((d.slots.words (m % 3)).extract w (w + limit))
        (d.engine.moved d.channel limit)) m (w + limit) := by
  have hslot : m % 3 < 3 := Nat.mod_lt m (by decide)
  have htransfer := Deck.transfer_within h.reads h.shaped hslot (by decide) hlen
    (h.solo.running? h.reads.busy) hlimit hlt
  refine ⟨step_ok htransfer, ?_⟩
  exact
    { shaped := h.shaped
      solo := h.solo.moved limit
      ring := (Engine.reads_moved h.reads).ring
      frames := h.frames
      commits := h.commits
      waitSpins := h.waitSpins
      tagMismatches := h.tagMismatches
      nonempty := h.nonempty
      entries := h.entries
      playing := h.playing
      reads := Engine.reads_moved h.reads
      draining := h.draining
      words := h.words
      unprimed := h.unprimed
      deck := h.deck.heard h.words (h.shaped.words_size _ hslot) (by omega) (by omega) rfl _
      irqs := h.irqs
      underruns := h.underruns }

/-- What the end of a block comes to: the next slot in turn is started. -/
theorem Reading.step_last_eq (h : Reading len pole history d m w) (hle : len - w ≤ limit) :
    step limit d =
      (startSlot ((m + 1) % 3) >>= fun _ => pure (len - w)) (d.turned m w len) := by
  have hslot : m % 3 < 3 := Nat.mod_lt m (by decide)
  have hsolo := h.solo.moved (len - w)
  have htransfer := Deck.transfer_last h.reads h.shaped hslot (by decide) hlen
    (h.solo.running? h.reads.busy) hsolo.complete h.deck.word hle
  have hreads : ((d.engine.moved d.channel (len - w)).channel d.channel).Reads (m % 3)
      (w + (len - w)) len := Engine.reads_moved h.reads
  refine (step_completed htransfer).trans (Run.bind_congr ?_ _)
  rw [show (m + 1) % 3 = (m % 3 + 1) % 3 by omega]
  exact service_finished rfl hsolo hreads.tag hslot h.playing h.shaped h.draining

/-- **A transfer that stays inside the block.** -/
theorem Live.step_within (h : Live len pole history d m w) (hlimit : 0 < limit)
    (hlt : limit < len - w) :
    ∃ d', step limit d = .ok limit d' ∧ Live len pole history d' m (w + limit) := by
  obtain ⟨hstep, hreading⟩ := h.toRunning.reading.step_within hlen hlimit hlt
  exact ⟨_, hstep, hreading.running (h.next.congr rfl rfl rfl), h.filling,
    h.later.congr rfl rfl rfl, h.overruns⟩

/-- **A transfer that ends the block.** -/
theorem Live.step_last (h : Live len pole history d m w) (hle : len - w ≤ limit) :
    ∃ d', step limit d = .ok (len - w) d' ∧ Live len pole history d' (m + 1) 0 := by
  have hword := h.deck.word
  obtain ⟨d', hd', hlive⟩ := h.between.start (by omega)
  refine ⟨d', ?_, hlive⟩
  rw [h.toRunning.reading.step_last_eq hlen hle, Run.bind_ok hd']
  rfl

/-- Playback goes on block by block. -/
theorem blockByBlock : BlockByBlock step toDeck len (block len pole history)
    (Live len pole history) where
  playing h := h.deck
  within h hlimit hlt := h.step_within hlen hlimit hlt
  last h hle := h.step_last hlen hle

/-- **Hardware time in playback:** each word of time is a word played. -/
theorem Live.advance (h : Live len pole history d m w) (n : Nat) :
    ∃ d' m' w', advance n d = .ok () d' ∧ Live len pole history d' m' w' ∧
      d'.played.size = d.played.size + n :=
  (blockByBlock hlen).elapse_ok h n

end Live

/-- A transfer while no channel runs. -/
theorem step_idle (h : ∀ c : ChannelId, (d.engine.channel c).busy = false) (limit : Nat) :
    step limit d = .ok limit { d with toDeck := d.toDeck.idled limit } := by
  simp only [step, Run.get_bind]
  rw [Run.bind_ok (onDeck_ok (Deck.transfer_idle h d.slots.memory limit))]
  rfl

/-- **Hardware time before the first commit** passes without a word. -/
theorem Preroll.advance (h : Preroll len pole holding d) (n : Nat) :
    ∃ d', advance n d = .ok () d' ∧ Preroll len pole holding d' := by
  refine Run.elapse_once (fun _ => h) fun _ => ?_
  exact ⟨_, step_idle (h.solo.idle h.stopped) n, h.alike (Deck.alike_idled _ _) rfl⟩

end Triple

end ConsolePipeline.Playback
