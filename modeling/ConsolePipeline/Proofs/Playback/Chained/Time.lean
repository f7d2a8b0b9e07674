import ConsolePipeline.Proofs.Playback.Chained.States

namespace ConsolePipeline.Playback

open Stereo

/-!
# Chained ping-pong: time

* `Chained.Running.step_within`, `Running.step_last_eq` — one transfer, with the handler if it ends
  a block; `Live.step_last` — the hardware finds a frame or a decay in the other slot.
* `Chained.Live.advance` — in playback each word of time is a word played.
* `Chained.Preroll.advance` — before playback time passes without a word.
-/

namespace Chained

variable {d : Chained} {len pole n limit m w : Nat} {history : List Commit} {holding : Bool}

/-- Time changes nothing that software is at. -/
structure Untouched (d d' : Chained) : Prop where
  nextFill : d'.nextFill = d.nextFill
  waitSpins : d'.stats.waitSpins = d.stats.waitSpins
  idleWords : d'.stats.idleWords = d.stats.idleWords

theorem Untouched.trans {d₁ d₂ d₃ : Chained} (h : Untouched d₁ d₂) (h' : Untouched d₂ d₃) :
    Untouched d₁ d₃ :=
  ⟨h'.nextFill.trans h.nextFill, h'.waitSpins.trans h.waitSpins, h'.idleWords.trans h.idleWords⟩

theorem step_ok {t : Deck}
    (h : Deck.transfer d.slots.memory limit d.toDeck = .ok ⟨n, false, none⟩ t) :
    step limit d = .ok n { d with toDeck := t } := by
  simp only [step, Run.get_bind]
  rw [Run.bind_ok (onDeck_ok h)]
  rfl

/-- A transfer that completes a block is followed by the handler. -/
theorem step_completed {t : Deck} {ch : ChannelId}
    (h : Deck.transfer d.slots.memory limit d.toDeck = .ok ⟨n, false, some ch⟩ t) :
    step limit d = (service >>= fun _ => pure n) { d with toDeck := t } := by
  simp only [step, Run.get_bind]
  rw [Run.bind_ok (onDeck_ok h)]
  simp only [Option.isSome_some, if_true]

/-! ### The end of a block -/

/-- The state once words have been played. -/
def heard (d : Chained) (out : Array Word) (engine : Engine) : Chained :=
  { d with toDeck := d.toDeck.heard out engine }

/-- The state once the last words of a block have been played and its completion served. -/
def turned (d : Chained) (m : Nat) (out : Array Word) (e : Engine) : Chained :=
  (d.heard out (e.relayed (d.channelOf (m % 2)) (d.channelOf ((m + 1) % 2)))).retired (m % 2)

theorem engine_turned (hshaped : d.slots.Shaped 2 len pole) (out : Array Word) (e : Engine) :
    (d.turned m out e).engine =
      (e.relayed (d.channelOf (m % 2)) (d.channelOf ((m + 1) % 2))).rearmed (d.channelOf (m % 2))
        (m % 2) len :=
  engine_retired (d := d.heard out _) hshaped (Nat.mod_lt m Nat.zero_lt_two)

section Turned

variable (h : Running len pole history d m w) {e : Engine} {out : Array Word}
  (hlinked : e.Linked (d.channelOf (m % 2)) (d.channelOf ((m + 1) % 2)))

include h

theorem Running.shaped_turned : (d.turned m out e).slots.Shaped 2 len pole := by
  have hwords : (afterglow d.slots.pole (d.slots.words (m % 2))).size = len := by
    rw [size_afterglow, h.shaped.words_size _ (by omega)]
  exact (h.shaped.setWords hwords (m % 2)).setState (m % 2) .free

/-- The slot that has been played holds a decay, and nobody owns it. -/
theorem Running.free_turned : (d.turned m out e).slots.state? (m % 2) = some .free := by
  have hwords : (afterglow d.slots.pole (d.slots.words (m % 2))).size = len := by
    rw [size_afterglow, h.shaped.words_size _ (by omega)]
  exact Slots.state?_setState_self (h.shaped.setWords hwords (m % 2)) (Nat.mod_lt m Nat.zero_lt_two)
    .free

theorem Running.words_turned :
    (d.turned m out e).slots.words (m % 2) = afterglow pole (block len pole history m).words := by
  rw [← h.words, ← h.shaped.pole]
  exact Slots.words_setWords_self h.shaped (Nat.mod_lt m Nat.zero_lt_two) _

omit h in
/-- The other slot is left as it was. -/
theorem other_turned (d : Chained) (m : Nat) (out : Array Word) (e : Engine) :
    (d.turned m out e).slots.state? ((m + 1) % 2) = d.slots.state? ((m + 1) % 2) ∧
      (d.turned m out e).slots.words ((m + 1) % 2) = d.slots.words ((m + 1) % 2) := by
  have hne : m % 2 ≠ (m + 1) % 2 := by omega
  exact ⟨Slots.state?_setState_ne _ _ hne, Slots.words_setWords_ne _ _ hne⟩

include hlinked

/-- **The hardware has gone on,** and the channel that has run out is loaded again. -/
theorem Running.steady_turned : Steady len pole history (d.turned m out e) := by
  have hengine := engine_turned (m := m) h.shaped out e
  refine ⟨h.shaped_turned, ?_, h.frames, h.commits, h.overruns, h.tagMismatches⟩
  rw [hengine]
  exact linked_of_at m (hlinked.rearmed (m % 2) len)

theorem Running.reads_turned (hlen : 0 < len)
    (harmed : (e.channel (d.channelOf ((m + 1) % 2))).Armed ((m + 1) % 2) len) :
    ((d.turned m out e).engine.channel (d.channelOf ((m + 1) % 2))).Reads ((m + 1) % 2) 0 len := by
  rw [engine_turned h.shaped out e]
  exact hlinked.reads_rearmed harmed hlen (m % 2)

theorem Running.armed_turned (hring : (e.channel (d.channelOf (m % 2))).ringWords = none) :
    ((d.turned m out e).engine.channel (d.channelOf (m % 2))).Armed (m % 2) len := by
  rw [engine_turned h.shaped out e]
  exact hlinked.armed_rearmed hring (m % 2) len

omit hlinked

/-- **A block ends:** the hardware reads the other slot from its start by the time that the slot
    that was played has been given back. -/
theorem Running.poised :
    Poised len pole history (d.turned m ((d.slots.words (m % 2)).extract w (w + (len - w)))
      (d.engine.moved (d.channelOf (m % 2)) (len - w))) (m + 1) := by
  have hpos : 0 < len := Nat.zero_lt_of_lt h.deck.word
  have hslot : m % 2 < 2 := Nat.mod_lt m Nat.zero_lt_two
  -- The engine when the last word of the block has been read.
  have hlinked := (h.linkedAt m).moved (len - w)
  have harmed : ((d.engine.moved (d.channelOf (m % 2)) (len - w)).channel
      (d.channelOf ((m + 1) % 2))).Armed ((m + 1) % 2) len := by
    rw [(h.linkedAt m).channel_moved]
    exact h.armed
  have hreads : ((d.engine.moved (d.channelOf (m % 2)) (len - w)).channel
      (d.channelOf (m % 2))).Reads (m % 2) (w + (len - w)) len := Engine.reads_moved h.reads
  refine ⟨h.steady_turned hlinked, h.many, h.reads_turned hlinked hpos harmed, ?_, ?_,
    congrArg (· + 1) h.irqs, h.underruns⟩
  · rw [show (m + 1 + 1) % 2 = m % 2 by omega]
    exact h.armed_turned hlinked hreads.ring
  · exact (h.deck.heard_rest h.words (h.shaped.words_size _ hslot) d.engine).same rfl rfl

end Turned

/-! ### One transfer -/

theorem slots_late (d : Chained) (slot : Nat) (underrun : Bool) :
    (d.late slot underrun).slots = d.slots := by
  cases underrun <;> rfl

theorem Steady.late (h : Steady len pole history d) (slot : Nat) (underrun : Bool) :
    Steady len pole history (d.late slot underrun) := by
  cases underrun with
  | false => exact h
  | true => exact ⟨h.shaped, h.linked, h.frames, h.commits, h.overruns, h.tagMismatches⟩

/-- **The next block begins,** with a frame or with a decay. -/
theorem Poised.start (h : Poised len pole history d m)
    (hholds : d.Holds (m % 2) (block len pole history m)) :
    Running len pole history
      ((d.late (m % 2) (block len pole history m).isFade).onto (m % 2)) m 0 := by
  have hslot : m % 2 < 2 := Nat.mod_lt m Nat.zero_lt_two
  -- Whether the block is a decay only matters for the underruns.
  generalize hfade : (block len pole history m).isFade = fade
  have hlate := h.toSteady.late (m % 2) fade
  exact
    { shaped := hlate.shaped.setState _ _
      linked := hlate.linked
      frames := hlate.frames
      commits := hlate.commits
      overruns := hlate.overruns
      tagMismatches := hlate.tagMismatches
      many := h.many
      playing := rfl
      reads := by
        cases fade <;> exact h.reads
      armed := by
        cases fade <;> exact h.armed
      draining := Slots.state?_setState_self hlate.shaped hslot .draining
      words := by
        rw [← hholds.words, ← slots_late d (m % 2) fade]
        rfl
      deck := by
        cases fade <;> exact h.deck.same rfl rfl
      irqs := by
        cases fade <;> exact h.irqs
      underruns := by
        rw [fadeCount_succ, hfade, ← h.underruns]
        cases fade <;> rfl }

section Live

variable (hlen : len ≤ regionWords)

include hlen

/-- A transfer that stays inside the block only moves on within it. -/
theorem Running.step_within (h : Running len pole history d m w) (hlimit : 0 < limit)
    (hlt : limit < len - w) :
    step limit d = .ok limit (d.heard ((d.slots.words (m % 2)).extract w (w + limit))
        (d.engine.moved (d.channelOf (m % 2)) limit)) ∧
      Running len pole history (d.heard ((d.slots.words (m % 2)).extract w (w + limit))
        (d.engine.moved (d.channelOf (m % 2)) limit)) m (w + limit) := by
  have hslot : m % 2 < 2 := Nat.mod_lt m Nat.zero_lt_two
  have hlinked := h.linkedAt m
  have htransfer := Deck.transfer_within h.reads h.shaped hslot (by decide) hlen h.running? hlimit
    hlt
  refine ⟨step_ok htransfer, ?_⟩
  exact
    { shaped := h.shaped
      linked := linked_of_at m (hlinked.moved limit)
      frames := h.frames
      commits := h.commits
      overruns := h.overruns
      tagMismatches := h.tagMismatches
      many := h.many
      playing := h.playing
      reads := Engine.reads_moved h.reads
      armed := by
        show ((d.engine.moved (d.channelOf (m % 2)) limit).channel
          (d.channelOf ((m + 1) % 2))).Armed _ _
        rw [hlinked.channel_moved]
        exact h.armed
      draining := h.draining
      words := h.words
      deck := h.deck.heard h.words (h.shaped.words_size _ hslot) (by omega) (by omega) rfl _
      irqs := h.irqs
      underruns := h.underruns }

/-- **A transfer that stays inside the block.** -/
theorem Live.step_within (h : Live len pole history d m w) (hlimit : 0 < limit)
    (hlt : limit < len - w) :
    ∃ d', step limit d = .ok limit d' ∧ Live len pole history d' m (w + limit) ∧
      Untouched d d' := by
  obtain ⟨hstep, hrunning⟩ := h.toRunning.step_within hlen hlimit hlt
  exact ⟨_, hstep, ⟨hrunning, h.filling, ⟨h.next.state, h.next.words⟩, h.queue⟩, rfl, rfl, rfl⟩

/-- What the end of a block comes to: the hardware has gone on to the other slot. -/
theorem Running.step_last_eq (h : Running len pole history d m w) (hle : len - w ≤ limit) :
    step limit d = (markPlaying ((m + 1) % 2) >>= fun _ => pure (len - w))
      (d.turned m ((d.slots.words (m % 2)).extract w (w + (len - w)))
        (d.engine.moved (d.channelOf (m % 2)) (len - w))) := by
  have hslot : m % 2 < 2 := Nat.mod_lt m Nat.zero_lt_two
  have hlinked := (h.linkedAt m).moved (len - w)
  have htransfer := Deck.transfer_last h.reads h.shaped hslot (by decide) hlen h.running?
    hlinked.complete h.deck.word hle
  have hreads : ((d.engine.moved (d.channelOf (m % 2)) (len - w)).channel
      (d.channelOf (m % 2))).Reads (m % 2) (w + (len - w)) len := Engine.reads_moved h.reads
  refine (step_completed htransfer).trans (Run.bind_congr ?_ _)
  exact service_finished rfl hlinked hreads.tag h.shaped h.draining

/-- **A transfer that ends the block.** The other slot is played next, with a frame or a decay, and
    the one that was played holds its own decay by then. -/
theorem Live.step_last (h : Live len pole history d m w) (hle : len - w ≤ limit) :
    ∃ d', step limit d = .ok (len - w) d' ∧ Live len pole history d' (m + 1) 0 ∧
      Untouched d d' := by
  have hback : (m + 1 + 1) % 2 = m % 2 := by omega
  have hrunning := h.toRunning
  have hpoised := hrunning.poised
  have hlast := hrunning.step_last_eq hlen hle
  -- Which words were played and which engine played them does not matter from here on.
  generalize (d.slots.words (m % 2)).extract w (w + (len - w)) = out at hpoised hlast
  generalize d.engine.moved (d.channelOf (m % 2)) (len - w) = e at hpoised hlast
  obtain ⟨hstate, hwords⟩ := other_turned d m out e
  have hholds : (d.turned m out e).Holds ((m + 1) % 2) (block len pole history (m + 1)) :=
    ⟨hstate.trans h.next.state, hwords.trans h.next.words⟩
  have hbegins := hpoised.start hholds
  -- The slot that was played holds the decay of its block.
  have hfree : (d.turned m out e).slots.state? (m % 2) = some .free := hrunning.free_turned
  have hfaded : (d.turned m out e).slots.words (m % 2) =
      afterglow pole (block len pole history m).words := hrunning.words_turned
  rw [← slots_late _ ((m + 1) % 2) (block len pole history (m + 1)).isFade] at hfree hfaded
  obtain ⟨hwait, hturn⟩ := h.queue.succ
  refine ⟨_, ?_, ⟨hbegins, ?_, ?_, .empty hwait ?_⟩, ?_⟩
  · rw [hlast, Run.bind_ok (markPlaying_ok hholds)]
    rfl
  · cases (block len pole history (m + 1)).isFade <;> exact h.filling
  · -- Nothing waits any more, so the block after the next would be a decay as yet.
    rw [hback, block_none (due_succ_of_nil hwait)]
    exact ⟨(Slots.state?_setState_ne _ _ (by omega)).trans hfree, hfaded⟩
  · cases (block len pole history (m + 1)).isFade <;> exact hturn
  · cases (block len pole history (m + 1)).isFade <;> exact ⟨rfl, rfl, rfl⟩

/-- Playback goes on block by block, and leaves alone what software is at. -/
theorem blockByBlock (d : Chained) :
    BlockByBlock step toDeck len (block len pole history)
      fun s m w => Live len pole history s m w ∧ Untouched d s where
  playing := fun h => h.1.deck
  within := by
    rintro s m w limit ⟨h, hsame⟩ hlimit hlt
    obtain ⟨s', hs', hlive, hsame'⟩ := h.step_within hlen hlimit hlt
    exact ⟨s', hs', hlive, hsame.trans hsame'⟩
  last := by
    rintro s m w limit ⟨h, hsame⟩ hle
    obtain ⟨s', hs', hlive, hsame'⟩ := h.step_last hlen hle
    exact ⟨s', hs', hlive, hsame.trans hsame'⟩

/-- **Hardware time in playback:** each word of time is a word played. -/
theorem Live.advance (h : Live len pole history d m w) (n : Nat) :
    ∃ d' m' w', advance n d = .ok () d' ∧ Live len pole history d' m' w' ∧
      d'.played.size = d.played.size + n ∧ Untouched d d' := by
  obtain ⟨d', m', w', hd', ⟨hlive, hsame⟩, hsize⟩ :=
    (blockByBlock hlen d).elapse_ok ⟨h, rfl, rfl, rfl⟩ n
  exact ⟨d', m', w', hd', hlive, hsize, hsame⟩

end Live

/-! ### Before playback -/

/-- A transfer while no channel runs. -/
theorem step_idle (h : ∀ c : ChannelId, (d.engine.channel c).busy = false) (limit : Nat) :
    step limit d = .ok limit { d with toDeck := d.toDeck.idled limit } := by
  simp only [step, Run.get_bind]
  rw [Run.bind_ok (onDeck_ok (Deck.transfer_idle h d.slots.memory limit))]
  rfl

theorem Preroll.idle (h : Preroll len pole history holding d) (c : ChannelId) :
    (d.engine.channel c).busy = false := by
  by_cases hfirst : c = d.channelOf 0
  · rw [hfirst]
    exact h.first.stopped
  by_cases hsecond : c = d.channelOf 1
  · rw [hsecond]
    exact h.second.stopped
  · exact h.linked.others c hfirst hsecond

/-- **Hardware time before playback** passes without a word. -/
theorem Preroll.advance (h : Preroll len pole history holding d) (n : Nat) :
    ∃ d', advance n d = .ok () d' ∧ Preroll len pole history holding d' ∧
      d'.stats.waitSpins = d.stats.waitSpins := by
  refine Run.elapse_once (fun _ => ⟨h, rfl⟩) fun _ => ?_
  exact ⟨_, step_idle h.idle n, h.alike (Deck.alike_idled _ _), rfl⟩

end Chained

end ConsolePipeline.Playback
