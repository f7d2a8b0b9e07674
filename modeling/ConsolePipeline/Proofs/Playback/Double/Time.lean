import ConsolePipeline.Proofs.Playback.Double.States

namespace ConsolePipeline.Playback

open Stereo

/-!
# Double buffering: time

* `Double.Live.replay`, `Live.change` — what the end of a block comes to.
* `Double.Live.step_within`, `Live.step_last` — one transfer, with the handler if it ends a block.
* `Double.Live.advance` — in playback each word of time is a word played.
* `Double.Preroll.advance` — before playback time passes without a word.
-/

namespace Double

variable {d : Double} {len pole n limit : Nat} {history : List Commit} {holding : Bool}

/-- Time changes nothing that software is at. -/
structure Untouched (d d' : Double) : Prop where
  filling : d'.filling = d.filling
  waitSpins : d'.stats.waitSpins = d.stats.waitSpins
  idleWords : d'.stats.idleWords = d.stats.idleWords

theorem Untouched.trans {d₁ d₂ d₃ : Double} (h : Untouched d₁ d₂) (h' : Untouched d₂ d₃) :
    Untouched d₁ d₃ :=
  ⟨h'.filling.trans h.filling, h'.waitSpins.trans h.waitSpins, h'.idleWords.trans h.idleWords⟩

theorem step_ok {t : Deck}
    (h : Deck.transfer d.slots.memory limit d.toDeck = .ok ⟨n, false, none⟩ t) :
    step limit d = .ok n { d with toDeck := t } := by
  simp only [step, Run.get_bind]
  rw [Run.bind_ok (onDeck_ok h)]
  rfl

theorem step_completed {t : Deck} {ch : ChannelId} {d' : Double}
    (h : Deck.transfer d.slots.memory limit d.toDeck = .ok ⟨n, false, some ch⟩ t)
    (hservice : service { d with toDeck := t } = .ok () d') : step limit d = .ok n d' := by
  simp only [step, Run.get_bind]
  rw [Run.bind_ok (onDeck_ok h)]
  simp only [Option.isSome_some, if_true]
  rw [Run.bind_ok (by exact hservice)]
  rfl

/-! ### The end of a block -/

/-- The state once the last words of a block have been played and its slot has been given back. -/
def turned (d : Double) (p w len : Nat) (e : Engine) : Double :=
  (d.heard ((d.slots.words p).extract w (w + (len - w))) (e.finished d.channel)).retired p

section Turned

variable {m w p : Nat} {e : Engine} (h : Live len pole history holding d m w p)

include h

/-- The slot that has been played holds a decay, and nobody owns it. -/
theorem Live.free_turned : (d.turned p w len e).slots.state? p = some .free := by
  have hwords : (afterglow d.slots.pole (d.slots.words p)).size = len := by
    rw [size_afterglow, h.shaped.words_size p h.slot]
  exact Slots.state?_setState_self (h.shaped.setWords hwords p) h.slot .free

theorem Live.words_turned :
    (d.turned p w len e).slots.words p = afterglow pole (block len pole history m).words := by
  rw [← h.words, ← h.shaped.pole]
  exact Slots.words_setWords_self h.shaped h.slot _

/-- The other slot is left as it was. -/
theorem Live.other_turned :
    (d.turned p w len e).slots.state? (1 - p) = d.slots.state? (1 - p) ∧
      (d.turned p w len e).slots.words (1 - p) = d.slots.words (1 - p) := by
  have hslot := h.slot
  have hne : p ≠ 1 - p := by omega
  exact ⟨Slots.state?_setState_ne _ _ hne, Slots.words_setWords_ne _ _ hne⟩

theorem Live.deck_turned :
    (d.turned p w len e).toDeck.Playing len (block len pole history) (m + 1) 0 :=
  (h.deck.heard_rest h.words (h.shaped.words_size p h.slot) d.engine).same rfl rfl

variable (hsolo : e.Solo d.channel) (hring : (e.channel d.channel).ringWords = none)

include hsolo hring

/-- **Nothing waits:** the slot is played again, with its decay. -/
theorem Live.replay (o : Open len history holding d m p) :
    ∃ d', startSlot p (d.turned p w len e) = .ok () d' ∧
      Live len pole history holding d' (m + 1) 0 p ∧ Untouched d d' := by
  have hslot := h.slot
  have hpos : 0 < len := Nat.zero_lt_of_lt h.deck.word
  have hother : p ≠ 1 - p := by omega
  have hdue := due_succ_of_nil o.waiting
  have hsteady : Steady len pole history (d.turned p w len e) :=
    h.toSteady.retired hslot hsolo hring _
  -- A slot that is played again was marked late before it starts.
  have hlate : Steady len pole history ((d.turned p w len e).late p) :=
    ⟨hsteady.shaped, hsteady.solo, hsteady.ring, h.frames, h.commits, h.overruns, h.tagMismatches⟩
  have hdeck : (d.turned p w len e).toDeck.Playing len (block len pole history) (m + 1) 0 :=
    h.deck_turned
  refine ⟨_, startSlot_free h.free_turned, ?_, ⟨rfl, rfl, rfl⟩⟩
  refine live_onto hlate hpos h.many hslot ?_ (hdeck.same rfl rfl) (congrArg (· + 1) h.irqs) ?_
    (.inl ⟨waiting_succ_of_nil o.waiting, rfl, o.nextFill, o.filling, ?_⟩)
  · rw [block_succ_none hdue]
    exact h.words_turned
  · rw [fadeCount_succ, block_succ_none hdue, ← h.underruns]
    rfl
  · exact (Slots.state?_setState_ne _ _ hother).trans (h.other_turned.1.trans o.target)

/-- **The frame in the other slot is played next.** -/
theorem Live.change {c : Commit} (q : Queued len history holding d m p c) :
    ∃ d', startSlot (1 - p) (d.turned p w len e) = .ok () d' ∧
      Live len pole history holding d' (m + 1) 0 (1 - p) ∧ Untouched d d' := by
  have hslot := h.slot
  have hpos : 0 < len := Nat.zero_lt_of_lt h.deck.word
  have hother : 1 - p ≠ p := by omega
  have hback : 1 - (1 - p) = p := by omega
  have hdue := due_succ_of_lt q.waiting q.entry
  have hsteady : Steady len pole history (d.turned p w len e) :=
    h.toSteady.retired hslot hsolo hring _
  refine ⟨_, startSlot_ready (h.other_turned.1.trans q.ready), ?_, ⟨rfl, rfl, rfl⟩⟩
  refine live_onto hsteady hpos h.many (by omega) ?_ h.deck_turned (congrArg (· + 1) h.irqs) ?_
    (.inl ⟨waiting_succ_of_lt q.waiting q.entry, rfl, ?_, ?_, ?_⟩)
  · rw [block_succ_due hdue]
    exact h.other_turned.2.trans q.words
  · rw [fadeCount_succ, block_succ_due hdue, ← h.underruns]
    rfl
  · rw [hback]
    exact q.nextFill
  · rw [q.holding]
    exact q.filling
  · rw [hback, q.holding]
    exact (Slots.state?_setState_ne _ _ hother).trans h.free_turned

end Turned

section Live

variable {m w p : Nat} (hlen : len ≤ regionWords)

include hlen

/-- **A transfer that stays inside the block.** -/
theorem Live.step_within (h : Live len pole history holding d m w p) (hlimit : 0 < limit)
    (hlt : limit < len - w) :
    ∃ d', step limit d = .ok limit d' ∧ Live len pole history holding d' m (w + limit) p ∧
      Untouched d d' := by
  have htransfer := Deck.transfer_within h.reads h.shaped h.slot (by decide) hlen
    (h.solo.running? h.reads.busy) hlimit hlt
  refine ⟨_, step_ok htransfer, ?_, ⟨rfl, rfl, rfl⟩⟩
  exact
    { shaped := h.shaped
      solo := h.solo.moved limit
      ring := (Engine.reads_moved h.reads).ring
      frames := h.frames
      commits := h.commits
      overruns := h.overruns
      tagMismatches := h.tagMismatches
      many := h.many
      slot := h.slot
      playing := h.playing
      reads := Engine.reads_moved h.reads
      draining := h.draining
      words := h.words
      deck := h.deck.heard h.words (h.shaped.words_size p h.slot) (by omega) (by omega) rfl _
      irqs := h.irqs
      underruns := h.underruns
      next := h.next.imp (fun o => ⟨o.waiting, o.queued, o.nextFill, o.filling, o.target⟩)
        fun ⟨c, q⟩ => ⟨c, q.waiting, q.entry, q.holding, q.queued, q.nextFill, q.filling, q.ready,
          q.words⟩ }

/-- What the end of a block comes to: the handler goes on from the words just played. -/
theorem Live.step_last_eq (h : Live len pole history holding d m w p) (hle : len - w ≤ limit) :
    ∃ e : Engine, e.Solo d.channel ∧ (e.channel d.channel).ringWords = none ∧
      ∀ (q : Nat) (d' : Double), d.queued.getD p = q →
        startSlot q (d.turned p w len e) = .ok () d' → step limit d = .ok (len - w) d' := by
  have htransfer := Deck.transfer_last h.reads h.shaped h.slot (by decide) hlen
    (h.solo.running? h.reads.busy) (h.solo.moved (len - w)).complete h.deck.word hle
  have hreads : ((d.engine.moved d.channel (len - w)).channel d.channel).Reads p
      (w + (len - w)) len := Engine.reads_moved h.reads
  refine ⟨d.engine.moved d.channel (len - w), h.solo.moved (len - w), hreads.ring, ?_⟩
  rintro q d' rfl hstart
  refine step_completed htransfer (Eq.trans ?_ hstart)
  exact service_finished rfl (h.solo.moved (len - w)) hreads.tag h.slot h.playing h.shaped
    h.draining

/-- **A transfer that ends the block.** The slot that waits is played next, or the same slot again,
    which by then holds the decay of what it held. -/
theorem Live.step_last (h : Live len pole history holding d m w p) (hle : len - w ≤ limit) :
    ∃ d' p', step limit d = .ok (len - w) d' ∧
      Live len pole history holding d' (m + 1) 0 p' ∧ Untouched d d' := by
  obtain ⟨e, hsolo, hring, hstep⟩ := h.step_last_eq hlen hle
  rcases h.next with o | ⟨c, q⟩
  · obtain ⟨d', hd', hlive, hsame⟩ := h.replay hsolo hring o
    exact ⟨d', p, hstep p d' (by rw [o.queued]; rfl) hd', hlive, hsame⟩
  · obtain ⟨d', hd', hlive, hsame⟩ := h.change hsolo hring q
    exact ⟨d', 1 - p, hstep (1 - p) d' (by rw [q.queued]; rfl) hd', hlive, hsame⟩

/-- Playback goes on block by block, and leaves alone what software is at. -/
theorem blockByBlock (d : Double) : BlockByBlock step toDeck len (block len pole history)
    fun s m w => (∃ p, Live len pole history holding s m w p) ∧ Untouched d s where
  playing := fun ⟨⟨_, h⟩, _⟩ => h.deck
  within := by
    rintro s m w limit ⟨⟨p, h⟩, hsame⟩ hlimit hlt
    obtain ⟨s', hs', hlive, hsame'⟩ := h.step_within hlen hlimit hlt
    exact ⟨s', hs', ⟨p, hlive⟩, hsame.trans hsame'⟩
  last := by
    rintro s m w limit ⟨⟨p, h⟩, hsame⟩ hle
    obtain ⟨s', p', hs', hlive, hsame'⟩ := h.step_last hlen hle
    exact ⟨s', hs', ⟨p', hlive⟩, hsame.trans hsame'⟩

/-- **Hardware time in playback:** each word of time is a word played. -/
theorem Live.advance (h : Live len pole history holding d m w p) (n : Nat) :
    ∃ d' m' w' p', advance n d = .ok () d' ∧ Live len pole history holding d' m' w' p' ∧
      d'.played.size = d.played.size + n ∧ Untouched d d' := by
  obtain ⟨d', m', w', hd', ⟨⟨p', hlive⟩, hsame⟩, hsize⟩ :=
    (blockByBlock hlen d).elapse_ok ⟨⟨p, h⟩, rfl, rfl, rfl⟩ n
  exact ⟨d', m', w', p', hd', hlive, hsize, hsame⟩

end Live

/-- A transfer while no channel runs. -/
theorem step_idle (h : ∀ c : ChannelId, (d.engine.channel c).busy = false) (limit : Nat) :
    step limit d = .ok limit { d with toDeck := d.toDeck.idled limit } := by
  simp only [step, Run.get_bind]
  rw [Run.bind_ok (onDeck_ok (Deck.transfer_idle h d.slots.memory limit))]
  rfl

/-- **Hardware time before playback** passes without a word. -/
theorem Preroll.advance (h : Preroll len pole history holding d) (n : Nat) :
    ∃ d', advance n d = .ok () d' ∧ Preroll len pole history holding d' ∧
      d'.stats.waitSpins = d.stats.waitSpins := by
  refine Run.elapse_once (fun _ => ⟨h, rfl⟩) fun _ => ?_
  exact ⟨_, step_idle (h.solo.idle h.stopped) n, h.alike (Deck.alike_idled _ _), rfl⟩

end Double

end ConsolePipeline.Playback
