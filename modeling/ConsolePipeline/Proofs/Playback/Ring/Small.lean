import ConsolePipeline.Proofs.Playback.Ring.Software

namespace ConsolePipeline.Playback

open Stereo

/-!
# Rings that do not hold two frames

The first frame is put behind a frame of silence. If the ring does not hold both, the frame comes
round to the silence in front of it, and its words are heard in the place of silence.

* `exists_word_writeWrapped` — a place that words come round to holds one of them.
* `Ring.commit_inv` — what a commit that succeeds has done.
* `Ring.Begun` — the first word heard; nothing takes it back.
* `Ring.Silent`, `Begins` — before the first commit, and after it until the first word is heard.
* `Ring.Silent.commit` — the first commit to such a ring replaces its first word.
* `Ring.Begins.advance` — that word is the first to be heard.
-/

/-- **A place that words come round to** holds one of them. -/
theorem exists_word_writeWrapped {words ring : Array Word} {pos i : Nat}
    (h : ∃ k < words.size, (pos + k) % ring.size = i % ring.size) (hring : 0 < ring.size) :
    ∃ j < words.size, ringAt (writeWrapped words pos ring) i = words.getD j silence := by
  -- With `n` words to go, the place holds one of them already or is still to come.
  have hgo : ∀ n ring, n ≤ words.size → 0 < ring.size →
      (∃ j < words.size, ringAt ring i = words.getD j silence) ∨
        (∃ k < words.size, words.size - n ≤ k ∧ (pos + k) % ring.size = i % ring.size) →
      ∃ j < words.size,
        ringAt (writeWrapped.go words pos n ring) i = words.getD j silence := by
    intro n
    induction n with
    | zero =>
      rintro ring - - (hheld | ⟨k, hk, hlast, -⟩)
      · exact hheld
      · omega
    | succ n ih =>
      intro ring hn hring h
      rw [writeWrapped.go]
      refine ih _ (by omega) (by rw [Array.size_setIfInBounds]; exact hring) ?_
      rw [Array.size_setIfInBounds]
      by_cases hhere : (pos + (words.size - (n + 1))) % ring.size = i % ring.size
      · refine .inl ⟨words.size - (n + 1), by omega, ?_⟩
        rw [hhere]
        exact ringAt_set_self hring _
      · obtain ⟨j, hj, hheld⟩ | ⟨k, hk, hlast, hplace⟩ := h
        · exact .inl ⟨j, hj, (ringAt_set_ne hhere _).trans hheld⟩
        · have hlater : k ≠ words.size - (n + 1) := by
            rintro rfl
            exact hhere hplace
          exact .inr ⟨k, hk, by omega, hplace⟩
  obtain ⟨k, hk, hplace⟩ := h
  exact hgo _ _ (Nat.le_refl _) hring (.inr ⟨k, hk, by omega, hplace⟩)

namespace Ring

variable {d d' : Ring} {size len count n limit : Nat} {v : Word}

/-! ### Calls that have succeeded -/

theorem wrapOnce_inv {pos : Nat} (h : wrapOnce n pos d = .ok () d') : d' = d := by
  rw [wrapOnce, Run.get_bind] at h
  by_cases hmany : 2 * d.size - pos % d.size < n
  · rw [if_pos hmany] at h
    cases h
  · rw [if_neg hmany] at h
    cases h
    rfl

theorem fillGuard_inv {held : Word} (h : fillGuard held d = .ok () d') : d' = d.guarded held := by
  rw [fillGuard, Run.get_bind] at h
  obtain ⟨_, s, hwrap, h⟩ := Run.bind_inv h
  obtain rfl := wrapOnce_inv hwrap
  cases h
  rfl

/-- The first frame has been put behind one of silence. -/
theorem makeRoom_inv (hstarted : d.started = false) (h : makeRoom d = .ok () d') :
    d' = { d with writePos := d.staging.size } := by
  rw [makeRoom, Run.get_bind, if_neg (by simp [hstarted]),
    Run.get_bind] at h
  obtain ⟨_, s, hwrap, hplace⟩ := Run.bind_inv h
  rw [wrapOnce_inv hwrap] at hplace
  cases hplace
  rfl

/-- **A commit that succeeds** finds its frame a place, and writes it there. -/
theorem commit_inv (h : commit count d = .ok () d') :
    ∃ s, makeRoom { d with staging := (padded d.staging count d.held).1 } = .ok () s ∧
      d' = if s.started then s.closed (padded d.staging count d.held).2
        else (s.closed (padded d.staging count d.held).2).start := by
  rw [commit, Run.get_bind] at h
  simp only [Run.modify_bind] at h
  -- A commit that succeeds has got through each of its parts, and they are followed in turn.
  obtain ⟨_, s, hmake, hframe⟩ := Run.bind_inv h
  refine ⟨s, hmake, ?_⟩
  rw [Run.get_bind, Run.get_bind] at hframe
  obtain ⟨_, s₁, hwrap, hwrite⟩ := Run.bind_inv hframe
  rw [wrapOnce_inv hwrap, Run.modify_bind] at hwrite
  obtain ⟨_, s₂, hguard, hcount⟩ := Run.bind_inv hwrite
  rw [fillGuard_inv hguard, Run.modify_bind, Run.get_bind] at hcount
  cases hstarted : s.started with
  | true =>
    rw [if_pos (by exact hstarted)] at hcount
    cases hcount
    rfl
  | false =>
    rw [if_neg (by show ¬s.started = true; rw [hstarted]; exact Bool.false_ne_true)] at hcount
    cases hcount
    rfl

theorem played_checkStarved (d : Ring) : d.checkStarved.played = d.played := by
  rw [checkStarved]
  split <;> rfl

/-- Looking at the reader plays nothing. -/
theorem played_sync (d : Ring) : d.sync.played = d.played := by
  rw [sync]
  split
  · exact played_checkStarved _
  · rfl

/-- **A transfer that succeeds** adds what the engine put out to what has been played. -/
theorem step_inv (h : step limit d = .ok n d') :
    ∃ out taken engine, d.engine.step #[d.ring] (min limit (max (d.ring.size / 2) 1)) =
      .ok (taken, out, engine) ∧ d'.played = d.played ++ out := by
  rw [step, Run.get_bind] at h
  obtain ⟨taken, s, htransfer, hsync⟩ := Run.bind_inv h
  obtain ⟨deck, hdeck, rfl⟩ := Run.within_inv htransfer
  have hdeck : Deck.transfer #[d.ring] (min limit (max (d.ring.size / 2) 1)) d.toDeck =
      .ok taken deck := hdeck
  rw [Run.modify_bind] at hsync
  cases hsync
  rw [Deck.transfer] at hdeck
  cases hstep : d.engine.step #[d.ring] (min limit (max (d.ring.size / 2) 1)) with
  | error e =>
    rw [hstep] at hdeck
    cases hdeck
  | ok outcome =>
    obtain ⟨taken', out, engine⟩ := outcome
    rw [hstep] at hdeck
    cases hdeck
    exact ⟨out, _, engine, rfl, played_sync _⟩

/-! ### The first word heard -/

/-- The first word that has been heard. -/
def Begun (v : Word) (d : Ring) : Prop :=
  d.played[0]? = some v

theorem Begun.of_played {d₁ d₂ : Ring} (h : Begun v d₁) (hplayed : d₂.played = d₁.played) :
    Begun v d₂ := by
  rw [Begun, hplayed]
  exact h

theorem Begun.step (h : Begun v d) (hstep : Ring.step limit d = .ok n d') : Begun v d' := by
  obtain ⟨out, _, _, -, hplayed⟩ := step_inv hstep
  obtain ⟨hlt, -⟩ := Array.getElem?_eq_some_iff.mp h
  rw [Begun, hplayed, Array.getElem?_append_left hlt]
  exact h

theorem Begun.advance (h : Begun v d) (hadvance : Ring.advance n d = .ok () d') : Begun v d' :=
  Run.elapse_inv (fun hbegun hstep => hbegun.step hstep) h hadvance

theorem Begun.makeRoom (h : Begun v d) (hmake : Ring.makeRoom d = .ok () d') : Begun v d' := by
  rw [Ring.makeRoom, Run.get_bind] at hmake
  cases hstarted : d.started with
  | true =>
    -- A wait plays more words, after those that have been played.
    rw [if_pos hstarted, Run.modify_bind, Run.modify_bind, Run.get_bind] at hmake
    have hbumped : Begun v d.sync.bumped := h.of_played (played_sync d)
    refine Run.waitWhile_inv ?_ hbumped hmake
    intro s s' hs hspin
    rw [Ring.spin, Run.modify_bind] at hspin
    have hspun : Begun v { s with toDeck := s.toDeck.spun } := hs.of_played rfl
    exact hspun.advance hspin
  | false =>
    rw [makeRoom_inv hstarted hmake]
    exact h.of_played rfl

/-- **Nothing takes back the first word that was heard.** -/
theorem Begun.commit (h : Begun v d) (hcommit : Ring.commit count d = .ok () d') : Begun v d' := by
  obtain ⟨s, hmake, rfl⟩ := commit_inv hcommit
  have hstaged : Begun v { d with staging := (padded d.staging count d.held).1 } := h.of_played rfl
  have hs : Begun v s := hstaged.makeRoom hmake
  split
  · exact hs.of_played rfl
  · exact hs.of_played rfl

/-! ### The first frame -/

/-- Before the first commit. -/
structure Silent (size len : Nat) (d : Ring) : Prop where
  started : d.started = false
  solo : d.engine.Solo d.channel
  stopped : (d.engine.channel d.channel).busy = false
  played : d.played = #[]
  readPos : d.readPos = 0
  size : d.ring.size = size
  staging : d.staging.size = len

/-- The ring has been started, and its first word has not been heard yet. -/
structure Begins (size : Nat) (v : Word) (d : Ring) : Prop where
  started : d.started = true
  solo : d.engine.Solo d.channel
  cycles : (d.engine.channel d.channel).Cycles 0 d.ring.size
  lastIndex : d.lastIndex = 0
  played : d.played = #[]
  size : d.ring.size = size
  word : ringAt d.ring 0 = v

section Alike

variable {t : Deck} (ht : d.toDeck.Alike t)

include ht

theorem Silent.alike (h : Silent size len d) : Silent size len { d with toDeck := t } := by
  obtain ⟨⟨_, _, mailbox⟩, _, held, ⟨_, _, _, _, _, _, _, _, _⟩, notices⟩ := t
  obtain ⟨rfl, rfl, rfl, rfl, rfl, rfl, rfl, rfl, rfl⟩ := ht
  exact ⟨h.started, ⟨h.solo.others, h.solo.chain, h.solo.pending⟩, h.stopped, h.played, h.readPos,
    h.size, h.staging⟩

theorem Begins.alike (h : Begins size v d) : Begins size v { d with toDeck := t } := by
  obtain ⟨⟨_, _, mailbox⟩, _, held, ⟨_, _, _, _, _, _, _, _, _⟩, notices⟩ := t
  obtain ⟨rfl, rfl, rfl, rfl, rfl, rfl, rfl, rfl, rfl⟩ := ht
  exact ⟨h.started, ⟨h.solo.others, h.solo.chain, h.solo.pending⟩, h.cycles, h.lastIndex, h.played,
    h.size, h.word⟩

end Alike

/-- A new ring is silent. -/
theorem silent_new {engine : Engine} {channel pole : Nat} {config : RingConfig}
    (hnew : new engine channel len pole config = .ok d) (hquiet : engine.Quiet) :
    Silent (config.sizeFor len) len d := by
  obtain ⟨ch, e, hquiet, rfl⟩ := new_inv hnew hquiet
  exact ⟨rfl, hquiet.solo ch, (hquiet.channel ch).1, rfl, rfl, Array.size_replicate,
    Array.size_replicate⟩

theorem Silent.staged (h : Silent size len d) {words : Array Word} (hwords : words.size = len) :
    Silent size len { d with staging := words } :=
  ⟨h.started, h.solo, h.stopped, h.played, h.readPos, h.size, hwords⟩

/-- Time before the first commit passes without a word. -/
theorem Silent.advance (h : Silent size len d) (hadvance : Ring.advance n d = .ok () d') :
    Silent size len d' := by
  refine Run.elapse_inv ?_ h hadvance
  intro limit n s s' hs hstep
  rw [step_idle hs.started (hs.solo.idle hs.stopped)] at hstep
  cases hstep
  exact hs.alike (s.toDeck.alike_idled _)

/-- Where no space is free, nothing is filled. -/
theorem ring_guarded (h : d.readPos + d.size ≤ d.writePos) (held : Word) :
    (d.guarded held).ring = d.ring := by
  have hfree : d.readPos + d.size - d.writePos = 0 := Nat.sub_eq_zero_of_le h
  have hfaded : d.faded = 0 := by rw [faded, hfree, Nat.min_zero]
  have hsize : (fade (left held) d.pole 0).size = 0 := size_fade _ _ _
  rw [guarded]
  simp only [hfree, hfaded]
  rw [silenceWrapped, writeWrapped, hsize, writeWrapped.go]

/-- A frame behind one of silence comes round to the first place, if the two are longer than the
    ring. -/
theorem exists_round (hpos : 0 < size) (hsmall : size < 2 * len) :
    ∃ k < len, (len + k) % size = 0 % size := by
  -- A frame shorter than the ring ends its lap; a longer one goes all the way round.
  by_cases hlen : len < size
  · refine ⟨size - len, by omega, ?_⟩
    rw [Nat.add_sub_cancel' (Nat.le_of_lt hlen), Nat.mod_self, Nat.zero_mod]
  · have hmod := Nat.mod_lt len hpos
    refine ⟨(size - len % size) % size, ?_, ?_⟩
    · exact Nat.lt_of_lt_of_le (Nat.mod_lt _ hpos) (Nat.not_lt.mp hlen)
    · rw [Nat.add_mod_mod, ← Nat.mod_add_mod, Nat.add_sub_cancel' (Nat.le_of_lt hmod),
        Nat.mod_self, Nat.zero_mod]

/-- **The first commit to a ring that does not hold two frames** comes round to the silence in front
    of the frame, and replaces its first word. -/
theorem Silent.commit (h : Silent size len d) (hpos : 0 < size) (hsmall : size < 2 * len)
    (hloud : ∀ w ∈ d.staging, w ≠ silence) (hcommit : Ring.commit len d = .ok () d') :
    ∃ v, v ≠ silence ∧ Begins size v d' := by
  obtain ⟨s, hmake, rfl⟩ := commit_inv hcommit
  rw [padded_of_size_le (Nat.le_of_eq h.staging)] at hmake
  obtain rfl := makeRoom_inv h.started hmake
  have hstaging := h.staging
  -- No space is free once the frame has been written, so nothing else is written.
  have hring : (closed { d with writePos := d.staging.size } (padded d.staging len d.held).2).ring =
      writeWrapped d.staging d.staging.size d.ring := by
    refine ring_guarded ?_ _
    show d.readPos + (writeWrapped _ _ _).size ≤ d.staging.size + d.staging.size
    rw [h.readPos, size_writeWrapped, h.size]
    omega
  have hround := exists_round hpos hsmall
  rw [← h.size, ← hstaging] at hround
  obtain ⟨j, hj, hword⟩ := exists_word_writeWrapped hround (h.size.symm ▸ hpos)
  refine ⟨d.staging.getD j silence, ?_, ?_⟩
  · rw [Array.getD_eq_getD_getElem?, Array.getElem?_eq_getElem hj, Option.getD_some]
    exact hloud _ (Array.getElem_mem hj)
  · rw [if_neg (by show ¬d.started = true; rw [h.started]; exact Bool.false_ne_true)]
    refine ⟨rfl, h.solo.cycled _, Engine.cycles_cycled _ _ _, rfl, h.played, ?_, ?_⟩
    · exact (congrArg Array.size hring).trans ((size_writeWrapped _ _ _).trans h.size)
    · exact (congrArg (ringAt · 0) hring).trans hword

/-! ### The first word -/

/-- Looking at a reader that has not moved changes nothing that is heard. -/
theorem Begins.sync (h : Begins size v d) (hpos : 0 < size) (hsize : size ≤ regionWords) :
    Begins size v d.sync := by
  have hring := h.size
  have hsync : d.sync = d.checkStarved :=
    sync_still (r := 0) h.started (by rw [Nat.zero_mod]; exact h.cycles) (by omega)
      (by rw [h.lastIndex, Nat.zero_mod]) (by omega)
  rw [hsync, checkStarved]
  split
  · exact ⟨h.started, h.solo, h.cycles, h.lastIndex, h.played, h.size, h.word⟩
  · exact h

/-- **The first word that is heard** is the first of the ring. -/
theorem Begins.advance (h : Begins size v d) (hpower : size.isPowerOfTwo)
    (hn : 0 < n) (hadvance : Ring.advance n d = .ok () d') :
    Begun v d' := by
  have hpos : 0 < size := Nat.pos_of_isPowerOfTwo hpower
  have hring := h.size
  obtain ⟨taken, s, -, hstep, hrest⟩ := Run.elapse_first hn hadvance
  obtain ⟨out, _, _, hengine, hplayed⟩ := step_inv hstep
  -- The reader stands at the first place, and at least that is read.
  rw [Engine.step_ring (h.solo.running? h.cycles.busy) h.cycles (hring ▸ hpower) (by decide)
    (by omega) (by omega)] at hengine
  cases hengine
  have hfirst : d.ring[0]? = some v := by
    rw [← h.word, ringAt, Nat.zero_mod, Array.getD_eq_getD_getElem?,
      Array.getElem?_eq_getElem (by omega), Option.getD_some]
  have hbegun : Begun v s := by
    rw [Begun, hplayed, h.played, Array.empty_append, Array.getElem?_extract]
    rw [if_pos (by omega), Nat.add_zero]
    exact hfirst
  exact Run.elapse_inv (fun hbegun hstep => hbegun.step hstep) hbegun hrest

end Ring

end ConsolePipeline.Playback
