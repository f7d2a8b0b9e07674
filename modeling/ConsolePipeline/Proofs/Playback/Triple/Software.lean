import ConsolePipeline.Proofs.Playback.Triple.Time

namespace ConsolePipeline.Playback

open Stereo

/-!
# Triple buffering: the software side

Software fills the slot two places after the one that plays, and never waits.

* `Triple.Preroll.acquire`, `Live.acquire` — the place for the next frame.
* `Triple.Preroll.write`, `Held.write` — the frame is filled in.
* `Triple.Preroll.commit`, `Held.commit` — it is handed over; the first one is copied to all slots.
-/

namespace Triple

variable {d : Triple} {len pole slot m w : Nat} {history : List Commit}

/-! ### The place for the next frame -/

/-- The state once software has taken a slot, from which a frame is lost if there was one. -/
def taken (d : Triple) (slot : Nat) (loses : Bool) : Triple :=
  { (if loses then overrun slot d else d).setPrimed slot false with
    slots := d.slots.setState slot .filling
    filling := some slot }

/-- Taking a slot touches no other counter. -/
theorem stats_taken (d : Triple) (slot : Nat) (loses : Bool) :
    (d.taken slot loses).stats = { d.stats with
      overruns := d.stats.overruns + if loses then 1 else 0 } := by
  cases loses <;> rfl

theorem engine_taken (d : Triple) (slot : Nat) (loses : Bool) :
    (d.taken slot loses).engine = d.engine := by
  cases loses <;> rfl

theorem channel_taken (d : Triple) (slot : Nat) (loses : Bool) :
    (d.taken slot loses).channel = d.channel := by
  cases loses <;> rfl

theorem playing_taken (d : Triple) (slot : Nat) (loses : Bool) :
    (d.taken slot loses).playing = d.playing := by
  cases loses <;> rfl

theorem played_taken (d : Triple) (slot : Nat) (loses : Bool) :
    (d.taken slot loses).played = d.played := by
  cases loses <;> rfl

theorem isPrimed_taken_self (hslot : slot < 3) (loses : Bool) :
    (d.taken slot loses).isPrimed slot = false :=
  isPrimed_setPrimed_self hslot false

theorem isPrimed_taken_ne {other : Nat} (hne : slot ≠ other) (loses : Bool) :
    (d.taken slot loses).isPrimed other = d.isPrimed other := by
  cases loses <;> exact isPrimed_setPrimed_ne hne false

theorem acquire_ok {state : SlotState} (hsolo : d.engine.Solo d.channel)
    (hslot : d.playing = none ∧ slot = 0 ∨ ∃ p, d.playing = some p ∧ slot = (p + 2) % 3)
    (hstate : d.slots.state? slot = some state) (hfillable : state = .free ∨ state = .ready) :
    acquire d = .ok (d.slots.words slot)
      (d.taken slot (decide (state = .ready) && !d.isPrimed slot)) := by
  rw [acquire, Run.bind_ok (service_idle hsolo), Run.get_bind]
  obtain ⟨hplaying, rfl⟩ | ⟨p, hplaying, rfl⟩ := hslot
  all_goals
    simp only [hplaying]
    rw [Run.bind_ok (onSlots_ok (Slots.beginFill_ok hstate hfillable))]
    simp only [Run.get_bind]
    cases hloses : decide (state = .ready) && !d.isPrimed _ with
    | false =>
      rw [if_neg (ne_true_of_eq_false (by exact hloses))]
      rfl
    | true =>
      rw [if_pos (by exact hloses)]
      rfl

theorem Steady.taken (h : Steady len pole history d) (slot : Nat) (loses : Bool) :
    Steady len pole history (d.taken slot loses) := by
  cases loses with
  | false =>
    exact ⟨h.shaped.setState _ _, h.solo, h.ring, h.frames, h.commits, h.waitSpins, h.tagMismatches⟩
  | true =>
    exact ⟨h.shaped.setState _ _, h.solo, h.ring, h.frames, h.commits, h.waitSpins, h.tagMismatches⟩

/-- Before playback, the first slot is taken. -/
theorem Preroll.acquire (h : Preroll len pole false d) :
    ∃ words d', acquire d = .ok words d' ∧ words.size = len ∧ Preroll len pole true d' := by
  refine ⟨_, d.taken 0 false, acquire_ok h.solo (.inl ⟨h.playing, rfl⟩) h.target (.inl rfl),
    h.shaped.words_size 0 (by decide), ?_⟩
  refine ⟨h.toSteady.taken 0 false, h.stopped, h.played, h.hardwareWords, h.irqs, h.underruns,
    h.overruns, h.playing, rfl, Slots.state?_setState_self h.shaped (by decide) .filling, ?_, ?_,
    fun _ => isPrimed_taken_self (by decide) false⟩
  · exact (Slots.state?_setState_ne _ _ (by decide)).trans h.second
  · exact (Slots.state?_setState_ne _ _ (by decide)).trans h.third

/-- Taking another slot leaves what a slot holds. -/
theorem Holds.taken {other : Nat} {b : Block} (h : d.Holds slot b) (hne : other ≠ slot)
    (loses : Bool) : (d.taken other loses).Holds slot b :=
  h.congr (Slots.state?_setState_ne _ _ hne) rfl (isPrimed_taken_ne hne loses)

/-- A slot that is taken loses a frame if it held one: a copy or a decay is no loss. -/
theorem Holds.loses {b : Block} {state : SlotState} (h : d.Holds slot b)
    (hstate : d.slots.state? slot = some state) :
    (decide (state = .ready) && !d.isPrimed slot) = b.isFrame := by
  obtain rfl : (if b.isFade then .free else .ready) = state :=
    Option.some.inj (h.state.symm.trans hstate)
  rw [h.primed]
  cases b <;> rfl

/-- **In playback the slot of the block after the next is taken,** without a wait. -/
theorem Live.acquire (h : Live len pole history d m w) :
    ∃ words d', acquire d = .ok words d' ∧ words.size = len ∧ Held len pole history d' m w := by
  have hslot : (m + 2) % 3 < 3 := Nat.mod_lt _ (by decide)
  have hplays : (m + 2) % 3 ≠ m % 3 := by omega
  have hnext : (m + 2) % 3 ≠ (m + 1) % 3 := by omega
  -- The slot may hold a frame that has not been played; then that frame is lost.
  have hfillable : (if (block len pole history (m + 2)).isFade then SlotState.free else .ready) =
      .free ∨ (if (block len pole history (m + 2)).isFade then SlotState.free else .ready) =
      .ready := by
    split
    · exact .inl rfl
    · exact .inr rfl
  have hacquire := acquire_ok h.solo (.inr ⟨m % 3, h.playing, by omega⟩) h.later.state hfillable
  rw [h.later.loses h.later.state] at hacquire
  refine ⟨_, _, hacquire, h.shaped.words_size _ hslot, ?_⟩
  -- Whether one is lost only matters for the overruns.
  generalize hloses : (block len pole history (m + 2)).isFrame = loses
  have hsteady := h.toSteady.taken ((m + 2) % 3) loses
  have hstats := stats_taken d ((m + 2) % 3) loses
  have hdeck : (d.taken ((m + 2) % 3) loses).toDeck.Playing len (block len pole history) m w :=
    h.deck.same (played_taken d _ loses) (by rw [hstats])
  exact
    { toSteady := hsteady
      nonempty := h.nonempty
      entries := h.entries
      playing := (playing_taken d _ loses).trans h.playing
      reads := by
        rw [engine_taken]
        simp only [channel_taken]
        exact h.reads
      draining := (Slots.state?_setState_ne _ _ hplays).trans h.draining
      words := h.words
      unprimed := (isPrimed_taken_ne hplays loses).trans h.unprimed
      deck := hdeck
      irqs := by rw [hstats]; exact h.irqs
      underruns := by rw [hstats]; exact h.underruns
      next := h.next.taken hnext loses
      filling := rfl
      target := Slots.state?_setState_self h.shaped hslot .filling
      cleared := isPrimed_taken_self hslot loses
      overruns := by
        rw [hstats, ← hloses, isFrame_block, h.overruns]
        cases during len history m <;> rfl }

/-! ### The frame is filled in -/

/-- The state once the words of a slot have been replaced. -/
def rewritten (d : Triple) (slot : Nat) (words : Array Word) : Triple :=
  { d with slots := d.slots.setWords slot words }

theorem write_ok (hfilling : d.filling = some slot) (hstate : d.slots.state? slot = some .filling)
    (words : Array Word) :
    write words d = .ok () (d.rewritten slot (overlay words (d.slots.words slot))) := by
  rw [write, Run.get_bind, hfilling]
  exact onSlots_ok (Slots.overwrite_ok hstate words)

theorem Steady.rewritten (h : Steady len pole history d) (hslot : slot < 3) (words : Array Word) :
    Steady len pole history (d.rewritten slot (overlay words (d.slots.words slot))) := by
  have hsize : (overlay words (d.slots.words slot)).size = len := by
    rw [size_overlay, h.shaped.words_size slot hslot]
  exact ⟨h.shaped.setWords hsize _, h.solo, h.ring, h.frames, h.commits, h.waitSpins,
    h.tagMismatches⟩

theorem Preroll.write (h : Preroll len pole true d) (words : Array Word) :
    write words d = .ok () (d.rewritten 0 (overlay words (d.slots.words 0))) ∧
      Preroll len pole true (d.rewritten 0 (overlay words (d.slots.words 0))) :=
  ⟨write_ok h.filling h.target words, h.toSteady.rewritten (by decide) words, h.stopped, h.played,
    h.hardwareWords, h.irqs, h.underruns, h.overruns, h.playing, h.filling, h.target, h.second,
    h.third, h.cleared⟩

theorem Held.write (h : Held len pole history d m w) (words : Array Word) :
    write words d = .ok ()
        (d.rewritten ((m + 2) % 3) (overlay words (d.slots.words ((m + 2) % 3)))) ∧
      Held len pole history
        (d.rewritten ((m + 2) % 3) (overlay words (d.slots.words ((m + 2) % 3)))) m w := by
  have hslot : (m + 2) % 3 < 3 := Nat.mod_lt _ (by decide)
  have hplays : (m + 2) % 3 ≠ m % 3 := by omega
  have hnext : (m + 2) % 3 ≠ (m + 1) % 3 := by omega
  refine ⟨write_ok h.filling h.target words, ?_⟩
  exact
    { toSteady := h.toSteady.rewritten hslot words
      nonempty := h.nonempty
      entries := h.entries
      playing := h.playing
      reads := h.reads
      draining := h.draining
      words := (Slots.words_setWords_ne _ _ hplays).trans h.words
      unprimed := h.unprimed
      deck := h.deck.same rfl rfl
      irqs := h.irqs
      underruns := h.underruns
      next := h.next.congr rfl (Slots.words_setWords_ne _ _ hnext) rfl
      filling := h.filling
      target := h.target
      cleared := h.cleared
      overruns := h.overruns }

/-! ### The frame is handed over -/

/-- The state once a frame has been handed over. -/
def handed (d : Triple) (slot count : Nat) : Triple :=
  { d with
    filling := none
    slots := d.filled d.slots slot count
    toDeck := d.toDeck.committed (d.outgoing d.slots slot count).2 d.slots.slotLength }

/-- What is left to do once a frame has been handed over: the first one starts playback. -/
theorem commit_eq (hshaped : d.slots.Shaped 3 len pole) (hslot : slot < 3)
    (hfilling : d.filling = some slot) (hstate : d.slots.state? slot = some .filling)
    (count : Nat) :
    commit count d =
      if d.playing.isNone then
        (prime slot ((slot + 1) % 3) >>= fun _ => prime slot ((slot + 2) % 3) >>= fun _ =>
          startSlot slot) (d.handed slot count)
      else .ok () (d.handed slot count) := by
  have hsize : (d.outgoing d.slots slot count).1.size = (d.slots.words slot).size :=
    size_padded _ _ _
  have hlength := Deck.slotLength_filled hshaped hslot d.toDeck count
  -- The frame is written over the slot as a whole, and the slot counted by its length.
  have hrest : commit count d =
      (if d.playing.isNone then do
        prime slot ((slot + 1) % 3)
        prime slot ((slot + 2) % 3)
        startSlot slot
      else pure () : Run Triple Unit) (d.handed slot count) := by
    rw [commit, Run.get_bind]
    simp only [hfilling, Run.modify_bind]
    rw [Run.bind_ok (onSlots_ok (Slots.overwrite_ok (by exact hstate) _)),
      overlay_of_size_eq (by exact hsize),
      Run.bind_ok (onSlots_ok (Slots.finishFill_ok (by exact hstate)))]
    simp only [Run.modify_bind, Run.get_bind]
    rw [handed, ← hlength]
    rfl
  rw [hrest]
  split <;> rfl

theorem noted_commit {count : Nat} {d' : Triple} (hfilling : d.filling = some slot)
    (hplayed : d'.played = d.played) :
    port.noted (.commit count) d d' = [d.handover d.slots slot count] :=
  Port.noted_commit (congrArg (Option.map d.slots.words) hfilling) hplayed

/-- A frame handed over joins the history, whatever it is dated to. -/
theorem Steady.handed {c : Commit} (h : Steady len pole history d) (hslot : slot < 3) (count : Nat)
    (hframe : c.frame = (d.outgoing d.slots slot count).1) :
    Steady len pole (history ++ [c]) (d.handed slot count) := by
  refine ⟨Deck.shaped_filled h.shaped hslot d.toDeck count, h.solo, h.ring, ?_, ?_, h.waitSpins,
    h.tagMismatches⟩
  · exact Deck.size_frame_append h.shaped hslot d.toDeck count h.frames hframe
  · rw [List.length_append, ← h.commits]
    rfl

/-- **A frame handed over leaves the block that plays as it was,** if it is dated to that block or
    the one before: what it decides is a block still to come. -/
theorem Reading.handed {c : Commit} {n : Nat} (h : Reading len pole history d m w)
    (hslot : slot < 3) (hne : slot ≠ m % 3) (count : Nat)
    (hframe : c.frame = (d.outgoing d.slots slot count).1) (hduring : c.entry / len = n)
    (hle : n ≤ m) (hm : m ≤ n + 1) :
    Reading len pole (history ++ [c]) (d.handed slot count) m w := by
  have hblocks : ∀ k ≤ m, block len pole history k = block len pole (history ++ [c]) k :=
    fun k hk => (block_append h.nonempty hduring (Nat.le_trans hk hm)).symm
  refine ⟨h.toSteady.handed hslot count hframe, List.append_ne_nil_of_left_ne_nil h.nonempty _, ?_,
    h.playing, h.reads, (Deck.state?_filled_ne d.toDeck count hne).trans h.draining, ?_, h.unprimed,
    (h.deck.congr hblocks).same rfl rfl, h.irqs, ?_⟩
  · intro b hb
    rcases List.mem_append.mp hb with hb | hb
    · exact h.entries b hb
    · rw [List.mem_singleton.mp hb]
      exact Nat.lt_mul_of_div_lt (by omega) (Nat.zero_lt_of_lt h.deck.word)
  · rw [← hblocks m (Nat.le_refl m), ← h.words]
    exact Deck.words_filled_ne d.toDeck count hne
  · rw [← fadeCount_congr fun k hk => hblocks k (Nat.lt_succ_iff.mp hk)]
    exact h.underruns

/-- **A commit in playback** decides the block after the next. -/
theorem Held.commit (h : Held len pole history d m w) (count : Nat) :
    ∃ d', commit count d = .ok () d' ∧
      Live len pole (history ++ port.noted (.commit count) d d') d' m w := by
  have hslot : (m + 2) % 3 < 3 := Nat.mod_lt _ (by decide)
  have hplays : (m + 2) % 3 ≠ m % 3 := by omega
  have hnext : (m + 2) % 3 ≠ (m + 1) % 3 := by omega
  have hduring : (d.handover d.slots ((m + 2) % 3) count).entry / len = m := h.deck.size_div
  have hreading := h.toRunning.reading.handed hslot hplays count rfl hduring (Nat.le_refl m)
    (Nat.le_succ m)
  refine ⟨d.handed ((m + 2) % 3) count, ?_, ?_⟩
  · rw [commit_eq h.shaped hslot h.filling h.target, h.playing]
    rfl
  rw [noted_commit h.filling (by rfl)]
  refine ⟨hreading.running ?_, rfl, ?_, ?_⟩
  · -- The next block was decided before; only the one after it is new.
    rw [block_append h.nonempty hduring (Nat.le_refl (m + 1))]
    exact h.next.congr (Deck.state?_filled_ne d.toDeck count hnext)
      (Deck.words_filled_ne d.toDeck count hnext) rfl
  · rw [block_append_last h.nonempty hduring]
    exact ⟨Deck.state?_filled_self h.shaped hslot d.toDeck count,
      Deck.words_filled_self h.shaped hslot d.toDeck count, h.cleared⟩
  · rw [lost_append h.nonempty hduring]
    exact h.overruns

/-- The state once the frame of one slot has been copied to another. -/
def copied (d : Triple) (source target : Nat) : Triple :=
  { d with
    slots := (d.slots.setWords target (d.slots.words source)).setState target .ready }.setPrimed
      target true

theorem prime_ok {source target : Nat} (h : d.slots.state? source = some .ready)
    (hother : d.slots.state? target = some .free) :
    prime source target d = .ok () (d.copied source target) := by
  rw [prime, Run.bind_ok (onSlots_ok (Slots.duplicate_ok h hother (.inl rfl)))]
  rfl

theorem Steady.copied {source target : Nat} (h : Steady len pole history d) (hsource : source < 3) :
    Steady len pole history (d.copied source target) :=
  ⟨(h.shaped.setWords (h.shaped.words_size source hsource) _).setState _ _, h.solo, h.ring,
    h.frames, h.commits, h.waitSpins, h.tagMismatches⟩

/-- A slot to which a frame has been copied holds a copy. -/
theorem Steady.holds_copied {source target : Nat} {words : Array Word}
    (h : Steady len pole history d) (hsource : source < 3) (htarget : target < 3)
    (hwords : d.slots.words source = words) :
    (d.copied source target).Holds target (.copy words) := by
  refine ⟨?_, ?_, isPrimed_setPrimed_self htarget true⟩
  · exact Slots.state?_setState_self (h.shaped.setWords (h.shaped.words_size source hsource) _)
      htarget .ready
  · exact (Slots.words_setWords_self h.shaped htarget _).trans hwords

/-- Copying to another slot leaves what a slot holds. -/
theorem Holds.copied {source target : Nat} {b : Block} (h : d.Holds slot b) (hne : target ≠ slot) :
    (d.copied source target).Holds slot b :=
  h.congr (Slots.state?_setState_ne _ _ hne) (Slots.words_setWords_ne _ _ hne)
    (isPrimed_setPrimed_ne hne true)

/-- **The first commit** fills all slots with its frame and starts playback. -/
theorem Preroll.commit (h : Preroll len pole true d) (hlen : 0 < len) (count : Nat) :
    ∃ d', commit count d = .ok () d' ∧
      Live len pole (port.noted (.commit count) d d') d' 0 0 := by
  have hsteady := h.toSteady.handed (c := d.handover d.slots 0 count) (by decide : 0 < 3) count rfl
  have hwords := Deck.words_filled_self h.shaped (by decide : 0 < 3) d.toDeck count
  -- The other slots take a copy each, so that three blocks of the frame can be played.
  have hfirst : (d.handed 0 count).Holds 0 (.frame (d.outgoing d.slots 0 count).1) :=
    ⟨Deck.state?_filled_self h.shaped (by decide) d.toDeck count, hwords, h.cleared rfl⟩
  have hsecond : (d.handed 0 count).slots.state? 1 = some .free :=
    (Deck.state?_filled_ne d.toDeck count (by decide)).trans h.second
  have hthird : ((d.handed 0 count).copied 0 1).slots.state? 2 = some .free :=
    (Slots.state?_setState_ne _ _ (by decide)).trans
      ((Deck.state?_filled_ne d.toDeck count (by decide)).trans h.third)
  have hfirst' : ((d.handed 0 count).copied 0 1).Holds 0 (.frame (d.outgoing d.slots 0 count).1) :=
    hfirst.copied (by decide)
  have hplayed : d.played.size = 0 := by
    rw [h.played]
    rfl
  have hbetween : Between len pole [d.handover d.slots 0 count]
      (((d.handed 0 count).copied 0 1).copied 0 2) 0 := by
    refine ⟨(hsteady.copied (by decide)).copied (by decide), List.cons_ne_nil _ _, ?_,
      (Deck.playing_start hlen h.played h.hardwareWords _).same rfl rfl, h.irqs, h.underruns, rfl,
      hfirst'.copied (by decide), ?_, ?_, h.overruns⟩
    · intro c hc
      rw [List.mem_singleton.mp hc]
      show d.played.size < (0 + 1) * len
      omega
    · exact (hsteady.holds_copied (by decide) (by decide) hwords).copied (by decide)
    · exact (hsteady.copied (by decide)).holds_copied (by decide) (by decide) hfirst'.words
  obtain ⟨d', hd', hlive⟩ := hbetween.start hlen
  refine ⟨d', ?_, ?_⟩
  · rw [commit_eq h.shaped (by decide) h.filling h.target, h.playing, Option.isNone_none,
      if_pos rfl, Run.bind_ok (prime_ok hfirst.state hsecond),
      Run.bind_ok (prime_ok hfirst'.state hthird)]
    exact hd'
  · have hsize : d'.played.size = 0 := by
      rw [hlive.deck.size, Nat.zero_mul]
    rw [noted_commit h.filling (by rw [h.played, Array.eq_empty_of_size_eq_zero hsize])]
    exact hlive

end Triple

end ConsolePipeline.Playback
