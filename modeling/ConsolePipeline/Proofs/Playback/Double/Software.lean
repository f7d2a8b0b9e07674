import ConsolePipeline.Proofs.Playback.Double.Time

namespace ConsolePipeline.Playback

open Stereo

/-!
# Double buffering: the software side

A frame joins those that wait, and a wait for a slot is over after the rounds that the rest of the
playing block takes.

* `Double.Live.acquire`, `Preroll.acquire` — the wait, and the place for the next frame.
* `Double.Sound.write`, `Double.Sound.commit` — the frame is filled in and handed over.
-/

namespace Double

variable {d : Double} {len pole n count : Nat} {history : List Commit} {holding : Bool}

/-! ### The wait for a slot -/

theorem mustWait_of_free (h : d.slots.state? d.nextFill = some .free) : d.mustWait = false := by
  simp [mustWait, h]

theorem mustWait_of_playing {p : Nat} (hplaying : d.playing = some p)
    (h : d.slots.state? d.nextFill = some .draining) : d.mustWait = true := by
  simp [mustWait, h, hplaying]

/-- Rounds that a wait takes: none if no frame waits, else those that end the block. -/
def roundsLeft (len : Nat) (history : List Commit) (m w : Nat) : Nat :=
  if waiting len history m = [] then 0 else waitRounds (len - w)

/-- A state that needs `k` more rounds of waiting, out of `total` since `d`. -/
structure Waiting (len pole : Nat) (history : List Commit) (d : Double) (total k : Nat)
    (s : Double) : Prop where
  live : ∃ m w p, Live len pole history false s m w p ∧ roundsLeft len history m w = k
  spins : s.stats.waitSpins + k = d.stats.waitSpins + total
  size : s.played.size + waitWords * k = d.played.size + waitWords * total
  idle : s.stats.idleWords = d.stats.idleWords

/-- One round of waiting. -/
theorem Waiting.spin {total k : Nat} {s : Double} (hlen : len ≤ regionWords)
    (h : Waiting len pole history d total (k + 1) s) :
    s.mustWait = true ∧
      ∃ s', Double.spin s = .ok () s' ∧ Waiting len pole history d total k s' := by
  obtain ⟨⟨m, w, p, hlive, hrounds⟩, hspins, hsize, hidle⟩ := h
  -- A round is left only while a frame waits behind the one that plays.
  have hsome : waiting len history m ≠ [] := by
    intro hnil
    rw [roundsLeft, if_pos hnil] at hrounds
    exact absurd hrounds (Nat.succ_ne_zero k).symm
  have hword := hlive.deck.word
  rw [roundsLeft, if_neg hsome] at hrounds
  obtain ⟨c, q⟩ : ∃ c, Queued len history false s m p c := hlive.next.resolve_left
    fun o => hsome o.waiting
  refine ⟨mustWait_of_playing hlive.playing (by rw [q.nextFill]; exact hlive.draining), ?_⟩
  have hspun := hlive.alike s.alike_spun
  obtain ⟨s', m', w', p', hs', hlive', hplayed, hsame⟩ := hspun.advance hlen waitWords
  have hplayed : s'.played.size = s.played.size + waitWords := hplayed
  refine ⟨s', ?_, ⟨m', w', p', hlive', ?_⟩, ?_, ?_, ?_⟩
  · rw [Double.spin, Run.modify_bind]
    exact hs'
  · -- Either the round stays inside the block, or it ends it and no frame waits any more.
    have hbefore := hlive.deck.size
    have hafter := hlive'.deck.size
    have hword' := hlive'.deck.word
    by_cases hend : waitWords < len - w
    · have hm : m' = m := by
        have hblock : (m * len + (w + waitWords)) / len = m := div_mul_add (by omega)
        have hblock' : (m' * len + w') / len = m' := div_mul_add hword'
        rw [← hblock', ← hafter, hplayed, hbefore, Nat.add_assoc]
        exact hblock
      rw [hm] at hafter ⊢
      rw [roundsLeft, if_neg hsome, show len - w' = len - w - waitWords by omega]
      exact waitRounds_sub hrounds
    · have hm : m + 1 ≤ m' := by
        have hblock' : (m' * len + w') / len = m' := div_mul_add hword'
        rw [← hblock', ← hafter, Nat.le_div_iff_mul_le (by omega), Nat.succ_mul]
        omega
      rw [roundsLeft, if_pos (waiting_of_nil (waiting_succ_of_lt q.waiting q.entry) hm)]
      have := waitRounds_sub hrounds
      rw [show len - w - waitWords = 0 by omega] at this
      exact this
  · have hspins' : s'.stats.waitSpins = s.stats.waitSpins + 1 := hsame.waitSpins
    omega
  · rw [Nat.mul_succ] at hsize
    omega
  · exact hsame.idleWords.trans hidle

/-- Nothing is waited for once no round is left. -/
theorem Waiting.done {total : Nat} {s : Double} (h : Waiting len pole history d total 0 s) :
    s.mustWait = false ∧ ∃ m w p, Live len pole history false s m w p ∧
      Open len history false s m p := by
  obtain ⟨⟨m, w, p, hlive, hrounds⟩, -, -, -⟩ := h
  have hword := hlive.deck.word
  have hnil : waiting len history m = [] := by
    by_contra hsome
    rw [roundsLeft, if_neg hsome] at hrounds
    exact absurd hrounds (Nat.pos_iff_ne_zero.mp (waitRounds_pos (by omega)))
  have o : Open len history false s m p := hlive.next.resolve_right fun ⟨c, q⟩ => by
    rw [q.waiting] at hnil
    cases hnil
  refine ⟨mustWait_of_free ?_, m, w, p, hlive, o⟩
  rw [o.nextFill, o.target]
  rfl

/-! ### The place for the next frame -/

/-- Software takes a slot that the hardware does not read. -/
def taken (d : Double) (slot : Nat) : Double :=
  { d with
    slots := d.slots.setState slot .filling
    filling := some slot }

/-- What is left to do once the wait is over. -/
theorem acquire_ok {s : Double} {target : Nat} (hsolo : d.engine.Solo d.channel)
    (hwait : Run.waitWhile mustWait spin d.waitBound d = .ok () s) (htarget : s.nextFill = target)
    (hfree : s.slots.state? target = some .free) :
    acquire d = .ok ((s.taken target).slots.words target) (s.taken target) := by
  subst htarget
  rw [acquire, Run.bind_ok (service_idle hsolo), Run.get_bind, Run.bind_ok hwait, Run.get_bind,
    Run.bind_ok (onSlots_ok (Slots.beginFill_ok hfree (.inl rfl))), Run.modify_bind, Run.get_bind]
  rfl

theorem Live.taken {m w p : Nat} (h : Live len pole history false d m w p)
    (o : Open len history false d m p) :
    Live len pole history true (d.taken (1 - p)) m w p := by
  have hother : 1 - p ≠ p := by
    have := h.slot
    omega
  refine ⟨⟨h.shaped.setState _ _, h.solo, h.ring, h.frames, h.commits, h.overruns,
    h.tagMismatches⟩, h.many, h.slot, h.playing, h.reads, ?_, h.words, h.deck.same rfl rfl, h.irqs,
    h.underruns, .inl ⟨o.waiting, o.queued, o.nextFill, rfl, ?_⟩⟩
  · exact (Slots.state?_setState_ne _ _ hother).trans h.draining
  · exact Slots.state?_setState_self h.shaped (by omega) .filling

/-- **A wait in playback ends,** after exactly the rounds that the playing block takes if a frame
    waits, and at once if none does. -/
theorem Live.acquire {m w p : Nat} (hlen : len ≤ regionWords)
    (h : Live len pole history false d m w p) :
    ∃ words d' m' w' p', acquire d = .ok words d' ∧ words.size = len ∧
      Live len pole history true d' m' w' p' ∧
      d'.stats.waitSpins = d.stats.waitSpins + roundsLeft len history m w ∧
      d'.played.size = d.played.size + waitWords * roundsLeft len history m w ∧
      d'.stats.idleWords = d.stats.idleWords := by
  have hbound : roundsLeft len history m w ≤ d.waitBound := by
    rw [waitBound, h.shaped.slotLength (by decide), roundsLeft]
    have := waitRounds_le (len - w)
    split <;> omega
  let P := Waiting len pole history d (roundsLeft len history m w)
  obtain ⟨s, hs, hwaiting⟩ : ∃ s, Run.waitWhile mustWait spin d.waitBound d = .ok () s ∧ P 0 s :=
    Run.waitWhile_ok (fun s hs => hs.done.1) (fun k s hs => hs.spin hlen) _ _ hbound d
      ⟨⟨m, w, p, h, rfl⟩, rfl, rfl, rfl⟩
  obtain ⟨-, m', w', p', hlive, o⟩ := hwaiting.done
  have hslot : 1 - p' < 2 := by omega
  exact ⟨_, _, m', w', p', acquire_ok h.solo hs o.nextFill o.target,
    hlive.shaped.words_size _ hslot, hlive.taken o, hwaiting.spins, hwaiting.size, hwaiting.idle⟩

/-- Before playback there is nothing to wait for. -/
theorem Preroll.acquire (h : Preroll len pole history false d) :
    ∃ words d', acquire d = .ok words d' ∧ words.size = len ∧
      Preroll len pole history true d' ∧ d'.stats = d.stats := by
  have hwait : Run.waitWhile mustWait spin d.waitBound d = .ok () d :=
    Run.waitWhile_done (mustWait_of_free h.loading.target) _
  refine ⟨_, _, acquire_ok h.solo hwait rfl h.loading.target,
    h.shaped.words_size _ h.loading.next_lt, ?_, rfl⟩
  exact ⟨⟨h.shaped.setState _ _, h.solo, h.ring, h.frames, h.commits, h.overruns, h.tagMismatches⟩,
    h.stopped, h.played, h.hardwareWords, h.irqs, h.underruns, h.playing, h.queued, h.loading.take⟩

/-! ### The frame is filled in and handed over -/

/-- The state once the words of a slot have been replaced. -/
def rewritten (d : Double) (slot : Nat) (words : Array Word) : Double :=
  { d with slots := d.slots.setWords slot words }

theorem write_ok {slot : Nat} (hfilling : d.filling = some slot)
    (hstate : d.slots.state? slot = some .filling) (words : Array Word) :
    write words d = .ok () (d.rewritten slot (overlay words (d.slots.words slot))) := by
  rw [write, Run.get_bind, hfilling]
  exact onSlots_ok (Slots.overwrite_ok hstate words)

theorem Steady.rewritten {slot : Nat} (h : Steady len pole history d) (hslot : slot < 2)
    (words : Array Word) :
    Steady len pole history (d.rewritten slot (overlay words (d.slots.words slot))) := by
  have hsize : (overlay words (d.slots.words slot)).size = len := by
    rw [size_overlay, h.shaped.words_size slot hslot]
  exact ⟨h.shaped.setWords hsize _, h.solo, h.ring, h.frames, h.commits, h.overruns,
    h.tagMismatches⟩

theorem Preroll.write (h : Preroll len pole history true d) (words : Array Word) :
    write words d = .ok () (d.rewritten d.nextFill (overlay words (d.slots.words d.nextFill))) ∧
      Preroll len pole history true
        (d.rewritten d.nextFill (overlay words (d.slots.words d.nextFill))) := by
  have hsize : (overlay words (d.slots.words d.nextFill)).size = len := by
    rw [size_overlay, h.shaped.words_size _ h.loading.next_lt]
  exact ⟨write_ok h.loading.held h.loading.target words,
    h.toSteady.rewritten h.loading.next_lt words, h.stopped, h.played, h.hardwareWords, h.irqs,
    h.underruns, h.playing, h.queued, h.loading.rewrite hsize⟩

/-- While a slot is held, it is the one that does not play, and no frame waits. -/
theorem Live.held {m w p : Nat} (h : Live len pole history true d m w p) :
    Open len history true d m p := by
  obtain o | ⟨c, q⟩ := h.next
  · exact o
  · cases q.holding

/-- **Writing** touches only the slot that is held. -/
theorem Live.write {m w p : Nat} (h : Live len pole history true d m w p) (words : Array Word) :
    write words d = .ok () (d.rewritten (1 - p) (overlay words (d.slots.words (1 - p)))) ∧
      Live len pole history true
        (d.rewritten (1 - p) (overlay words (d.slots.words (1 - p)))) m w p := by
  have o := h.held
  have hother : 1 - p ≠ p := by
    have := h.slot
    omega
  exact ⟨write_ok o.filling o.target words, h.toSteady.rewritten (by omega) words, h.many, h.slot,
    h.playing, h.reads, h.draining, (Slots.words_setWords_ne _ _ hother).trans h.words,
    h.deck.same rfl rfl, h.irqs, h.underruns,
    .inl ⟨o.waiting, o.queued, o.nextFill, o.filling, o.target⟩⟩

theorem Sound.write (h : Sound len pole history true d) (words : Array Word) :
    ∃ d', write words d = .ok () d' ∧ Sound len pole history true d' := by
  rcases h with h | ⟨m, w, p, h⟩
  · obtain ⟨hd', hpre⟩ := h.write words
    exact ⟨_, hd', .inl hpre⟩
  · obtain ⟨hd', hlive⟩ := h.write words
    exact ⟨_, hd', .inr ⟨m, w, p, hlive⟩⟩

/-- The state once a frame has been handed over. -/
def handed (d : Double) (slot count : Nat) : Double :=
  { d with
    filling := none
    slots := d.filled d.slots slot count
    toDeck := d.toDeck.committed (d.outgoing d.slots slot count).2 d.slots.slotLength
    nextFill := 1 - d.nextFill }

/-- What is left to do once a frame has been handed over: start playback, or queue the frame. -/
theorem commit_eq {slot : Nat} (hshaped : d.slots.Shaped 2 len pole) (hslot : slot < 2)
    (hfilling : d.filling = some slot) (hstate : d.slots.state? slot = some .filling) :
    commit count d =
      if d.playing.isNone then
        if (d.handed slot count).slots.countIn .ready = 2 then
          (startSlot (1 - slot) >>= fun _ => modify fun d => { d with queued := some slot })
            (d.handed slot count)
        else .ok () (d.handed slot count)
      else if d.queued.isNone then .ok () { d.handed slot count with queued := some slot }
      else .ok () (d.handed slot count) := by
  have hsize : (d.outgoing d.slots slot count).1.size = (d.slots.words slot).size :=
    size_padded _ _ _
  have hlength := Deck.slotLength_filled hshaped hslot d.toDeck count
  -- The frame is written over the slot as a whole, and the slot counted by its length.
  have hrest : commit count d =
      (if d.playing.isNone then
        if (d.handed slot count).slots.countIn .ready = 2 then do
          startSlot (1 - slot)
          modify fun d => { d with queued := some slot }
        else pure ()
      else if d.queued.isNone then
        modify fun d => { d with queued := some slot }
      else pure () : Run Double Unit) (d.handed slot count) := by
    rw [commit, Run.get_bind]
    simp only [hfilling, Run.modify_bind]
    rw [Run.bind_ok (onSlots_ok (Slots.overwrite_ok (by exact hstate) _)),
      overlay_of_size_eq (by exact hsize),
      Run.bind_ok (onSlots_ok (Slots.finishFill_ok (by exact hstate)))]
    simp only [Run.modify_bind, Run.get_bind]
    rw [handed, ← hlength]
    rfl
  rw [hrest]
  split
  · split <;> rfl
  · split <;> rfl

theorem noted_commit {slot : Nat} {d' : Double} (hfilling : d.filling = some slot)
    (hplayed : d'.played = d.played) :
    port.noted (.commit count) d d' = [d.handover d.slots slot count] :=
  Port.noted_commit (congrArg (Option.map d.slots.words) hfilling) hplayed

/-- A frame handed over joins the history. -/
theorem Steady.handed {slot : Nat} (h : Steady len pole history d) (hslot : slot < 2)
    (count : Nat) :
    Steady len pole (history ++ [d.handover d.slots slot count]) (d.handed slot count) := by
  refine ⟨Deck.shaped_filled h.shaped hslot d.toDeck count, h.solo, h.ring, ?_, ?_, h.overruns,
    h.tagMismatches⟩
  · exact Deck.size_frame_append h.shaped hslot d.toDeck count h.frames rfl
  · rw [List.length_append, ← h.commits]
    rfl

/-- The first commit is kept until there is a second one. -/
theorem Preroll.commit_first (h : Preroll len pole [] true d) (count : Nat) :
    ∃ d', commit count d = .ok () d' ∧
      Preroll len pole (port.noted (.commit count) d d') false d' ∧
      d'.stats.waitSpins = d.stats.waitSpins := by
  have hfill : d.nextFill = 0 := h.loading.turn
  have hfilling : d.filling = some 0 := h.loading.writing.1
  have hstate : d.slots.state? 0 = some .filling := h.loading.writing.2
  have hplayed : d.played.size = 0 := by
    rw [h.played]
    rfl
  have hsteady := h.toSteady.handed (by decide : 0 < 2) count
  obtain ⟨hloading, hcount⟩ := h.loading.hand d.toDeck hplayed count
  -- Playback waits for two slots that are ready, and this is the first.
  refine ⟨d.handed 0 count, ?_, ?_, rfl⟩
  · rw [commit_eq h.shaped (by decide) hfilling hstate, h.playing, Option.isNone_none, if_pos rfl,
      if_neg (by rw [show (d.handed 0 count).slots.countIn .ready = 1 from hcount]; decide)]
  · rw [noted_commit hfilling (by rfl)]
    refine ⟨hsteady, h.stopped, h.played, h.hardwareWords, h.irqs, h.underruns, h.playing, h.queued,
      ?_⟩
    show Loading _ _ _ _ _ (1 - d.nextFill) none
    rw [hfill]
    exact hloading

/-- **The second commit starts playback** with the first frame. -/
theorem Preroll.commit_second {b : Commit} (hlen : 0 < len) (h : Preroll len pole [b] true d)
    (count : Nat) :
    ∃ d', commit count d = .ok () d' ∧
      Live len pole ([b] ++ port.noted (.commit count) d d') false d' 0 0 0 ∧
      d'.stats.waitSpins = d.stats.waitSpins := by
  have hfill : d.nextFill = 1 := h.loading.turn
  have hfilling : d.filling = some 1 := h.loading.writing.1
  have hstate : d.slots.state? 1 = some .filling := h.loading.writing.2
  have hplayed : d.played.size = 0 := by
    rw [h.played]
    rfl
  have hsteady := h.toSteady.handed (by decide : 1 < 2) count
  obtain ⟨hready₀, hready₁, hwords₀, hwords₁, hcount⟩ := h.loading.full d.toDeck count
  -- Both slots are ready now: the first is started, and the second is queued behind it.
  refine ⟨onto { d.handed 1 count with queued := some 1 } 0, ?_, ?_, rfl⟩
  · rw [commit_eq h.shaped (by decide) hfilling hstate, h.playing, Option.isNone_none, if_pos rfl,
      if_pos (by exact hcount), Run.bind_ok (startSlot_ready (by exact hready₀))]
    rfl
  · rw [noted_commit hfilling (by rfl)]
    refine live_onto ⟨hsteady.shaped, hsteady.solo, hsteady.ring, hsteady.frames, hsteady.commits,
      hsteady.overruns, hsteady.tagMismatches⟩ hlen (Nat.le_refl 2) (by decide) hwords₀
      ((Deck.playing_start hlen h.played h.hardwareWords _).same rfl rfl) h.irqs h.underruns
      (.inr ⟨_, rfl, ?_, rfl, rfl, ?_, rfl, ?_, hwords₁⟩)
    · show d.played.size < (0 + 1) * len
      omega
    · show 1 - d.nextFill = 0
      rw [hfill]
    · exact (Slots.state?_setState_ne _ _ (by decide)).trans hready₁

/-- **A commit in playback:** the frame waits for the end of the block. -/
theorem Live.commit {m w p : Nat} (h : Live len pole history true d m w p) (count : Nat) :
    ∃ d', commit count d = .ok () d' ∧
      Live len pole (history ++ port.noted (.commit count) d d') false d' m w p ∧
      d'.stats.waitSpins = d.stats.waitSpins := by
  have o := h.held
  have hslot := h.slot
  have hother : 1 - p ≠ p := by omega
  have hne : history ≠ [] := List.ne_nil_of_length_pos (by have := h.many; omega)
  refine ⟨{ d.handed (1 - p) count with queued := some (1 - p) }, ?_, ?_, rfl⟩
  · rw [commit_eq h.shaped (by omega) o.filling o.target, h.playing, o.queued]
    rfl
  rw [noted_commit o.filling (by rfl)]
  -- The commit falls into block `m`: the blocks up to this one stay the same.
  have hblocks : ∀ k ≤ m, block len pole history k =
      block len pole (history ++ [d.handover d.slots (1 - p) count]) k := fun k hk =>
    (block_append hne (Nat.le_trans (Nat.mul_le_mul_right len hk) h.deck.begun)).symm
  have hsteady := h.toSteady.handed (by omega : 1 - p < 2) count
  -- What is left is the slot that the frame waits in.
  refine ⟨⟨hsteady.shaped, hsteady.solo, hsteady.ring, hsteady.frames, hsteady.commits,
    hsteady.overruns, hsteady.tagMismatches⟩, ?_, h.slot, h.playing, h.reads, ?_, ?_, ?_, h.irqs,
    ?_, .inr ⟨d.handover d.slots (1 - p) count, ?_, ?_, rfl, rfl, ?_, rfl, ?_, ?_⟩⟩
  · rw [List.length_append]
    exact Nat.le_trans h.many (Nat.le_add_right _ _)
  · exact (Deck.state?_filled_ne d.toDeck count hother).trans h.draining
  · rw [← hblocks m (Nat.le_refl m), ← h.words]
    exact Deck.words_filled_ne d.toDeck count hother
  · exact (h.deck.congr hblocks).same rfl rfl
  · rw [← fadeCount_congr fun k hk => hblocks k (Nat.lt_succ_iff.mp hk)]
    exact h.underruns
  · rw [waiting_append hne (by exact h.deck.begun), o.waiting]
    rfl
  · exact h.deck.not_ended
  · show 1 - d.nextFill = p
    rw [o.nextFill]
    omega
  · exact Deck.state?_filled_self h.shaped (by omega) d.toDeck count
  · exact Deck.words_filled_self h.shaped (by omega) d.toDeck count

/-- **A commit** adds its frame to those that are played. -/
theorem Sound.commit (hlen : 0 < len) (h : Sound len pole history true d) (count : Nat) :
    ∃ d', commit count d = .ok () d' ∧
      Sound len pole (history ++ port.noted (.commit count) d d') false d' := by
  rcases h with h | ⟨m, w, p, h⟩
  · match history, h.loading.few, h with
    | [], _, h =>
      obtain ⟨d', hd', hpre, -⟩ := h.commit_first count
      exact ⟨d', hd', .inl hpre⟩
    | [b], _, h =>
      obtain ⟨d', hd', hlive, -⟩ := h.commit_second hlen count
      exact ⟨d', hd', .inr ⟨0, 0, 0, hlive⟩⟩
  · obtain ⟨d', hd', hlive, -⟩ := h.commit count
    exact ⟨d', hd', .inr ⟨m, w, p, hlive⟩⟩

end Double

end ConsolePipeline.Playback
