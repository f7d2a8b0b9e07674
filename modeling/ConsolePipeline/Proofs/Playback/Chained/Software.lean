import ConsolePipeline.Proofs.Playback.Chained.Time

namespace ConsolePipeline.Playback

open Stereo

/-!
# Chained ping-pong: the software side

Software fills the two slots in turn. The hardware does not wait for it: a slot that is not ready
when its turn comes is played with the decay that it holds.

* `Chained.preroll_new` — a new strategy.
* `Chained.Preroll.acquire`, `Live.acquire` — the place for the next frame, if there is one.
* `Chained.Preroll.write`, `Held.write` — the frame is filled in.
* `Chained.Preroll.commit_first`, `commit_second`, `Held.commit` — it is handed over.
-/

namespace Chained

variable {d : Chained} {len pole slot m w : Nat} {history : List Commit} {b : Commit}

/-! ### A new strategy -/

/-- The two channels are not the same one, as the second claim would be refused. -/
theorem channels_ne {engine : Engine} {first second : Nat}
    (hnew : new engine first second len pole = .ok d) : first ≠ second := by
  rintro rfl
  rw [new] at hnew
  obtain ⟨⟨a, e⟩, hfirst, hnew⟩ := Run.bind_eq_ok hnew
  obtain ⟨_, hsecond, -⟩ := Run.bind_eq_ok hnew
  rw [Engine.claim_again hfirst] at hsecond
  cases hsecond

/-- A new strategy waits for its first frame, with both channels loaded. -/
theorem preroll_new {engine : Engine} {first second : Nat}
    (hnew : new engine first second len pole = .ok d) (hquiet : engine.Quiet)
    (hne : first ≠ second) : Preroll len pole [] false d ∧ d.stats = {} := by
  rw [new] at hnew
  obtain ⟨⟨a, e⟩, hfirst, hnew⟩ := Run.bind_eq_ok hnew
  obtain ⟨⟨b, e'⟩, hsecond, hnew⟩ := Run.bind_eq_ok hnew
  obtain rfl : _ = d := Except.ok.inj hnew
  obtain ⟨hquiet, ha⟩ := hquiet.claim hfirst
  obtain ⟨hquiet, hb⟩ := hquiet.claim hsecond
  have hab : a ≠ b := by
    rintro rfl
    exact hne (ha.symm.trans hb)
  obtain ⟨hlinked, harmed₀, harmed₁⟩ := hquiet.coupled hab len
  refine ⟨⟨⟨Slots.shaped_new 2 len pole, hlinked, ?_, rfl, rfl, rfl⟩, harmed₀, harmed₁,
    rfl, rfl, rfl, rfl, rfl, Loading.start len pole⟩, rfl⟩
  exact fun c hc => absurd hc List.not_mem_nil

/-! ### The place for the next frame -/

/-- Software takes a slot that the hardware does not read. -/
def taken (d : Chained) (slot : Nat) : Chained :=
  { d with
    slots := d.slots.setState slot .filling
    filling := some slot }

/-- What is left to do once the wait is over. -/
theorem acquire_ok {s : Chained} (hlinked : d.engine.Linked (d.channelOf 0) (d.channelOf 1))
    (hwait : Run.waitWhile mustWait spin d.emptied.waitBound d.emptied = .ok () s)
    (hturn : s.nextFill = slot) (hfree : s.slots.state? slot = some .free) :
    acquire d = .ok ((s.taken slot).slots.words slot) (s.taken slot) := by
  subst hturn
  rw [acquire, Run.bind_ok (service_idle hlinked), Run.get_bind, Run.bind_ok hwait, Run.get_bind,
    Run.bind_ok (onSlots_ok (Slots.beginFill_ok hfree (.inl rfl))), Run.modify_bind, Run.get_bind]
  rfl

theorem mustWait_of_free (h : d.slots.state? d.nextFill = some .free) : d.mustWait = false := by
  simp [mustWait, h]

/-- Before playback there is nothing to wait for. -/
theorem Preroll.acquire (h : Preroll len pole history false d) :
    ∃ words d', acquire d = .ok words d' ∧ words.size = len ∧ Preroll len pole history true d' ∧
      d'.stats = d.stats := by
  have hempty : Preroll len pole history false d.emptied := h.alike d.alike_emptied
  have hfree : d.emptied.slots.state? d.emptied.nextFill = some .free := h.loading.target
  have hwait : Run.waitWhile mustWait spin d.emptied.waitBound d.emptied = .ok () d.emptied :=
    Run.waitWhile_done (mustWait_of_free hfree) _
  refine ⟨_, _, acquire_ok h.linked hwait rfl hfree, h.shaped.words_size _ h.loading.next_lt, ?_,
    rfl⟩
  exact ⟨⟨h.shaped.setState _ _, hempty.linked, h.frames, h.commits, h.overruns, h.tagMismatches⟩,
    hempty.first, hempty.second, h.played, h.hardwareWords, h.irqs, h.underruns, h.playing,
    h.loading.take⟩

/-- With more than one frame committed, none waits in block 0 but the second one. -/
theorem pos_of_waiting_nil (hmany : 2 ≤ history.length) (hwait : waiting len history m = []) :
    ∃ k, m = k + 1 := by
  cases m with
  | succ k => exact ⟨k, rfl⟩
  | zero =>
    have hlength : history.tail.length = 0 := congrArg List.length hwait
    rw [List.length_tail] at hlength
    omega

/-- If no frame waits, the next block is a decay. -/
theorem isFade_block_succ (hmany : 2 ≤ history.length) (hwait : waiting len history m = []) :
    (block len pole history (m + 1)).isFade = true := by
  obtain ⟨k, rfl⟩ := pos_of_waiting_nil hmany hwait
  rw [block_none (due_succ_of_nil hwait)]
  rfl

theorem Live.taken (h : Live len pole history d m w) (hwait : waiting len history m = [])
    (hturn : d.nextFill = (m + 1) % 2) :
    Held len pole history (d.taken ((m + 1) % 2)) m w := by
  have hne : (m + 1) % 2 ≠ m % 2 := by omega
  refine ⟨⟨⟨h.shaped.setState _ _, h.linked, h.frames, h.commits, h.overruns, h.tagMismatches⟩,
    h.many, h.playing, h.reads, h.armed, ?_, h.words, h.deck.same rfl rfl, h.irqs, h.underruns⟩,
    hwait, hturn, rfl, ?_⟩
  · exact (Slots.state?_setState_ne _ _ hne).trans h.draining
  · exact Slots.state?_setState_self h.shaped (Nat.mod_lt _ Nat.zero_lt_two) .filling

/-- **There is a place at once** if no frame waits and it is the turn of the slot that does not
    play. -/
theorem Live.acquire (h : Live len pole history d m w) (hwait : waiting len history m = [])
    (hturn : d.nextFill = (m + 1) % 2) :
    ∃ words d', acquire d = .ok words d' ∧ words.size = len ∧ Held len pole history d' m w ∧
      d'.stats.waitSpins = d.stats.waitSpins := by
  have hempty : Live len pole history d.emptied m w := h.alike d.alike_emptied
  have hfree : d.emptied.slots.state? ((m + 1) % 2) = some .free := by
    rw [hempty.next.state, isFade_block_succ h.many hwait]
    rfl
  have hdone : Run.waitWhile mustWait spin d.emptied.waitBound d.emptied = .ok () d.emptied :=
    Run.waitWhile_done (mustWait_of_free (by rw [← hturn] at hfree; exact hfree)) _
  refine ⟨_, _, acquire_ok h.linked hdone hturn hfree, ?_, hempty.taken hwait hturn, rfl⟩
  exact h.shaped.words_size _ (Nat.mod_lt _ Nat.zero_lt_two)

/-! ### The frame is filled in -/

/-- The state once the words of a slot have been replaced. -/
def rewritten (d : Chained) (slot : Nat) (words : Array Word) : Chained :=
  { d with slots := d.slots.setWords slot words }

theorem write_ok (hfilling : d.filling = some slot) (hstate : d.slots.state? slot = some .filling)
    (words : Array Word) :
    write words d = .ok () (d.rewritten slot (overlay words (d.slots.words slot))) := by
  rw [write, Run.get_bind, hfilling]
  exact onSlots_ok (Slots.overwrite_ok hstate words)

theorem Steady.rewritten (h : Steady len pole history d) (hslot : slot < 2) (words : Array Word) :
    Steady len pole history (d.rewritten slot (overlay words (d.slots.words slot))) := by
  have hsize : (overlay words (d.slots.words slot)).size = len := by
    rw [size_overlay, h.shaped.words_size slot hslot]
  exact ⟨h.shaped.setWords hsize _, h.linked, h.frames, h.commits, h.overruns, h.tagMismatches⟩

theorem Preroll.write (h : Preroll len pole history true d) (words : Array Word) :
    write words d = .ok () (d.rewritten d.nextFill (overlay words (d.slots.words d.nextFill))) ∧
      Preroll len pole history true
        (d.rewritten d.nextFill (overlay words (d.slots.words d.nextFill))) := by
  have hsize : (overlay words (d.slots.words d.nextFill)).size = len := by
    rw [size_overlay, h.shaped.words_size _ h.loading.next_lt]
  exact ⟨write_ok h.loading.held h.loading.target words,
    h.toSteady.rewritten h.loading.next_lt words, h.first, h.second, h.played, h.hardwareWords,
    h.irqs, h.underruns, h.playing, h.loading.rewrite hsize⟩

theorem Held.write (h : Held len pole history d m w) (words : Array Word) :
    write words d = .ok ()
        (d.rewritten ((m + 1) % 2) (overlay words (d.slots.words ((m + 1) % 2)))) ∧
      Held len pole history
        (d.rewritten ((m + 1) % 2) (overlay words (d.slots.words ((m + 1) % 2)))) m w := by
  have hne : (m + 1) % 2 ≠ m % 2 := by omega
  have hsteady := h.toSteady.rewritten (Nat.mod_lt (m + 1) Nat.zero_lt_two) words
  exact ⟨write_ok h.filling h.target words, ⟨hsteady, h.many, h.playing, h.reads, h.armed,
    h.draining, (Slots.words_setWords_ne _ _ hne).trans h.words, h.deck.same rfl rfl, h.irqs,
    h.underruns⟩, h.waiting, h.turn, h.filling, h.target⟩

/-! ### The frame is handed over -/

/-- The state once a frame has been handed over. -/
def handed (d : Chained) (slot count : Nat) : Chained :=
  { d with
    filling := none
    slots := d.filled d.slots slot count
    toDeck := d.toDeck.committed (d.outgoing d.slots slot count).2 d.slots.slotLength
    nextFill := 1 - d.nextFill }

/-- The state once the chain has been started at slot 0. -/
def begun (d : Chained) : Chained :=
  { d.onto 0 with engine := d.engine.start (d.channelOf 0) }

/-- What is left to do once a frame has been handed over: the second one starts the chain. -/
theorem commit_eq (hshaped : d.slots.Shaped 2 len pole) (hslot : slot < 2)
    (hfilling : d.filling = some slot) (hstate : d.slots.state? slot = some .filling)
    (count : Nat) :
    commit count d =
      if d.playing.isNone && decide ((d.handed slot count).slots.countIn .ready = 2) then
        (markPlaying 0 >>= fun _ => modify fun d =>
          { d with engine := d.engine.start (d.channelOf 0) }) (d.handed slot count)
      else .ok () (d.handed slot count) := by
  have hsize : (d.outgoing d.slots slot count).1.size = (d.slots.words slot).size :=
    size_padded _ _ _
  have hlength := Deck.slotLength_filled hshaped hslot d.toDeck count
  have hrest : commit count d =
      (if d.playing.isNone && decide ((d.handed slot count).slots.countIn .ready = 2) then do
        markPlaying 0
        modify fun d => { d with engine := d.engine.start (d.channelOf 0) }
      else pure () : Run Chained Unit) (d.handed slot count) := by
    rw [commit, Run.get_bind]
    simp only [hfilling, Run.modify_bind]
    rw [Run.bind_ok (onSlots_ok (Slots.overwrite_ok (by exact hstate) _)),
      overlay_of_size_eq (by exact hsize),
      Run.bind_ok (onSlots_ok (Slots.finishFill_ok (by exact hstate)))]
    simp only [Run.modify_bind, Run.get_bind]
    rw [handed, ← hlength]
    rfl
  rw [hrest]
  split <;> rfl

theorem noted_commit {count : Nat} {d' : Chained} (hfilling : d.filling = some slot)
    (hplayed : d'.played = d.played) :
    port.noted (.commit count) d d' = [d.handover d.slots slot count] :=
  Port.noted_commit (congrArg (Option.map d.slots.words) hfilling) hplayed

/-- A frame handed over joins the history. -/
theorem Steady.handed (h : Steady len pole history d) (hslot : slot < 2) (count : Nat) :
    Steady len pole (history ++ [d.handover d.slots slot count]) (d.handed slot count) := by
  refine ⟨Deck.shaped_filled h.shaped hslot d.toDeck count, h.linked, ?_, ?_, h.overruns,
    h.tagMismatches⟩
  · exact Deck.size_frame_append h.shaped hslot d.toDeck count h.frames rfl
  · rw [List.length_append, ← h.commits]
    rfl

/-- The first commit is kept until there is a second one. -/
theorem Preroll.commit_first (h : Preroll len pole [] true d) (count : Nat) :
    ∃ d', commit count d = .ok () d' ∧
      Preroll len pole (port.noted (.commit count) d d') false d' ∧
      d'.stats.waitSpins = d.stats.waitSpins := by
  have hfill : d.nextFill = 0 := h.loading.turn
  have hfilling : d.filling = some 0 := h.loading.writing.1
  have hstate : d.slots.state? 0 = some .filling := h.loading.writing.2
  have hplayed : d.played.size = 0 := by
    rw [h.played]
    rfl
  have hsteady := h.toSteady.handed (by decide : 0 < 2) count
  obtain ⟨hloading, hcount⟩ := h.loading.hand d.toDeck hplayed count
  refine ⟨d.handed 0 count, ?_, ?_, rfl⟩
  · rw [commit_eq h.shaped (by decide) hfilling hstate, h.playing]
    show (if decide ((d.filled d.slots 0 count).countIn .ready = 2) then _ else _) = _
    rw [hcount]
    rfl
  · rw [noted_commit hfilling (by rfl)]
    refine ⟨hsteady, h.first, h.second, h.played, h.hardwareWords, h.irqs, h.underruns,
      h.playing, ?_⟩
    show Loading _ _ _ _ _ (1 - d.nextFill) none
    rw [hfill]
    exact hloading

/-- The chain has been loaded from the beginning: one start, and block 0 begins. -/
theorem Preroll.poised {history' : List Commit} (hlen : 0 < len)
    (h : Preroll len pole history true d) (hsteady : Steady len pole history' (d.handed 1 count))
    (hmany : 2 ≤ history'.length) :
    Poised len pole history' { d.handed 1 count with engine := d.engine.start (d.channelOf 0) }
      0 where
  shaped := hsteady.shaped
  linked := h.linked.modifyChannel (f := Channel.start) rfl
  frames := hsteady.frames
  commits := hsteady.commits
  overruns := hsteady.overruns
  tagMismatches := hsteady.tagMismatches
  many := hmany
  reads := by
    show ((d.engine.start (d.channelOf 0)).channel (d.channelOf 0)).Reads 0 0 len
    rw [Engine.start, Engine.channels_modifyChannel_self]
    exact h.first.start hlen
  armed := by
    show ((d.engine.start (d.channelOf 0)).channel (d.channelOf 1)).Armed 1 len
    rw [Engine.start, Engine.channels_modifyChannel_ne _ _ h.linked.ne.symm]
    exact h.second
  deck := (Deck.playing_start hlen h.played h.hardwareWords _).same rfl rfl
  irqs := h.irqs
  underruns := h.underruns

/-- **The second commit starts the chain** with the first frame. -/
theorem Preroll.commit_second (hlen : 0 < len) (h : Preroll len pole [b] true d) (count : Nat) :
    ∃ d', commit count d = .ok () d' ∧
      Live len pole ([b] ++ port.noted (.commit count) d d') d' 0 0 ∧
      d'.stats.waitSpins = d.stats.waitSpins := by
  have hfill : d.nextFill = 1 := h.loading.turn
  have hfilling : d.filling = some 1 := h.loading.writing.1
  have hstate : d.slots.state? 1 = some .filling := h.loading.writing.2
  have hplayed : d.played.size = 0 := by
    rw [h.played]
    rfl
  -- Both slots hold a frame now, in the order in which they will be played.
  obtain ⟨hready₀, hready₁, hwords₀, hwords₁, hcount⟩ := h.loading.full d.toDeck count
  have hholds : (d.handed 1 count).Holds 0 (.frame b.frame) := ⟨hready₀, hwords₀⟩
  have hsteady := h.toSteady.handed (by decide : 1 < 2) count
  have hpoised := h.poised hlen hsteady (Nat.le_refl 2)
  refine ⟨(d.handed 1 count).begun, ?_, ?_, rfl⟩
  · rw [commit_eq h.shaped (by decide) hfilling hstate, h.playing]
    show (if decide ((d.filled d.slots 1 count).countIn .ready = 2) then _ else _) = _
    rw [hcount, Run.bind_ok (markPlaying_ok hholds)]
    rfl
  rw [noted_commit hfilling (by rfl)]
  refine ⟨hpoised.start ⟨hready₀, hwords₀⟩, rfl,
    ⟨(Slots.state?_setState_ne _ _ (by decide)).trans hready₁, hwords₁⟩,
    .one (d.handover d.slots 1 count) rfl ?_ ?_⟩
  · show d.played.size < (0 + 1) * len
    omega
  · show 1 - d.nextFill = 0
    rw [hfill]

/-- A frame handed over in the slot that does not play leaves the block that plays as it was. -/
theorem Running.handed (h : Running len pole history d m w) (count : Nat) :
    Running len pole (history ++ [d.handover d.slots ((m + 1) % 2) count])
      (d.handed ((m + 1) % 2) count) m w := by
  have hother : (m + 1) % 2 ≠ m % 2 := by omega
  have hsteady := h.toSteady.handed (Nat.mod_lt (m + 1) Nat.zero_lt_two) count
  -- The commit falls into block `m`: the blocks up to this one stay the same.
  have hblocks : ∀ k ≤ m, block len pole history k =
      block len pole (history ++ [d.handover d.slots ((m + 1) % 2) count]) k := fun k hk =>
    (block_append h.many (Nat.le_trans (Nat.mul_le_mul_right len hk) h.deck.begun)).symm
  refine ⟨hsteady, ?_, h.playing, h.reads, h.armed, ?_, ?_, ?_, h.irqs, ?_⟩
  · rw [List.length_append]
    exact Nat.le_trans h.many (Nat.le_add_right _ _)
  · exact (Deck.state?_filled_ne d.toDeck count hother).trans h.draining
  · rw [← hblocks m (Nat.le_refl m), ← h.words]
    exact Deck.words_filled_ne d.toDeck count hother
  · exact (h.deck.congr hblocks).same rfl rfl
  · rw [← fadeCount_congr fun k hk => hblocks k (Nat.lt_succ_iff.mp hk)]
    exact h.underruns

/-- **A commit in playback:** the frame is what the next block plays. -/
theorem Held.commit (h : Held len pole history d m w) (count : Nat) :
    ∃ d', commit count d = .ok () d' ∧
      Live len pole (history ++ port.noted (.commit count) d d') d' m w ∧
      d'.stats.waitSpins = d.stats.waitSpins := by
  have hslot : (m + 1) % 2 < 2 := Nat.mod_lt _ Nat.zero_lt_two
  have hmany := h.many
  have hne : history ≠ [] := List.ne_nil_of_length_pos (by omega)
  refine ⟨d.handed ((m + 1) % 2) count, ?_, ?_, rfl⟩
  · rw [commit_eq h.shaped hslot h.filling h.target, h.playing]
    rfl
  rw [noted_commit h.filling (by rfl)]
  have hwait : Playback.waiting len
      (history ++ [d.handover d.slots ((m + 1) % 2) count]) m =
      [d.handover d.slots ((m + 1) % 2) count] := by
    rw [waiting_append hne (by exact h.deck.begun), h.waiting]
    rfl
  refine ⟨h.toRunning.handed count, rfl, ?_, .one _ hwait h.deck.not_ended ?_⟩
  · -- Nothing else waits, so the next block plays this frame.
    obtain ⟨k, rfl⟩ := pos_of_waiting_nil hmany h.waiting
    rw [block_due (due_succ_of_lt hwait h.deck.not_ended)]
    exact ⟨Deck.state?_filled_self h.shaped hslot d.toDeck count,
      Deck.words_filled_self h.shaped hslot d.toDeck count⟩
  · show 1 - d.nextFill = m % 2
    rw [h.turn]
    omega

end Chained

end ConsolePipeline.Playback
