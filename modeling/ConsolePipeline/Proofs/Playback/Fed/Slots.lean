import ConsolePipeline.Proofs.Playback.Chained.Release
import ConsolePipeline.Proofs.Playback.Flow.Slots

namespace ConsolePipeline.Playback

open Run Stereo

/-!
# Waiting never starves the hardware: two slots

Software that does nothing but acquire, write and commit lets time pass only while it waits for a
slot. A wait is over in the round in which the block that plays ends, and as a slot has no fewer
words than a round, the next block has only just begun by then. That block plays the frame that
waited, so there is never a block without a frame.

* `dueCount_next` — the next block plays a frame, and then every block so far has.
* `Deck.Fed` — nothing has been played but the frames, and not too little; `Fed.of_gapless` — it
  follows if every block so far plays a frame.
* `Double.Fed`, `Chained.Fed` — the states between calls; `Fed.acquire`, `Fed.write`, `Fed.commit`
  — what each call makes of them.
-/

/-! ### Blocks that all play frames -/

/-- The words of the frames that have been handed over. -/
def wordsOf (history : List Commit) : List Word :=
  history.flatMap fun c => c.frame.toList

variable {len pole m m' w w' n count : Nat} {history : List Commit} {holding : Bool}
  {blocks : Nat → Block}

theorem length_wordsOf (hframes : ∀ c ∈ history, c.frame.size = len) :
    (wordsOf history).length = history.length * len := by
  induction history with
  | nil => rw [List.length_nil, Nat.zero_mul]; rfl
  | cons c rest ih =>
    have hsize : c.frame.toList.length = len := hframes c List.mem_cons_self
    have hrest := ih fun b hb => hframes b (List.mem_cons_of_mem c hb)
    rw [wordsOf, List.flatMap_cons, List.length_append, hsize, List.length_cons, Nat.succ_mul]
    rw [wordsOf] at hrest
    omega

/-- If as many frames as blocks have been due, each block has had one. -/
theorem dueCount_of_lt (h : dueCount len history n = n) {k : Nat} (hk : k < n) :
    (due len history k).isSome := by
  have hall : ((List.range n).countP fun k => (due len history k).isSome) =
      (List.range n).length := by
    rw [List.length_range]
    exact h
  exact List.countP_eq_length.mp hall k (List.mem_range.mpr hk)

theorem dueCount_pred (h : dueCount len history (n + 1) = n + 1) : dueCount len history n = n := by
  have hlast := dueCount_of_lt h n.lt_succ_self
  rw [dueCount_succ, if_pos hlast] at h
  exact Nat.succ.inj h

/-- **The next block plays a frame,** if one waited and none does any more. -/
theorem dueCount_next (h : dueCount len history (m + 1) = m + 1)
    (hwaiting : waiting len history m ≠ []) (hnil : waiting len history m' = [])
    (hle : m ≤ m') (hnext : m' ≤ m + 1) : dueCount len history (m' + 1) = m' + 1 := by
  obtain rfl : m' = m + 1 := by
    by_contra hne
    obtain rfl : m' = m := by omega
    exact hwaiting hnil
  obtain ⟨c, hdue, -⟩ | ⟨-, hsame⟩ := waiting_eq_cons_or len m history
  · rw [dueCount_succ, hdue, Option.isSome_some, if_pos rfl, h]
  · exact absurd (hsame.symm.trans hnil) hwaiting

/-- **Blocks that all play frames** play the frames in their order. -/
theorem opening_of_dueCount (h : dueCount len history n = n)
    (hblocks : ∀ k c, due len history k = some c → blocks k = .frame c.frame)
    (hframes : ∀ c ∈ history, c.frame.size = len) :
    opening (blockWord len blocks) (n * len) = wordsOf (history.take n) := by
  induction n with
  | zero => rw [Nat.zero_mul]; rfl
  | succ n ih =>
    have hrank := dueCount_pred h
    obtain ⟨c, hdue⟩ := Option.isSome_iff_exists.mp (dueCount_of_lt h n.lt_succ_self)
    have hget := getElem?_dueCount hdue
    rw [hrank] at hget
    have hsize : c.frame.size = len := hframes c (due_mem hdue)
    have hwords : c.frame = (blocks n).words := by rw [hblocks n c hdue]; rfl
    have hblock := extract_block (w := 0) (n := len) hwords hsize (Nat.zero_add len).le
    rw [Nat.zero_add, ← hsize, Array.extract_size] at hblock
    rw [Nat.succ_mul, opening_add, ih hrank, List.take_add_one, hget, wordsOf, wordsOf,
      List.flatMap_append, Option.toList_some, List.flatMap_singleton, hblock, hsize]
    rfl

/-! ### What should hold -/

/-- **The hardware has been fed:** it has played `lead` words of silence and then the frames,
    without a gap, and once a frame has been handed over it is not more than `slack` words
    behind. -/
structure Deck.Fed (len lead slack : Nat) (history : List Commit) (holding : Bool) (d : Deck) :
    Prop where
  underruns : d.stats.underruns = 0
  tagMismatches : d.stats.tagMismatches = 0
  idleWords : d.stats.idleWords = 0
  frames : ∀ c ∈ history, c.frame.size = len
  played : d.played.toList <+: List.replicate lead silence ++ wordsOf history
  behind : holding = false → lead + history.length * len ≤ d.played.size + slack

namespace Deck

variable {d d' : Deck}

theorem played_of_clock (h : d'.clock = d.clock) : d'.played = d.played :=
  congrArg Prod.fst h

theorem idle_of_clock (h : d'.clock = d.clock) : d'.stats.idleWords = d.stats.idleWords :=
  congrArg (fun k => k.2.2) h

/-- Of the places in the stream, the one in the lower block comes first. -/
theorem block_le (hw' : w' < len) (h : m * len + w ≤ m' * len + w') : m ≤ m' := by
  by_contra hlt
  have hle : (m' + 1) * len ≤ m * len := Nat.mul_le_mul_right len (by omega)
  rw [Nat.succ_mul] at hle
  omega

/-- Time that is not too long ends in the same block or in the next one. -/
theorem Playing.next_block (h : d.Playing len blocks m w) (h' : d'.Playing len blocks m' w')
    (hle : d.played.size ≤ d'.played.size)
    (hlt : d'.played.size < d.played.size + (len - w) + len) :
    m ≤ m' ∧ m' ≤ m + 1 := by
  have hword := h.word
  rw [h.size, h'.size] at hle hlt
  have hend : m' * len + 0 ≤ (m + 1) * len + (len - 1) := by
    rw [Nat.succ_mul]
    omega
  exact ⟨block_le h'.word hle, block_le (by omega) hend⟩

/-- Before playback there is nothing to be behind with. -/
theorem Fed.of_silent (hunderruns : d.stats.underruns = 0)
    (htags : d.stats.tagMismatches = 0) (hidle : d.stats.idleWords = 0)
    (hframes : ∀ c ∈ history, c.frame.size = len) (hplayed : d.played = #[])
    (hfew : history.length < 2) : d.Fed len 0 (2 * len) history holding := by
  refine ⟨hunderruns, htags, hidle, hframes, ?_, fun _ => ?_⟩
  · rw [hplayed]
    exact List.nil_prefix
  · have hle : history.length * len ≤ 2 * len := Nat.mul_le_mul_right len (by omega)
    omega

/-- **The hardware has been fed,** if every block so far plays a frame, and at most one waits. -/
theorem Fed.of_gapless (hdeck : d.Playing len blocks m w)
    (hdue : dueCount len history (m + 1) = m + 1) (hne : history ≠ [])
    (hblocks : ∀ k c, due len history k = some c → blocks k = .frame c.frame)
    (hwaiting : (waiting len history m).length ≤ 1)
    (hunderruns : d.stats.underruns = fadeCount blocks (m + 1))
    (htags : d.stats.tagMismatches = 0) (hidle : d.stats.idleWords = 0)
    (hframes : ∀ c ∈ history, c.frame.size = len) : d.Fed len 0 (2 * len) history holding := by
  have hsize := hdeck.size
  refine ⟨?_, htags, hidle, hframes, ?_, fun _ => ?_⟩
  · -- A block that plays a frame is no decay.
    rw [hunderruns, fadeCount, List.countP_eq_zero]
    intro k hk
    obtain ⟨c, hc⟩ := Option.isSome_iff_exists.mp (dueCount_of_lt hdue (List.mem_range.mp hk))
    rw [hblocks k c hc]
    exact Bool.false_ne_true
  · have hwhole := opening_of_dueCount hdue hblocks hframes
    obtain ⟨k, hk⟩ : ∃ k, (m + 1) * len = d.played.size + k :=
      Nat.exists_eq_add_of_le (Nat.le_of_lt hdeck.not_ended)
    rw [hk, opening_add, ← hdeck.played] at hwhole
    have hbegun : d.played.toList <+: wordsOf (history.take (m + 1)) := ⟨_, hwhole⟩
    have hall : wordsOf (history.take (m + 1)) <+: wordsOf history := by
      refine ⟨wordsOf (history.drop (m + 1)), ?_⟩
      rw [wordsOf, wordsOf, ← List.flatMap_append, List.take_append_drop]
      rfl
    exact hbegun.trans hall
  · have hlength : history.length = (waiting len history m).length +
        dueCount len history (m + 1) := length_eq_waiting_add hne m
    rw [hdue] at hlength
    have hle : history.length * len ≤ (m + 2) * len := Nat.mul_le_mul_right len (by omega)
    rw [Nat.add_mul] at hle
    omega

end Deck

/-- A commit made in block `m` leaves the blocks before as they were, and then waits. -/
theorem dueCount_commit {c : Commit} (hne : history ≠ []) (hentry : m * len ≤ c.entry)
    (h : dueCount len history (m + 1) = m + 1) :
    dueCount len (history ++ [c]) (m + 1) = m + 1 ∧ waiting len (history ++ [c]) m ≠ [] := by
  refine ⟨?_, ?_⟩
  · rw [dueCount_append hne fun k hk => ?_, h]
    exact Nat.le_trans (Nat.mul_le_mul_right len (Nat.lt_succ_iff.mp hk)) hentry
  · rw [waiting_append hne hentry]
    exact List.append_ne_nil_of_right_ne_nil _ (List.cons_ne_nil c [])

/-! ### Double buffering -/

namespace Double

variable {d : Double} {c : Call}

/-- A commit takes no time. -/
theorem clock_commit {k : Array Word × Nat × Nat} (count : Nat) :
    Preserves (Clock k) (commit count) := by
  refine .get_bind fun _ _ => ?_
  split
  · exact .modify fun _ hd => hd
  · refine .bind (.modify fun _ hd => hd) fun _ => ?_
    refine .bind (.within fun _ _ _ hs _ => hs) fun _ => ?_
    refine .bind (.within fun _ _ _ hs _ => hs) fun _ => ?_
    refine .bind (.modify fun _ hd => hd) fun _ => .get_bind fun _ _ => ?_
    split
    · split
      · exact .bind (clock_startSlot _) fun _ => .modify fun _ hd => hd
      · exact .pure _
    · split
      · exact .modify fun _ hd => hd
      · exact .pure _

/-- **The states between calls,** if no time passes but in waits: every block so far plays a frame,
    and while no slot is held another one waits. -/
def Fed (len pole : Nat) (history : List Commit) (holding : Bool) (d : Double) : Prop :=
  d.stats.idleWords = 0 ∧ (Preroll len pole history holding d ∨
    ∃ m w p, Live len pole history holding d m w p ∧ dueCount len history (m + 1) = m + 1 ∧
      (holding = false → waiting len history m ≠ []))

theorem Fed.deck (h : Fed len pole history holding d) :
    d.toDeck.Fed len 0 (2 * len) history holding := by
  obtain ⟨hidle, h | ⟨m, w, p, h, hdue, -⟩⟩ := h
  · exact .of_silent h.underruns h.tagMismatches hidle h.frames h.played h.loading.few
  · have hmany := h.many
    have hwaiting : (waiting len history m).length ≤ 1 := by
      rcases h.next with o | ⟨c, q⟩
      · rw [o.waiting]
        exact Nat.zero_le 1
      · rw [q.waiting]
        exact Nat.le_refl 1
    exact .of_gapless h.deck hdue (List.ne_nil_of_length_pos (by omega)) (fun _ _ => block_of_due)
      hwaiting h.underruns h.tagMismatches hidle h.frames

/-- **A wait ends in the next block,** which plays the frame that waited. -/
theorem Fed.acquire (hround : waitWords ≤ len) (hlen : len ≤ regionWords)
    (h : Fed len pole history false d) :
    ∃ words d', Double.acquire d = .ok words d' ∧ Fed len pole history true d' := by
  obtain ⟨hidle, h | ⟨m, w, p, h, hdue, hwaiting⟩⟩ := h
  · obtain ⟨words, d', hd', -, hpre, hstats⟩ := h.acquire
    exact ⟨words, d', hd', by rw [hstats, hidle], .inl hpre⟩
  · obtain ⟨words, d', m', w', p', hd', -, hlive, -, hsize, hsame⟩ := h.acquire hlen
    -- The last round begins before the block ends, so the wait outlasts it by less than a round.
    have hrounds : waitWords * roundsLeft len history m w < len - w + waitWords := by
      rw [roundsLeft, if_neg (hwaiting rfl), waitRounds, waitWords]
      omega
    obtain ⟨hle, hnext⟩ := h.deck.next_block hlive.deck (by omega) (by omega)
    exact ⟨words, d', hd', hsame.trans hidle, .inr ⟨m', w', p', hlive,
      dueCount_next hdue (hwaiting rfl) hlive.held.waiting hle hnext, fun h => Bool.noConfusion h⟩⟩

theorem Fed.write (h : Fed len pole history true d) (words : Array Word) :
    ∃ d', Double.write words d = .ok () d' ∧ Fed len pole history true d' := by
  obtain ⟨hidle, h | ⟨m, w, p, h, hdue, -⟩⟩ := h
  · obtain ⟨hd', hpre⟩ := h.write words
    exact ⟨_, hd', hidle, .inl hpre⟩
  · obtain ⟨hd', hlive⟩ := h.write words
    exact ⟨_, hd', hidle, .inr ⟨m, w, p, hlive, hdue, fun h => Bool.noConfusion h⟩⟩

/-- **A frame that is handed over waits** for the next block. -/
theorem Fed.commit (hpos : 0 < len) (h : Fed len pole history true d) (count : Nat) :
    ∃ d', Double.commit count d = .ok () d' ∧
      Fed len pole (history ++ port.noted (.commit count) d d') false d' := by
  have hclock : ∀ {d'}, Double.commit count d = .ok () d' → d'.toDeck.clock = d.toDeck.clock :=
    fun hd' => clock_commit count _ _ _ rfl hd'
  obtain ⟨hidle, h | ⟨m, w, p, h, hdue, -⟩⟩ := h
  · -- Before playback a commit is the first, which is kept, or the second, which starts it.
    match history, h.loading.few, h with
    | [], _, h =>
      obtain ⟨d', hd', hpre, -⟩ := h.commit_first count
      exact ⟨d', hd', (Deck.idle_of_clock (hclock hd')).trans hidle, .inl hpre⟩
    | [b], _, h =>
      obtain ⟨d', hd', hlive, -⟩ := h.commit_second hpos count
      have hmany := hlive.many
      refine ⟨d', hd', (Deck.idle_of_clock (hclock hd')).trans hidle, .inr ⟨0, 0, 0, hlive,
        dueCount_one (List.cons_ne_nil b _), fun _ hnil => ?_⟩⟩
      rw [List.singleton_append, List.length_cons, show port.noted (.commit count) d d' = [] from
        hnil] at hmany
      exact absurd hmany (by decide)
  · obtain ⟨d', hd', hlive, -⟩ := h.commit count
    have hmany := h.many
    have hnoted : port.noted (.commit count) d d' = [d.handover d.slots (1 - p) count] :=
      noted_commit h.held.filling (Deck.played_of_clock (hclock hd'))
    -- The commit is made while block `m` is played, so its frame waits for the next block.
    have hentry : m * len ≤ (d.handover d.slots (1 - p) count).entry := h.deck.begun
    rw [hnoted] at hlive
    obtain ⟨hdue', hwaiting⟩ := dueCount_commit (List.ne_nil_of_length_pos (by omega)) hentry hdue
    refine ⟨d', hd', (Deck.idle_of_clock (hclock hd')).trans hidle, .inr ⟨m, w, p, ?_⟩⟩
    rw [hnoted]
    exact ⟨hlive, hdue', fun _ => hwaiting⟩

end Double

/-! ### Chained ping-pong -/

namespace Chained

variable {d : Chained} {c : Call}

/-- A commit takes no time. -/
theorem clock_commit {k : Array Word × Nat × Nat} (count : Nat) :
    Preserves (Clock k) (commit count) := by
  refine .get_bind fun _ _ => ?_
  split
  · exact .modify fun _ hd => hd
  · refine .bind (.modify fun _ hd => hd) fun _ => ?_
    refine .bind (.within fun _ _ _ hs _ => hs) fun _ => ?_
    refine .bind (.within fun _ _ _ hs _ => hs) fun _ => ?_
    refine .bind (.modify fun _ hd => hd) fun _ => .get_bind fun _ _ => ?_
    split
    · exact .bind (clock_markPlaying _) fun _ => .modify fun _ hd => hd
    · exact .pure _

/-- **A wait for the slot that plays ends in the next block,** if a slot has no fewer words than a
    round of it. -/
theorem Live.acquire_next (hround : waitWords ≤ len) (hlen : len ≤ regionWords)
    (h : Live len pole history d m w) (hwaiting : waiting len history m ≠ []) :
    ∃ words d' m' w', Chained.acquire d = .ok words d' ∧ Held len pole history d' m' w' ∧ m ≤ m' ∧
      m' ≤ m + 1 ∧ d'.stats.idleWords = d.stats.idleWords := by
  have hpos : 0 < len := Nat.lt_of_lt_of_le (by decide) hround
  have hempty : Live len pole history d.emptied m w := h.alike d.alike_emptied
  have hturn : d.nextFill = m % 2 := by
    by_contra hturn
    exact hwaiting (h.waiting_nil hturn)
  have hno : ¬len ∣ 32 := fun hdvd => by
    have hle := Nat.le_of_dvd (by decide) hdvd
    rw [waitWords] at hround
    omega
  obtain ⟨s, -, -, hs, -, -⟩ := hempty.wait hpos hlen hno
  -- A round that is needed begins in the block that is waited for.
  let P (s : Chained) : Prop := (∃ m' w', Live len pole history s m' w' ∧ m ≤ m' ∧ m' ≤ m + 1) ∧
    s.nextFill = d.nextFill ∧ s.stats.idleWords = d.stats.idleWords
  have hspin : ∀ {s s'}, P s → s.mustWait = true → Chained.spin s = .ok () s' → P s' := by
    rintro s s' ⟨⟨m', w', hlive, hle, hnext⟩, hfill, hidle⟩ hmust hrun
    have hslot := hlive.mustWait_iff.mp hmust
    obtain rfl : m' = m := by omega
    obtain ⟨t, ht, ⟨m', w', hlive'⟩, hsize, hfill', hidle'⟩ := hlive.spin hlen
    cases ht.symm.trans hrun
    have hword := hlive.deck.word
    obtain ⟨hle, hnext⟩ := hlive.deck.next_block hlive'.deck (by omega) (by omega)
    exact ⟨⟨m', w', hlive', hle, hnext⟩, hfill'.trans hfill, hidle'.trans hidle⟩
  obtain ⟨⟨⟨m', w', hlive, hle, hnext⟩, -, hidle⟩, hdone⟩ :=
    waitWhile_rounds hspin ⟨⟨m, w, hempty, le_refl m, Nat.le_succ m⟩, rfl, rfl⟩ hs
  have hother : s.nextFill ≠ m' % 2 := by
    intro hslot
    rw [hlive.mustWait_iff.mpr hslot] at hdone
    cases hdone
  obtain ⟨words, d', hd', hheld, hsame⟩ := hlive.taken_ok h.linked hother hs
  exact ⟨words, d', m', w', hd', hheld, hle, hnext, by rw [hsame]; exact hidle⟩

/-- **The states between calls,** if no time passes but in waits: every block so far plays a frame,
    and while no slot is held another one waits. -/
def Fed (len pole : Nat) (history : List Commit) (holding : Bool) (d : Chained) : Prop :=
  d.stats.idleWords = 0 ∧ (Preroll len pole history holding d ∨
    ∃ m w, (if holding then Held len pole history d m w else Live len pole history d m w) ∧
      dueCount len history (m + 1) = m + 1 ∧ (holding = false → waiting len history m ≠ []))

theorem Fed.deck (h : Fed len pole history holding d) :
    d.toDeck.Fed len 0 (2 * len) history holding := by
  obtain ⟨hidle, h | ⟨m, w, h, hdue, -⟩⟩ := h
  · exact .of_silent h.underruns h.tagMismatches hidle h.frames h.played h.loading.few
  · have hrunning : Running len pole history d m w ∧ (waiting len history m).length ≤ 1 := by
      cases holding with
      | false =>
        have hlive : Live len pole history d m w := h
        refine ⟨hlive.toRunning, ?_⟩
        cases hlive.queue with
        | empty hwait _ => rw [hwait]; exact Nat.zero_le 1
        | one c hwait _ _ => rw [hwait]; exact Nat.le_refl 1
      | true =>
        have hheld : Held len pole history d m w := h
        refine ⟨hheld.toRunning, ?_⟩
        rw [hheld.waiting]
        exact Nat.zero_le 1
    obtain ⟨hrunning, hwaiting⟩ := hrunning
    have hmany := hrunning.many
    exact .of_gapless hrunning.deck hdue (List.ne_nil_of_length_pos (by omega))
      (fun _ _ => block_of_due) hwaiting hrunning.underruns hrunning.tagMismatches hidle
      hrunning.frames

/-- **A wait ends in the next block,** which plays the frame that waited. -/
theorem Fed.acquire (hround : waitWords ≤ len) (hlen : len ≤ regionWords)
    (h : Fed len pole history false d) :
    ∃ words d', Chained.acquire d = .ok words d' ∧ Fed len pole history true d' := by
  obtain ⟨hidle, h | ⟨m, w, h, hdue, hwaiting⟩⟩ := h
  · obtain ⟨words, d', hd', -, hpre, hstats⟩ := h.acquire
    exact ⟨words, d', hd', by rw [hstats, hidle], .inl hpre⟩
  · have hlive : Live len pole history d m w := h
    obtain ⟨words, d', m', w', hd', hheld, hle, hnext, hsame⟩ :=
      hlive.acquire_next hround hlen (hwaiting rfl)
    exact ⟨words, d', hd', hsame.trans hidle, .inr ⟨m', w', hheld,
      dueCount_next hdue (hwaiting rfl) hheld.waiting hle hnext, fun h => Bool.noConfusion h⟩⟩

theorem Fed.write (h : Fed len pole history true d) (words : Array Word) :
    ∃ d', Chained.write words d = .ok () d' ∧ Fed len pole history true d' := by
  obtain ⟨hidle, h | ⟨m, w, h, hdue, -⟩⟩ := h
  · obtain ⟨hd', hpre⟩ := h.write words
    exact ⟨_, hd', hidle, .inl hpre⟩
  · have hheld : Held len pole history d m w := h
    obtain ⟨hd', hheld'⟩ := hheld.write words
    exact ⟨_, hd', hidle, .inr ⟨m, w, hheld', hdue, fun h => Bool.noConfusion h⟩⟩

/-- **A frame that is handed over waits** for the next block. -/
theorem Fed.commit (hpos : 0 < len) (h : Fed len pole history true d) (count : Nat) :
    ∃ d', Chained.commit count d = .ok () d' ∧
      Fed len pole (history ++ port.noted (.commit count) d d') false d' := by
  have hclock : ∀ {d'}, Chained.commit count d = .ok () d' → d'.toDeck.clock = d.toDeck.clock :=
    fun hd' => clock_commit count _ _ _ rfl hd'
  obtain ⟨hidle, h | ⟨m, w, h, hdue, -⟩⟩ := h
  · -- Before playback a commit is the first, which is kept, or the second, which starts it.
    match history, h.loading.few, h with
    | [], _, h =>
      obtain ⟨d', hd', hpre, -⟩ := h.commit_first count
      exact ⟨d', hd', (Deck.idle_of_clock (hclock hd')).trans hidle, .inl hpre⟩
    | [b], _, h =>
      obtain ⟨d', hd', hlive, -⟩ := h.commit_second hpos count
      have hmany := hlive.many
      refine ⟨d', hd', (Deck.idle_of_clock (hclock hd')).trans hidle, .inr ⟨0, 0, hlive,
        dueCount_one (List.cons_ne_nil b _), fun _ hnil => ?_⟩⟩
      rw [List.singleton_append, List.length_cons, show port.noted (.commit count) d d' = [] from
        hnil] at hmany
      exact absurd hmany (by decide)
  · have hheld : Held len pole history d m w := h
    obtain ⟨d', hd', hlive, -⟩ := hheld.commit count
    have hmany := hheld.many
    have hnoted : port.noted (.commit count) d d' = [d.handover d.slots ((m + 1) % 2) count] :=
      noted_commit hheld.filling (Deck.played_of_clock (hclock hd'))
    -- The commit is made while block `m` is played, so its frame waits for the next block.
    have hentry : m * len ≤ (d.handover d.slots ((m + 1) % 2) count).entry := hheld.deck.begun
    rw [hnoted] at hlive
    obtain ⟨hdue', hwaiting⟩ := dueCount_commit (List.ne_nil_of_length_pos (by omega)) hentry hdue
    refine ⟨d', hd', (Deck.idle_of_clock (hclock hd')).trans hidle, .inr ⟨m, w, ?_⟩⟩
    rw [hnoted]
    exact ⟨hlive, hdue', fun _ => hwaiting⟩

end Chained

end ConsolePipeline.Playback
