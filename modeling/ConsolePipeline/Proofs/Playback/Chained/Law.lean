import ConsolePipeline.Proofs.Playback.Chained.Wait

namespace ConsolePipeline.Playback

open Stereo

/-!
# Chained ping-pong plays every frame once, in order

As long as no time passes while software holds a slot, what has been played follows from the history
of commits. A run can only end early in a wait that the hardware outruns: a round of it is then a
whole number of passes over both slots.

* `Chained.framesIn_append_waiting` — the blocks play the frames in the order of their commits.
* `Chained.Drains` — one channel runs, and reads the slot that is drained.
* `Chained.Lawful` — what holds of the words played, of the counters and of the channels.
* `Chained.plays_blocks_in_turn` — it holds after every run of calls.
-/

namespace Chained

variable {d : Chained} {len pole m w : Nat} {history : List Commit} {holding : Bool}

/-! ### The frames of the blocks -/

/-- The second frame was handed over before anything was played. -/
def Opened (history : List Commit) : Prop :=
  ∀ c, history[1]? = some c → c.entry = 0

/-- **Frames are played in the order of their commits:** those that have been played, and those that
    still wait, are all that have been handed over. -/
theorem framesIn_append_waiting (hpos : 0 < len) (hopened : Opened history)
    (hmany : 2 ≤ history.length) (n : Nat) :
    framesIn (block len pole history) (n + 2) ++ (waiting len history (n + 1)).map Commit.frame =
      history.map Commit.frame := by
  -- The induction is on the blocks after the first two, which the two first commits always fill: a
  -- block either takes the next frame that waits or takes none.
  match history, hmany with
  | a :: b :: rest, _ =>
  induction n with
  | zero =>
    have hentry : b.entry < (0 + 1) * len := by
      rw [hopened b rfl]
      omega
    rw [waiting_succ_of_lt (rfl : waiting len (a :: b :: rest) 0 = b :: rest) hentry]
    simp [framesIn, List.range_succ, block, Block.frame?]
  | succ n ih =>
    rw [framesIn_succ, ← ih]
    obtain ⟨c, hdue, hcons⟩ | ⟨hnone, hsame⟩ := waiting_eq_cons_or len (n + 1) (a :: b :: rest)
    · rw [block_due hdue, hcons]
      simp [Block.frame?]
    · rw [block_none hnone, hsame]
      simp [Block.frame?]

/-- No frame waits for longer than the block that plays. -/
theorem Live.waiting_succ (h : Live len pole history d m w) :
    waiting len history (m + 1) = [] := by
  cases h.queue with
  | empty hwait _ => exact waiting_succ_of_nil hwait
  | one c hwait hentry _ => exact waiting_succ_of_lt hwait hentry

/-! ### What holds after a run -/

/-- **One channel runs:** it stands at word `w` of the slot that is drained, and that slot only. -/
structure Drains (d : Chained) (slot w len : Nat) : Prop where
  reads : (d.engine.channel (d.channelOf slot)).Reads slot w len
  others : ∀ c : ChannelId, c ≠ d.channelOf slot → (d.engine.channel c).busy = false
  draining : ∀ i, d.slots.state? i = some .draining ↔ i = slot

/-- **What a history of commits leads to.** Block `n` is `block len pole history n`; playback begins
    with the second commit, and has then started one block more than it has finished. -/
structure Lawful (len pole : Nat) (history : List Commit) (d : Chained) : Prop where
  frames : ∀ c ∈ history, c.frame.size = len
  commits : d.stats.commits = history.length
  tagMismatches : d.stats.tagMismatches = 0
  overruns : d.stats.overruns = 0
  hardwareWords : d.stats.hardwareWords = d.played.size
  silent : history.length < 2 → d.played.size = 0
  idle : history.length < 2 → (∀ c : ChannelId, (d.engine.channel c).busy = false) ∧
    ∀ i, d.slots.state? i ≠ some .draining
  played : 2 ≤ history.length →
    d.played.toList = opening (blockWord len (block len pole history)) d.played.size
  irqs : d.stats.irqs = d.played.size / len
  underruns : d.stats.underruns = fadeCount (block len pole history) (d.played.size / len + 1)
  /-- The block that plays is the last one but one to which a frame has been assigned. -/
  inOrder : 2 ≤ history.length →
    framesIn (block len pole history) (d.played.size / len + 2) = history.map Commit.frame
  drains : 2 ≤ history.length → d.Drains (d.played.size / len % 2) (d.played.size % len) len

theorem Preroll.lawful (h : Preroll len pole history holding d) : Lawful len pole history d := by
  have hplayed : d.played.size = 0 := by
    rw [h.played]
    rfl
  have hfew := h.loading.few
  refine ⟨h.frames, h.commits, h.tagMismatches, h.overruns, ?_, fun _ => hplayed,
    fun _ => ⟨h.idle, h.loading.state?_ne⟩, ?_, ?_, ?_, ?_, ?_⟩
  · rw [hplayed, h.hardwareWords]
  · exact fun hmany => absurd hfew (Nat.not_lt.mpr hmany)
  · rw [hplayed, h.irqs, Nat.zero_div]
  · rw [hplayed, h.underruns, Nat.zero_div]
    rfl
  · exact fun hmany => absurd hfew (Nat.not_lt.mpr hmany)
  · exact fun hmany => absurd hfew (Nat.not_lt.mpr hmany)

/-- **In playback one channel runs,** whichever slot the other one is loaded with. -/
theorem Running.drains (h : Running len pole history d m w)
    (hother : d.slots.state? ((m + 1) % 2) ≠ some .draining) : d.Drains (m % 2) w len := by
  refine ⟨h.reads, fun c hc => ?_, fun i => ⟨fun hi => ?_, ?_⟩⟩
  · by_cases hnext : c = d.channelOf ((m + 1) % 2)
    · rw [hnext]
      exact h.armed.stopped
    · exact (h.linkedAt m).others c hc hnext
  · have hlt : i < 2 := Slots.lt_of_state? h.shaped hi
    have hne : i ≠ (m + 1) % 2 := by
      rintro rfl
      exact hother hi
    omega
  · rintro rfl
    exact h.draining

theorem Running.lawful (hpos : 0 < len) (hopened : Opened history)
    (h : Running len pole history d m w) (hwait : waiting len history (m + 1) = [])
    (hother : d.slots.state? ((m + 1) % 2) ≠ some .draining) : Lawful len pole history d := by
  have hblock := h.deck.size_div
  have hword : d.played.size % len = w := by
    rw [h.deck.size, mod_mul_add h.deck.word]
  have hframes : framesIn (block len pole history) (m + 2) = history.map Commit.frame := by
    rw [← framesIn_append_waiting hpos hopened h.many m, hwait, List.map_nil, List.append_nil]
  refine ⟨h.frames, h.commits, h.tagMismatches, h.overruns, h.deck.hardwareWords, ?_, ?_,
    fun _ => h.deck.played, ?_, ?_, fun _ => ?_, fun _ => ?_⟩
  · exact fun hfew => absurd h.many (Nat.not_le.mpr hfew)
  · exact fun hfew => absurd h.many (Nat.not_le.mpr hfew)
  · rw [hblock, h.irqs]
  · rw [hblock, h.underruns]
  · rw [hblock, hframes]
  · rw [hblock, hword]
    exact h.drains hother

theorem Live.lawful (hpos : 0 < len) (hopened : Opened history)
    (h : Live len pole history d m w) : Lawful len pole history d := by
  refine h.toRunning.lawful hpos hopened h.waiting_succ ?_
  rw [h.next.state]
  split <;> simp

theorem Held.lawful (hpos : 0 < len) (hopened : Opened history)
    (h : Held len pole history d m w) : Lawful len pole history d := by
  refine h.toRunning.lawful hpos hopened (waiting_succ_of_nil h.waiting) ?_
  rw [h.target]
  simp

/-! ### Runs of calls -/

/-- The states between calls, if no time passes while software holds a slot. -/
def Sound (len pole : Nat) (history : List Commit) (holding : Bool) (d : Chained) : Prop :=
  Preroll len pole history holding d ∨
    Opened history ∧ ∃ m w, if holding then Held len pole history d m w
      else Live len pole history d m w

theorem Sound.lawful (hpos : 0 < len) (h : Sound len pole history holding d) :
    Lawful len pole history d := by
  rcases h with h | ⟨hopened, m, w, h⟩
  · exact h.lawful
  · cases holding with
    | false => exact Live.lawful hpos hopened h
    | true => exact Held.lawful hpos hopened h

/-- Nothing is played before the first frame is handed over. -/
theorem Sound.silent (h : Sound len pole history holding d) (hnil : history = []) :
    d.played.size = 0 := by
  subst hnil
  rcases h with h | ⟨-, m, w, h⟩
  · exact h.lawful.silent (by decide)
  · -- The channels run only once two frames have been handed over.
    cases holding with
    | false => exact absurd (Live.toRunning h).many (by decide)
    | true => exact absurd (Held.toRunning h).many (by decide)

/-- **Time:** from the second commit on, each word of time is a word played. -/
theorem Sound.advance (hlen : len ≤ regionWords) (h : Sound len pole history false d) (n : Nat) :
    ∃ d', advance n d = .ok () d' ∧ Sound len pole history false d' ∧
      d'.played.size = d.played.size + if history.length < 2 then 0 else n := by
  rcases h with h | ⟨hopened, m, w, h⟩
  · obtain ⟨d', hd', hpre, -⟩ := h.advance n
    refine ⟨d', hd', .inl hpre, ?_⟩
    rw [if_pos h.loading.few, hpre.played, h.played]
    rfl
  · have hlive : Live len pole history d m w := h
    obtain ⟨d', m', w', hd', hlive', hsize, -⟩ := hlive.advance hlen n
    refine ⟨d', hd', .inr ⟨hopened, m', w', hlive'⟩, ?_⟩
    rw [if_neg (Nat.not_lt.mpr hlive.many), hsize]

/-- **Software gets its slot or waits in vain.** -/
theorem Sound.acquire (hpos : 0 < len) (hlen : len ≤ regionWords)
    (h : Sound len pole history false d) :
    ∃ d', (∃ words, acquire d = .ok words d' ∧ Sound len pole history true d') ∨
      (len ∣ 32 ∧ acquire d = .error .stalled d' ∧ Sound len pole history false d') := by
  rcases h with h | ⟨hopened, m, w, h⟩
  · obtain ⟨words, d', hd', -, hpre, -⟩ := h.acquire
    exact ⟨d', .inl ⟨words, hd', .inl hpre⟩⟩
  · have hlive : Live len pole history d m w := h
    obtain ⟨d', m', w', ⟨words, hd', hheld⟩ | ⟨hround, hd', hlive'⟩⟩ :=
      hlive.acquire_or_stalls hpos hlen
    · exact ⟨d', .inl ⟨words, hd', .inr ⟨hopened, m', w', hheld⟩⟩⟩
    · exact ⟨d', .inr ⟨hround, hd', .inr ⟨hopened, m', w', hlive'⟩⟩⟩

theorem Sound.write (h : Sound len pole history true d) (words : Array Word) :
    ∃ d', write words d = .ok () d' ∧ Sound len pole history true d' := by
  rcases h with h | ⟨hopened, m, w, h⟩
  · obtain ⟨hd', hpre⟩ := h.write words
    exact ⟨_, hd', .inl hpre⟩
  · have hheld : Held len pole history d m w := h
    obtain ⟨hd', hheld'⟩ := hheld.write words
    exact ⟨_, hd', .inr ⟨hopened, m, w, hheld'⟩⟩

/-- **The commit of a held slot:** the first frame is kept, the second one starts playback, and a
    later one is what plays next. -/
theorem Sound.commit (hpos : 0 < len) (h : Sound len pole history true d) (count : Nat) :
    ∃ d', commit count d = .ok () d' ∧
      Sound len pole (history ++ port.noted (.commit count) d d') false d' := by
  rcases h with h | ⟨hopened, m, w, h⟩
  · -- Before playback there is at most one commit, and it is the second that has to be made where
    -- no word has been played.
    match history, h.loading.few, h with
    | [], _, h =>
      obtain ⟨d', hd', hpre, -⟩ := h.commit_first count
      exact ⟨d', hd', .inl hpre⟩
    | [b], _, h =>
      obtain ⟨d', hd', hlive, -⟩ := h.commit_second hpos count
      refine ⟨d', hd', .inr ⟨?_, 0, 0, hlive⟩⟩
      intro c hc
      have hentry : c.entry = d.played.size :=
        Port.entry_of_mem_noted (List.mem_of_getElem? (by exact hc))
      rw [hentry, h.played]
      rfl
  · have hheld : Held len pole history d m w := h
    obtain ⟨d', hd', hlive, -⟩ := hheld.commit count
    refine ⟨d', hd', .inr ⟨?_, m, w, hlive⟩⟩
    intro c hc
    have hmany := hheld.many
    rw [List.getElem?_append_left (by omega)] at hc
    exact hopened c hc

/-- **A call that may be made succeeds, or is a wait in vain;** its commit joins the history. -/
theorem Sound.call {c : Call} (hpos : 0 < len) (hlen : len ≤ regionWords)
    (h : Sound len pole history holding d) (hc : c.Prompt holding) :
    (∃ d', port.call c d = .ok () d' ∧
      Sound len pole (history ++ port.noted c d d') (c.holds holding) d') ∨
    ∃ e d', port.call c d = .error e d' ∧
      e = .stalled ∧ len ∣ 32 ∧ Lawful len pole history d' := by
  cases c with
  | acquire =>
    obtain rfl : holding = false := hc
    obtain ⟨d', ⟨words, hd', hsound⟩ | ⟨hround, hd', hsound⟩⟩ := h.acquire hpos hlen
    · refine .inl ⟨d', Run.bind_ok hd', ?_⟩
      rw [Port.noted, List.append_nil]
      exact hsound
    · exact .inr ⟨.stalled, d', Run.bind_error hd', rfl, hround, hsound.lawful hpos⟩
  | write words =>
    obtain rfl : holding = true := hc
    obtain ⟨d', hd', hsound⟩ := h.write words
    refine .inl ⟨d', hd', ?_⟩
    rw [Port.noted, List.append_nil]
    exact hsound
  | commit count =>
    obtain rfl : holding = true := hc
    exact .inl (h.commit hpos count)
  | advance n =>
    obtain rfl : holding = false := hc
    obtain ⟨d', hd', hsound, -⟩ := h.advance hlen n
    refine .inl ⟨d', hd', ?_⟩
    rw [Port.noted, List.append_nil]
    exact hsound

/-- **Chained ping-pong neither loses nor repeats nor reorders a frame.** After any run of calls in
    which no time passes while a slot is held, the words played are the opening of the blocks that
    the history of commits calls for, and from there time goes on as it should. A run that ends
    early has stalled in a wait for a slot, which the hardware passes over a whole number of times
    in each round; what was played until then is as lawful. -/
theorem plays_blocks_in_turn {engine : Engine} {first second : Nat} {calls : List Call}
    (hnew : new engine first second len pole = .ok d) (hquiet : engine.Quiet)
    (hne : first ≠ second) (hpos : 0 < len) (hlen : len ≤ regionWords)
    (hcalls : Uninterrupted false calls) :
    ∃ d' history, Lawful len pole history d' ∧
      ((port.perform calls (d, []) = .ok () (d', history) ∧
        (holdsAfter false calls = false → ∀ n, ∃ later, advance n d' = .ok () later ∧
          later.played.size = d'.played.size + if history.length < 2 then 0 else n)) ∨
      (len ∣ 32 ∧ port.perform calls (d, []) = .error .stalled (d', history))) := by
  -- One call keeps this invariant or stalls in a wait; the run follows by induction on its calls.
  let Inv (rest : List Call) (history : List Commit) (s : Chained) : Prop :=
    ∃ holding, Sound len pole history holding s ∧ Uninterrupted holding rest ∧
      holdsAfter holding rest = holdsAfter false calls
  have hcall : ∀ c rest history s, Inv (c :: rest) history s →
      (∃ s', port.call c s = .ok () s' ∧ Inv rest (history ++ port.noted c s s') s') ∨
      ∃ e s', port.call c s = .error e s' ∧
        e = .stalled ∧ len ∣ 32 ∧ Lawful len pole history s' := by
    rintro c rest history s ⟨holding, hsound, ⟨hc, hrest⟩, hafter⟩
    obtain ⟨s', hs', hsound'⟩ | hfails := hsound.call hpos hlen hc
    · exact .inl ⟨s', hs', c.holds holding, hsound', hrest, hafter⟩
    · exact .inr hfails
  obtain ⟨d', history, ⟨hd', holding, hsound, -, hafter⟩ | ⟨e, hd', rfl, hround, hlawful⟩⟩ :=
    Port.perform_ok_or hcall ⟨false, .inl (preroll_new hnew hquiet hne).1, hcalls, rfl⟩
  · refine ⟨d', history, hsound.lawful hpos, .inl ⟨hd', fun hfree n => ?_⟩⟩
    have hholding : holding = holdsAfter false calls := hafter
    rw [hholding, hfree] at hsound
    obtain ⟨later, hlater, -, hsize⟩ := hsound.advance hlen n
    exact ⟨later, hlater, hsize⟩
  · exact ⟨d', history, hlawful, .inr ⟨hround, hd'⟩⟩

theorem plays_three_frames_in_turn :
    ∃ d, new {} 3 2 5 16 = .ok d ∧ ∃ d' history,
      port.perform [.advance 4, .acquire, .write #[5, 6], .commit 1, .acquire, .commit 5,
        .acquire, .write #[7, 8, 9], .commit 3, .advance 23] (d, []) = .ok () (d', history) ∧
      Lawful 5 16 history d' := by
  refine ⟨_, rfl, ?_⟩
  have hcalls : Uninterrupted false [.advance 4, .acquire, .write #[5, 6], .commit 1, .acquire,
      .commit 5, .acquire, .write #[7, 8, 9], .commit 3, .advance 23] := by
    decide
  obtain ⟨d', history, hlawful, ⟨hd', -⟩ | ⟨hround, -⟩⟩ := plays_blocks_in_turn
    (rfl : new {} 3 2 5 16 = _) Engine.quiet_fresh (by decide) (by decide) (by decide) hcalls
  · exact ⟨d', history, hd', hlawful⟩
  · -- Five words are no whole number of passes.
    exact absurd hround (by decide)

end Chained

end ConsolePipeline.Playback
