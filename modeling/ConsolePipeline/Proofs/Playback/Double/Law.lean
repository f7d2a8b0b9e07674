import ConsolePipeline.Proofs.Playback.Double.Software

namespace ConsolePipeline.Playback

open Stereo

/-!
# Double buffering plays every frame once, in order

Whatever the order of calls, as long as acquire and commit alternate, no fault occurs, and what has
been played follows from the history of commits.

* `Double.Lawful` — what holds of the words played and of the counters.
* `Double.plays_every_frame_in_order` — it holds after every run of calls, time goes on from there,
  and the next wait for a slot ends.
-/

namespace Double

variable {d : Double} {len pole : Nat} {history : List Commit} {holding : Bool}

/-- **What a history of commits leads to.** Block `n` is `block len pole history n`; playback begins
    with the second commit, and has then started one block more than it has finished. -/
structure Lawful (len pole : Nat) (history : List Commit) (d : Double) : Prop where
  frames : ∀ c ∈ history, c.frame.size = len
  commits : d.stats.commits = history.length
  tagMismatches : d.stats.tagMismatches = 0
  overruns : d.stats.overruns = 0
  hardwareWords : d.stats.hardwareWords = d.played.size
  silent : history.length < 2 → d.played.size = 0
  played : 2 ≤ history.length →
    d.played.toList = opening (blockWord len (block len pole history)) d.played.size
  irqs : d.stats.irqs = d.played.size / len
  underruns : d.stats.underruns = fadeCount (block len pole history) (d.played.size / len + 1)
  frameCount_le : 2 ≤ history.length →
    frameCount (block len pole history) (d.played.size / len + 1) ≤ d.stats.commits
  le_frameCount : 2 ≤ history.length →
    d.stats.commits ≤ frameCount (block len pole history) (d.played.size / len + 1) + 1

/-- What is left of the block that plays. -/
def remaining (d : Double) : Nat :=
  (d.engine.channel d.channel).remaining

theorem Preroll.lawful (h : Preroll len pole history holding d) : Lawful len pole history d := by
  have hplayed : d.played.size = 0 := by
    rw [h.played]
    rfl
  have hfew := h.loading.few
  refine ⟨h.frames, h.commits, h.tagMismatches, h.overruns, ?_, fun _ => hplayed, ?_, ?_, ?_,
    ?_, ?_⟩
  · rw [hplayed, h.hardwareWords]
  · exact fun hmany => absurd hfew (Nat.not_lt.mpr hmany)
  · rw [hplayed, h.irqs, Nat.zero_div]
  · rw [hplayed, h.underruns, Nat.zero_div]
    rfl
  · exact fun hmany => absurd hfew (Nat.not_lt.mpr hmany)
  · exact fun hmany => absurd hfew (Nat.not_lt.mpr hmany)

theorem Live.lawful {m w p : Nat} (h : Live len pole history holding d m w p) :
    Lawful len pole history d := by
  have hmany := h.many
  have hblock := h.deck.size_div
  have hcount := length_eq_waiting_add_frameCount len pole
    (List.ne_nil_of_length_pos (by omega : 0 < history.length)) m
  -- At most one commit waits, so the commits and the frames played differ by no more than that.
  have hwait : (waiting len history m).length ≤ 1 := by
    rcases h.next with o | ⟨c, q⟩
    · rw [o.waiting]
      exact Nat.zero_le 1
    · rw [q.waiting]
      exact Nat.le_refl 1
  refine ⟨h.frames, h.commits, h.tagMismatches, h.overruns, h.deck.hardwareWords, ?_,
    fun _ => h.deck.played, ?_, ?_, ?_, ?_⟩
  · exact fun hfew => absurd hmany (Nat.not_le.mpr hfew)
  · rw [hblock, h.irqs]
  · rw [hblock, h.underruns]
  · intro _
    rw [hblock, h.commits]
    omega
  · intro _
    rw [hblock, h.commits]
    omega

theorem Sound.lawful (h : Sound len pole history holding d) : Lawful len pole history d := by
  rcases h with h | ⟨m, w, p, h⟩
  · exact h.lawful
  · exact h.lawful

/-- **Time:** from the second commit on, each word of time is a word played. -/
theorem Sound.advance (hlen : len ≤ regionWords) (h : Sound len pole history holding d) (n : Nat) :
    ∃ d', advance n d = .ok () d' ∧ Sound len pole history holding d' ∧
      d'.played.size = d.played.size + if history.length < 2 then 0 else n := by
  rcases h with h | ⟨m, w, p, h⟩
  · obtain ⟨d', hd', hpre, -⟩ := h.advance n
    refine ⟨d', hd', .inl hpre, ?_⟩
    rw [if_pos h.loading.few, hpre.played, h.played]
    rfl
  · obtain ⟨d', m', w', p', hd', hlive, hsize, -⟩ := h.advance hlen n
    refine ⟨d', hd', .inr ⟨m', w', p', hlive⟩, ?_⟩
    rw [if_neg (Nat.not_lt.mpr h.many), hsize]

/-- **Every wait for a slot ends,** at the latest in the round in which the playing block ends. -/
theorem Sound.acquire (hlen : len ≤ regionWords) (h : Sound len pole history false d) :
    ∃ words d', acquire d = .ok words d' ∧ words.size = len ∧ Sound len pole history true d' ∧
      d'.stats.waitSpins ≤ d.stats.waitSpins + waitRounds d.remaining := by
  rcases h with h | ⟨m, w, p, h⟩
  · obtain ⟨words, d', hd', hwords, hpre, hstats⟩ := h.acquire
    exact ⟨words, d', hd', hwords, .inl hpre, by rw [hstats]; exact Nat.le_add_right _ _⟩
  · obtain ⟨words, d', m', w', p', hd', hwords, hlive, hspins, -⟩ := h.acquire hlen
    refine ⟨words, d', hd', hwords, .inr ⟨m', w', p', hlive⟩, ?_⟩
    rw [hspins, remaining, h.reads.remaining, roundsLeft]
    split <;> omega

/-- **A call that may be made succeeds,** and its commit joins the history. -/
theorem Sound.call {c : Call} (hpos : 0 < len) (hlen : len ≤ regionWords)
    (h : Sound len pole history holding d) (hc : c.Allowed holding) :
    ∃ d', port.call c d = .ok () d' ∧
      Sound len pole (history ++ port.noted c d d') (c.holds holding) d' := by
  cases c with
  | acquire =>
    obtain rfl : holding = false := hc
    obtain ⟨words, d', hd', -, hsound, -⟩ := h.acquire hlen
    refine ⟨d', Run.bind_ok hd', ?_⟩
    rw [Port.noted, List.append_nil]
    exact hsound
  | write words =>
    obtain rfl : holding = true := hc
    obtain ⟨d', hd', hsound⟩ := h.write words
    refine ⟨d', hd', ?_⟩
    rw [Port.noted, List.append_nil]
    exact hsound
  | commit count =>
    obtain rfl : holding = true := hc
    exact h.commit hpos count
  | advance n =>
    obtain ⟨d', hd', hsound, -⟩ := h.advance hlen n
    refine ⟨d', hd', ?_⟩
    rw [Port.noted, List.append_nil]
    exact hsound

/-- A new strategy waits for its first frame. -/
theorem preroll_new {engine : Engine} {channel : Nat} (hnew : new engine channel len pole = .ok d)
    (hquiet : engine.Quiet) : Preroll len pole [] false d ∧ d.stats = {} := by
  rw [new] at hnew
  obtain ⟨⟨ch, e⟩, hclaim, hnew⟩ := Run.bind_eq_ok hnew
  obtain rfl : _ = d := Except.ok.inj hnew
  obtain ⟨hquiet, -⟩ := hquiet.claim hclaim
  obtain ⟨hstopped, -, hring⟩ := hquiet.channel ch
  refine ⟨⟨⟨Slots.shaped_new 2 len pole, hquiet.solo ch, hring, ?_, rfl, rfl, rfl⟩, hstopped, rfl,
    rfl, rfl, rfl, rfl, rfl, Loading.start len pole⟩, rfl⟩
  exact fun c hc => absurd hc List.not_mem_nil

/-- **Double buffering neither loses nor repeats nor reorders a frame.** After any run of calls in
    which acquire and commit alternate, with time passing anywhere, the words played are the opening
    of the blocks that the history of commits calls for. From there, time goes on as it should, and
    the next wait for a slot ends. -/
theorem plays_every_frame_in_order {engine : Engine} {channel : Nat} {calls : List Call}
    (hnew : new engine channel len pole = .ok d) (hquiet : engine.Quiet) (hpos : 0 < len)
    (hlen : len ≤ regionWords) (hcalls : Alternating false calls) :
    ∃ d' history, port.perform calls (d, []) = .ok () (d', history) ∧
      Lawful len pole history d' ∧
      (∀ n, ∃ later, advance n d' = .ok () later ∧
        later.played.size = d'.played.size + if history.length < 2 then 0 else n) ∧
      (holdsAfter false calls = false → ∃ words later, acquire d' = .ok words later ∧
        words.size = len ∧
        later.stats.waitSpins ≤ d'.stats.waitSpins + waitRounds d'.remaining) := by
  -- One call keeps this invariant, and the run follows by induction on its calls.
  let Inv (rest : List Call) (history : List Commit) (s : Double) : Prop :=
    ∃ holding, Sound len pole history holding s ∧ Alternating holding rest ∧
      holdsAfter holding rest = holdsAfter false calls
  have hcall : ∀ c rest history s, Inv (c :: rest) history s →
      ∃ s', port.call c s = .ok () s' ∧ Inv rest (history ++ port.noted c s s') s' := by
    rintro c rest history s ⟨holding, hsound, ⟨hc, hrest⟩, hafter⟩
    obtain ⟨s', hs', hsound'⟩ := hsound.call hpos hlen hc
    exact ⟨s', hs', c.holds holding, hsound', hrest, hafter⟩
  obtain ⟨d', history, hd', holding, hsound, -, hafter⟩ :=
    Port.perform_ok hcall ⟨false, .inl (preroll_new hnew hquiet).1, hcalls, rfl⟩
  have hholding : holding = holdsAfter false calls := hafter
  refine ⟨d', history, hd', hsound.lawful, fun n => ?_, fun hfree => ?_⟩
  · obtain ⟨later, hlater, -, hsize⟩ := hsound.advance hlen n
    exact ⟨later, hlater, hsize⟩
  · rw [hholding, hfree] at hsound
    obtain ⟨words, later, hlater, hwords, -, hspins⟩ := hsound.acquire hlen
    exact ⟨words, later, hlater, hwords, hspins⟩

theorem plays_two_frames_in_order :
    ∃ d, new {} 2 4 16 = .ok d ∧ ∃ d' history,
      port.perform
        [.acquire, .write #[5, 6], .advance 3, .commit 1, .acquire, .commit 4, .advance 9] (d, []) =
          .ok () (d', history) ∧ Lawful 4 16 history d' := by
  refine ⟨_, rfl, ?_⟩
  have halternating : Alternating false
      [.acquire, .write #[5, 6], .advance 3, .commit 1, .acquire, .commit 4, .advance 9] := by
    decide
  obtain ⟨d', history, hd', hlawful, -, -⟩ := plays_every_frame_in_order (rfl : new {} 2 4 16 = _)
    Engine.quiet_fresh (by decide) (by decide) halternating
  exact ⟨d', history, hd', hlawful⟩

end Double

end ConsolePipeline.Playback
