import ConsolePipeline.Proofs.Playback.Triple.Software

namespace ConsolePipeline.Playback

open Stereo

/-!
# Triple buffering plays the latest frame

As long as no time passes while software holds a slot, no fault occurs, software never waits, and
what has been played follows from the history of commits.

* `Triple.Lawful` — what holds of the words played and of the counters.
* `Triple.plays_latest_frame` — it holds after every run of whole frames and time.
-/

namespace Triple

variable {d : Triple} {len pole m w : Nat} {history : List Commit}

/-- How many slots hold a frame that is not yet played. -/
def pending (d : Triple) : Nat :=
  (List.range 3).countP fun slot =>
    d.slots.state? slot = some .ready ∧ d.isPrimed slot = false

/-- **What a history of commits leads to.** Block `n` is `block len pole history n`; playback begins
    with the first commit, and has then started one block more than it has finished. -/
structure Lawful (len pole : Nat) (history : List Commit) (d : Triple) : Prop where
  frames : ∀ c ∈ history, c.frame.size = len
  commits : d.stats.commits = history.length
  waitSpins : d.stats.waitSpins = 0
  tagMismatches : d.stats.tagMismatches = 0
  hardwareWords : d.stats.hardwareWords = d.played.size
  silent : history = [] → d.played.size = 0
  played : d.played.toList = opening (blockWord len (block len pole history)) d.played.size
  irqs : d.stats.irqs = d.played.size / len
  underruns : d.stats.underruns = fadeCount (block len pole history) (d.played.size / len + 1)
  overruns : d.stats.overruns = lost len history (d.played.size / len)
  /-- A frame is played, waits in a slot, or was overwritten. -/
  accounted : history ≠ [] → d.stats.commits =
    frameCount (block len pole history) (d.played.size / len + 1) + d.pending + d.stats.overruns

theorem Preroll.lawful (h : Preroll len pole false d) : Lawful len pole [] d := by
  have hplayed : d.played.size = 0 := by
    rw [h.played]
    rfl
  have hzero : d.played.size / len = 0 := by
    rw [hplayed, Nat.zero_div]
  refine ⟨h.frames, h.commits, h.waitSpins, h.tagMismatches, ?_, fun _ => hplayed, ?_, ?_, ?_, ?_,
    fun hne => absurd rfl hne⟩
  · rw [hplayed, h.hardwareWords]
  · rw [h.played]
    rfl
  · rw [hzero, h.irqs]
  · rw [hzero, h.underruns]
    rfl
  · rw [hzero, h.overruns]
    rfl

/-- Whether a slot that is not yet played holds a frame. -/
theorem Holds.pending_iff {slot : Nat} {b : Block} (h : d.Holds slot b) :
    (d.slots.state? slot = some .ready ∧ d.isPrimed slot = false) ↔ b.isFrame := by
  rw [h.state, h.primed]
  cases b <;> simp [Block.isFade, Block.isCopy, Block.isFrame]

/-- The slots with frames that wait are those of the next two blocks. -/
theorem Live.pending (h : Live len pole history d m w) :
    frameCount (block len pole history) (m + 1) + d.pending =
      frameCount (block len pole history) (m + 3) := by
  -- The slot that plays is not one of those that wait.
  have hplays : ¬(d.slots.state? (m % 3) = some .ready ∧ d.isPrimed (m % 3) = false) := by
    rintro ⟨hready, -⟩
    rw [h.draining] at hready
    cases hready
  have hnext := h.next.pending_iff
  have hlater := h.later.pending_iff
  have hsum : d.pending = (if (block len pole history (m + 1)).isFrame then 1 else 0) +
      if (block len pole history (m + 2)).isFrame then 1 else 0 := by
    rw [Triple.pending, show List.range 3 = [0, 1, 2] from rfl]
    -- Which slots belong to the next two blocks depends on the block that plays.
    obtain hm | hm | hm : m % 3 = 0 ∨ m % 3 = 1 ∨ m % 3 = 2 := by omega
    · rw [show (m + 1) % 3 = 1 by omega] at hnext
      rw [show (m + 2) % 3 = 2 by omega] at hlater
      rw [hm] at hplays
      simp only [List.countP_cons, List.countP_nil, decide_eq_true_eq, hplays, hnext, hlater,
        if_false]
      omega
    · rw [show (m + 1) % 3 = 2 by omega] at hnext
      rw [show (m + 2) % 3 = 0 by omega] at hlater
      rw [hm] at hplays
      simp only [List.countP_cons, List.countP_nil, decide_eq_true_eq, hplays, hnext, hlater,
        if_false]
      omega
    · rw [show (m + 1) % 3 = 0 by omega] at hnext
      rw [show (m + 2) % 3 = 1 by omega] at hlater
      rw [hm] at hplays
      simp only [List.countP_cons, List.countP_nil, decide_eq_true_eq, hplays, hnext, hlater,
        if_false]
      omega
  rw [frameCount_succ _ (m + 2), frameCount_succ _ (m + 1), hsum, Nat.add_assoc]

theorem Live.lawful (h : Live len pole history d m w) : Lawful len pole history d := by
  have hblock := h.deck.size_div
  refine ⟨h.frames, h.commits, h.waitSpins, h.tagMismatches, h.deck.hardwareWords,
    fun hnil => absurd hnil h.nonempty, h.deck.played, ?_, ?_, ?_, fun _ => ?_⟩
  · rw [hblock, h.irqs]
  · rw [hblock, h.underruns]
  · rw [hblock, h.overruns]
  · rw [hblock, h.pending, h.commits, h.overruns,
      length_eq_lost_add_frameCount h.nonempty h.entries, Nat.add_comm]

/-- The states between whole frames. -/
def Sound (len pole : Nat) (history : List Commit) (d : Triple) : Prop :=
  history = [] ∧ Preroll len pole false d ∨ ∃ m w, Live len pole history d m w

theorem Sound.lawful (h : Sound len pole history d) : Lawful len pole history d := by
  rcases h with ⟨rfl, h⟩ | ⟨m, w, h⟩
  · exact h.lawful
  · exact h.lawful

/-- **Time:** from the first commit on, each word of time is a word played. -/
theorem Sound.advance (hlen : len ≤ regionWords) (h : Sound len pole history d) (n : Nat) :
    ∃ d', advance n d = .ok () d' ∧ Sound len pole history d' ∧
      d'.played.size = d.played.size + if history = [] then 0 else n := by
  rcases h with ⟨rfl, h⟩ | ⟨m, w, h⟩
  · obtain ⟨d', hd', hpre⟩ := h.advance n
    refine ⟨d', hd', .inl ⟨rfl, hpre⟩, ?_⟩
    rw [if_pos rfl, hpre.played, h.played]
    rfl
  · obtain ⟨d', m', w', hd', hlive, hsize⟩ := h.advance hlen n
    refine ⟨d', hd', .inr ⟨m', w', hlive⟩, ?_⟩
    rw [if_neg h.nonempty, hsize]

/-- **A whole frame** is taken in without a fault. -/
theorem Sound.frame (hpos : 0 < len) (h : Sound len pole history d) (writes : List (Array Word))
    (count : Nat) :
    ∃ d' history', port.perform (Deed.frame writes count).calls (d, history) =
      .ok () (d', history') ∧ Sound len pole history' d' := by
  rcases h with ⟨rfl, h⟩ | ⟨m, w, h⟩
  · obtain ⟨words, d', hd', -, hheld⟩ := h.acquire
    refine Port.perform_frame_ok (P := port) (Preroll len pole true)
      (fun words d hd => ⟨_, hd.write words⟩) (fun d hd => ?_) writes hd' hheld
    obtain ⟨d'', hd'', hlive⟩ := hd.commit hpos count
    exact ⟨d'', hd'', .inr ⟨0, 0, hlive⟩⟩
  · obtain ⟨words, d', hd', -, hheld⟩ := h.acquire
    refine Port.perform_frame_ok (P := port) (fun d => Held len pole history d m w)
      (fun words d hd => ⟨_, hd.write words⟩) (fun d hd => ?_) writes hd' hheld
    obtain ⟨d'', hd'', hlive⟩ := hd.commit count
    exact ⟨d'', hd'', .inr ⟨m, w, hlive⟩⟩

theorem Sound.deed (hpos : 0 < len) (hlen : len ≤ regionWords) (h : Sound len pole history d)
    (deed : Deed) :
    ∃ d' history', port.perform deed.calls (d, history) = .ok () (d', history') ∧
      Sound len pole history' d' := by
  cases deed with
  | frame writes count => exact h.frame hpos writes count
  | advance n =>
    obtain ⟨d', hd', hsound, -⟩ := h.advance hlen n
    have hcall : port.call (.advance n) d = .ok () d' := hd'
    refine ⟨d', history, ?_, hsound⟩
    rw [Deed.calls, Port.perform_cons hcall, Port.noted, List.append_nil]
    rfl

/-- A new strategy waits for its first frame. -/
theorem preroll_new {engine : Engine} {channel : Nat} (hnew : new engine channel len pole = .ok d)
    (hquiet : engine.Quiet) : Preroll len pole false d := by
  rw [new] at hnew
  obtain ⟨⟨ch, e⟩, hclaim, hnew⟩ := Run.bind_eq_ok hnew
  obtain rfl : _ = d := Except.ok.inj hnew
  obtain ⟨hquiet, -⟩ := hquiet.claim hclaim
  obtain ⟨hstopped, -, hring⟩ := hquiet.channel ch
  have hfree : ∀ slot < 3, (Slots.new 3 len pole).state? slot = some .free :=
    fun slot hslot => Slots.state?_new hslot len pole
  exact
    { shaped := Slots.shaped_new 3 len pole
      solo := hquiet.solo ch
      ring := hring
      frames := fun c hc => absurd hc List.not_mem_nil
      commits := rfl
      waitSpins := rfl
      tagMismatches := rfl
      stopped := hstopped
      played := rfl
      hardwareWords := rfl
      irqs := rfl
      underruns := rfl
      overruns := rfl
      playing := rfl
      filling := rfl
      target := hfree 0 (by decide)
      second := hfree 1 (by decide)
      third := hfree 2 (by decide)
      cleared := fun hfalse => absurd hfalse Bool.false_ne_true }

/-- **Triple buffering plays the latest frame.** After any run of whole frames and time, the words
    played are the opening of the blocks that the history of commits calls for: a block plays the
    last frame committed two blocks before. Every frame is played, pending or counted as an
    overrun, and from the first commit on each word of time is a word played. -/
theorem plays_latest_frame {engine : Engine} {channel : Nat}
    (hnew : new engine channel len pole = .ok d) (hquiet : engine.Quiet) (hpos : 0 < len)
    (hlen : len ≤ regionWords) (deeds : List Deed) :
    ∃ d' history, port.perform (deeds.flatMap Deed.calls) (d, []) = .ok () (d', history) ∧
      Lawful len pole history d' ∧
      ∀ n, ∃ later, advance n d' = .ok () later ∧
        later.played.size = d'.played.size + if history = [] then 0 else n := by
  have hfirst : Sound len pole [] d := .inl ⟨rfl, preroll_new hnew hquiet⟩
  obtain ⟨d', history, hd', hsound⟩ := Port.perform_deeds_ok
    (fun deed history d (h : Sound len pole history d) => h.deed hpos hlen deed) deeds hfirst
  refine ⟨d', history, hd', hsound.lawful, fun n => ?_⟩
  obtain ⟨later, hlater, -, hsize⟩ := hsound.advance hlen n
  exact ⟨later, hlater, hsize⟩

theorem plays_latest_of_three_frames :
    ∃ d, new {} 2 4 16 = .ok d ∧ ∃ d' history,
      port.perform
        ([.frame [#[5, 6]] 1, .advance 3, .frame [] 4, .frame [#[7]] 2, .advance 9].flatMap
          Deed.calls) (d, []) = .ok () (d', history) ∧ Lawful 4 16 history d' := by
  refine ⟨_, rfl, ?_⟩
  obtain ⟨d', history, hd', hlawful, -⟩ := plays_latest_frame (rfl : new {} 2 4 16 = _)
    Engine.quiet_fresh (by decide) (by decide)
    [.frame [#[5, 6]] 1, .advance 3, .frame [] 4, .frame [#[7]] 2, .advance 9]
  exact ⟨d', history, hd', hlawful⟩

end Triple

end ConsolePipeline.Playback
