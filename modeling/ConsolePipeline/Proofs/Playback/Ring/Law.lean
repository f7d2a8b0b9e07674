import ConsolePipeline.Proofs.Playback.Ring.Software

namespace ConsolePipeline.Playback

open Stereo

/-!
# Ring playback refines a stream

Whatever is called in whatever order, no fault occurs, every wait ends, and what has been played is
the opening of the stream that the history of commits calls for, however often the reader has gone
round the ring.

* `Ring.Lawful` — what holds of the words played and of the counters.
* `Ring.refines_stream` — it holds after every run of calls.
-/

namespace Ring

variable {σ : Shape} {d : Ring} {history : List Commit}

/-- **What a history of commits leads to.** -/
structure Lawful (σ : Shape) (history : List Commit) (d : Ring) : Prop where
  frames : ∀ c ∈ history, c.frame.size = σ.len
  commits : d.stats.commits = history.length
  readPos : d.readPos = d.played.size
  played : d.played.toList = opening (σ.score history).stream d.readPos
  /-- Between two commits, and since the last one, an underrun is counted if the reader came past
      the end of the last frame. -/
  underruns : d.stats.underruns =
    (σ.score history).late + if (σ.score history).finish < d.readPos then 1 else 0
  overruns : d.stats.overruns = 0
  tagMismatches : d.stats.tagMismatches = 0
  hardwareWords : d.stats.hardwareWords = d.readPos

/-- The states that a run can be in. -/
def Sound (σ : Shape) (history : List Commit) (d : Ring) : Prop :=
  history = [] ∧ Preroll σ d ∨ Live σ history d

theorem Preroll.lawful (h : Preroll σ d) : Lawful σ [] d := by
  have hplayed : d.played.size = 0 := by
    rw [h.played]
    rfl
  refine ⟨h.frames, h.commits, h.readPos.trans hplayed.symm, ?_, ?_, h.overruns, h.tagMismatches,
    ?_⟩
  · rw [h.readPos, h.played]
    rfl
  · rw [h.readPos, if_neg (Nat.not_lt_zero _), h.underruns]
    rfl
  · rw [h.hardwareWords, hplayed, h.readPos]

theorem Live.lawful (h : Live σ history d) : Lawful σ history d := by
  refine ⟨h.frames, h.commits, h.readPos, ?_, ?_, h.overruns, h.tagMismatches, ?_⟩
  · rw [h.played, h.readPos]
  · rw [← h.writePos, h.underruns]
  · rw [h.hardwareWords, h.readPos]

theorem Sound.lawful (h : Sound σ history d) : Lawful σ history d := by
  rcases h with ⟨rfl, h⟩ | h
  · exact h.lawful
  · exact h.lawful

/-- **Time:** from the first commit on, each word of time is a word played. -/
theorem Sound.advance (h : Sound σ history d) (n : Nat) :
    ∃ d', advance n d = .ok () d' ∧ Sound σ history d' ∧
      d'.played.size = d.played.size + if history = [] then 0 else n := by
  rcases h with ⟨rfl, h⟩ | h
  · obtain ⟨d', hd', hpre, -⟩ := h.advance n
    refine ⟨d', hd', .inl ⟨rfl, hpre⟩, ?_⟩
    rw [if_pos rfl, hpre.played, h.played]
    rfl
  · obtain ⟨d', hd', hlive, hread, -⟩ := h.advance n
    refine ⟨d', hd', .inr hlive, ?_⟩
    rw [if_neg h.nonempty, ← hlive.readPos, hread, h.readPos]

/-- **Every call succeeds,** and a commit joins the history. -/
theorem Sound.call (hroomy : σ.Roomy) (hlen : waitWords ≤ σ.len) (h : Sound σ history d)
    (c : Call) :
    ∃ d', port.call c d = .ok () d' ∧ Sound σ (history ++ port.noted c d d') d' := by
  cases c with
  | acquire =>
    refine ⟨d, rfl, ?_⟩
    rw [Port.noted, List.append_nil]
    exact h
  | write words =>
    refine ⟨_, write_ok words d, ?_⟩
    rw [Port.noted, List.append_nil]
    rcases h with ⟨rfl, h⟩ | h
    · exact .inl ⟨rfl, h.staged (by rw [size_overlay, h.staging])⟩
    · exact .inr (h.staged (by rw [size_overlay, h.staging]))
  | commit count =>
    rcases h with ⟨rfl, h⟩ | h
    · obtain ⟨d', hd', hlive, -, -⟩ := h.commit count
      exact ⟨d', hd', .inr hlive⟩
    · obtain ⟨d', hd', hlive⟩ := h.commit hroomy hlen count
      exact ⟨d', hd', .inr hlive⟩
  | advance n =>
    obtain ⟨d', hd', hsound, -⟩ := h.advance n
    refine ⟨d', hd', ?_⟩
    rw [Port.noted, List.append_nil]
    exact hsound

/-- A new ring is silent. -/
theorem preroll_new {engine : Engine} {channel : Nat}
    (hnew : new engine channel σ.len σ.pole σ.config = .ok d) (hquiet : engine.Quiet) :
    Preroll σ d ∧ d.stats = {} := by
  obtain ⟨ch, e, hquiet, rfl⟩ := new_inv hnew hquiet
  refine ⟨⟨⟨Array.size_replicate, Array.size_replicate, rfl, rfl, hquiet.solo ch, ?_, rfl, rfl,
    rfl, rfl⟩, rfl, (hquiet.channel ch).1, rfl, rfl, ?_, rfl⟩, rfl⟩
  · exact fun c hc => absurd hc List.not_mem_nil
  · intro i _ _
    show (Array.replicate (σ.config.sizeFor σ.len) silence).getD _ silence = silence
    rw [Array.getD_eq_getD_getElem?, Array.getElem?_replicate]
    split <;> rfl

/-- **Ring playback refines an unbounded stream.** After any run of calls, in any order and with any
    amount of time between them, the words played are the opening of the stream that the history of
    commits calls for: no word is an old lap's. From the first commit on, each word of time is a
    word played. -/
theorem refines_stream (σ : Shape) {engine : Engine} {channel : Nat}
    (hnew : new engine channel σ.len σ.pole σ.config = .ok d) (hquiet : engine.Quiet)
    (hlen : 64 ≤ σ.len) (hfits : 2 * σ.len + σ.config.margin.toNat ≤ σ.size)
    (calls : List Call) :
    ∃ d' history, port.perform calls (d, []) = .ok () (d', history) ∧ Lawful σ history d' ∧
      ∀ n, ∃ later, advance n d' = .ok () later ∧
        later.played.size = d'.played.size + if history = [] then 0 else n := by
  let Inv (_ : List Call) (history : List Commit) (d : Ring) : Prop := Sound σ history d
  have hcall : ∀ c rest history d, Inv (c :: rest) history d →
      ∃ d', port.call c d = .ok () d' ∧ Inv rest (history ++ port.noted c d d') d' :=
    fun c _ _ _ h => Sound.call hfits hlen h c
  have hfirst : Inv calls [] d := .inl ⟨rfl, (preroll_new hnew hquiet).1⟩
  obtain ⟨d', history, hd', hsound⟩ := Port.perform_ok hcall hfirst
  refine ⟨d', history, hd', hsound.lawful, fun n => ?_⟩
  obtain ⟨later, hlater, -, hsize⟩ := hsound.advance n
  exact ⟨later, hlater, hsize⟩

/-- A small ring with a short guard. -/
def smallConfig : RingConfig where
  size := 200
  margin := 8
  guard := 16

theorem sizeFor_smallConfig : smallConfig.sizeFor 64 = 256 := by
  decide

/-- The small ring with frames of 64 words. -/
def smallShape : Shape where
  len := 64
  pole := 16
  config := smallConfig
  pos := by decide
  frames := by rw [sizeFor_smallConfig]; decide
  addressable := by rw [sizeFor_smallConfig]; decide

theorem fits_smallShape :
    2 * smallShape.len + smallShape.config.margin.toNat ≤ smallShape.size := by
  show 2 * 64 + 8 ≤ smallConfig.sizeFor 64
  rw [sizeFor_smallConfig]
  decide

theorem refines_stream_small :
    ∃ d, new {} 2 64 16 smallConfig = .ok d ∧ ∃ d' history,
      port.perform [.acquire, .write #[5, 6], .commit 2, .advance 1000, .commit 0, .commit 64,
        .advance 7] (d, []) = .ok () (d', history) ∧ Lawful smallShape history d' := by
  refine ⟨_, rfl, ?_⟩
  obtain ⟨d', history, hd', hlawful, -⟩ := refines_stream smallShape
    (rfl : new {} 2 64 16 smallConfig = _) Engine.quiet_fresh (by decide) fits_smallShape
    [.acquire, .write #[5, 6], .commit 2, .advance 1000, .commit 0, .commit 64, .advance 7]
  exact ⟨d', history, hd', hlawful⟩

end Ring

end ConsolePipeline.Playback
