import ConsolePipeline.Proofs.Playback.Ring.Turning

namespace ConsolePipeline.Playback

open Stereo

/-!
# Ring playback: time

* `Ring.Live.step`, `Live.advance` — each word of time is a word of the stream played, however many
  laps it takes.
* `Ring.Live.sync` — looking at the reader again changes nothing.
* `Ring.Preroll.advance` — before the first commit time passes without a word.
-/

namespace Ring

variable {σ : Shape} {d : Ring} {history : List Commit} {n limit : Nat}

theorem Steady.size_pos (h : Steady σ history d) : 0 < d.ring.size := by
  have := σ.two_mul_len_le
  have := σ.pos
  have := h.size
  omega

theorem Steady.size_le (h : Steady σ history d) : d.ring.size ≤ regionWords := by
  rw [h.size]
  exact σ.addressable

/-- In playback the reader goes round the ring. -/
theorem Running.turning (h : Running σ history d) : Turning d := by
  have hframes := σ.two_mul_len_le
  have hpos := σ.pos
  refine ⟨⟨h.started, h.solo, h.cycles, h.lastIndex⟩, ?_, ?_, h.size_le⟩
  · rw [h.size]
    exact σ.size_isPowerOfTwo
  · rw [h.size]
    omega

/-- Looking at the reader again, when no time has passed, changes nothing. -/
theorem Live.sync (h : Live σ history d) : d.sync = d := by
  rw [h.turning.sync]
  by_cases hpassed : d.writePos < d.readPos
  · exact checkStarved_of_starved (by rw [h.starved, decide_eq_true hpassed])
  · exact checkStarved_of_le (Nat.not_lt.mp hpassed)

/-- The reader moves on over words of the stream. -/
theorem Running.passed (h : Running σ history d)
    (hn : d.readPos % d.ring.size + n ≤ d.ring.size) :
    Running σ history (d.passed n
      (d.ring.extract (d.readPos % d.ring.size) (d.readPos % d.ring.size + n))
      (d.engine.turned d.channel ((d.readPos + n) % d.ring.size))) := by
  have hpos := h.size_pos
  have hcycles := Engine.cycles_turned h.cycles ((d.readPos + n) % d.ring.size)
  have hsize : (silenceWrapped n d.readPos d.ring).size = d.ring.size := size_silenceWrapped _ _ _
  -- No transfer goes beyond the end of the ring, so it is one stretch of it that is played.
  have hout :
      (d.ring.extract (d.readPos % d.ring.size) (d.readPos % d.ring.size + n)).size = n := by
    rw [Array.size_extract]
    omega
  have hplayed : (d.played ++ d.ring.extract (d.readPos % d.ring.size)
      (d.readPos % d.ring.size + n)).size = d.played.size + n := by
    rw [Array.size_append, hout]
  refine ⟨⟨hsize.trans h.size, h.staging, h.config, h.pole, h.solo.turned _, h.frames, h.commits,
    h.overruns, h.tagMismatches, ?_⟩, h.nonempty, h.started, ?_, ?_, ?_, ?_, ?_, ?_⟩
  · show d.stats.hardwareWords + (d.ring.extract _ _).size = (d.played ++ d.ring.extract _ _).size
    rw [hplayed, hout, h.hardwareWords]
  · show (Channel.Cycles _ ((d.readPos + n) % (silenceWrapped n d.readPos d.ring).size)
      (silenceWrapped n d.readPos d.ring).size)
    rw [hsize]
    exact hcycles
  · show (d.readPos + n) % d.ring.size = (d.readPos + n) % (silenceWrapped n d.readPos d.ring).size
    rw [hsize]
  · exact h.shows.pass (by omega) h.beyond
  · show (d.played ++ d.ring.extract _ _).toList = opening _ (d.played ++ d.ring.extract _ _).size
    rw [hplayed, opening_add, Array.toList_append, h.played, h.shows.extract hn, h.readPos]
  · show d.readPos + n = (d.played ++ d.ring.extract _ _).size
    rw [hplayed, h.readPos]
  · intro i hi
    have hi : d.readPos + n + (silenceWrapped n d.readPos d.ring).size ≤ i := hi
    rw [hsize] at hi
    exact h.beyond i (by omega)

/-- **One transfer:** words of the stream are played. -/
theorem Live.step (h : Live σ history d) (hlimit : 0 < limit) :
    ∃ n d', Ring.step limit d = .ok n d' ∧ 0 < n ∧ n ≤ limit ∧ Live σ history d' ∧
      d'.readPos = d.readPos + n ∧ Untouched d d' := by
  have hlt : d.readPos % d.ring.size < d.ring.size := Nat.mod_lt _ h.size_pos
  obtain ⟨n, hn⟩ : ∃ n, n = min (min limit (max (d.ring.size / 2) 1))
    (d.ring.size - d.readPos % d.ring.size) := ⟨_, rfl⟩
  have hfits : d.writePos ≤ d.readPos + n + σ.size := by
    have := h.fits
    omega
  obtain ⟨hlive, hread, hsame⟩ := (h.toRunning.passed (n := n) (by omega)).checkStarved
    (Nat.le_add_right d.readPos n) h.writePos hfits h.starved h.underruns
  exact ⟨n, _, h.turning.step_eq hn hlimit, by omega, by omega, hlive, hread,
    hsame.staging, hsame.writePos, hsame.waitSpins, hsame.held⟩

/-- **Hardware time in playback:** each word of time is a word of the stream played. -/
theorem Live.advance (h : Live σ history d) (n : Nat) :
    ∃ d', advance n d = .ok () d' ∧ Live σ history d' ∧ d'.readPos = d.readPos + n ∧
      Untouched d d' := by
  let P (t : Nat) (s : Ring) : Prop :=
    Live σ history s ∧ s.readPos = d.readPos + t ∧ Untouched d s
  have hstep : ∀ t limit s, 0 < limit → P t s →
      ∃ n s', Ring.step limit s = .ok n s' ∧ 0 < n ∧ n ≤ limit ∧ P (t + n) s' := by
    rintro t limit s hlimit ⟨hlive, hread, hsame⟩
    obtain ⟨n, s', hs, hpos, hle, hlive', hread', hsame'⟩ := hlive.step hlimit
    exact ⟨n, s', hs, hpos, hle, hlive', by omega, hsame.trans hsame'⟩
  obtain ⟨d', hd', hlive, hread, hsame⟩ := Run.elapse_ok hstep n 0 d ⟨h, rfl, rfl, rfl, rfl, rfl⟩
  exact ⟨d', hd', hlive, by omega, hsame⟩

/-! ### Before playback -/

/-- A transfer while no channel runs; the reader is not looked at. -/
theorem step_idle (hstarted : d.started = false)
    (h : ∀ c : ChannelId, (d.engine.channel c).busy = false) (limit : Nat) :
    step limit d = .ok (min limit (max (d.ring.size / 2) 1))
      { d with toDeck := d.toDeck.idled (min limit (max (d.ring.size / 2) 1)) } := by
  rw [Ring.step, Run.get_bind, Run.bind_ok (onDeck_ok (Deck.transfer_idle h _ _)),
    Run.modify_bind, Run.pure_apply, sync, if_neg]
  show ¬d.started = true
  rw [hstarted]
  exact Bool.false_ne_true

/-- **Hardware time before the first commit** passes without a word. -/
theorem Preroll.advance (h : Preroll σ d) (n : Nat) :
    ∃ d', advance n d = .ok () d' ∧ Preroll σ d' ∧ d'.stats.waitSpins = d.stats.waitSpins := by
  let P (_ : Nat) (s : Ring) : Prop := Preroll σ s ∧ s.stats.waitSpins = d.stats.waitSpins
  have hstep : ∀ t limit s, 0 < limit → P t s →
      ∃ n s', Ring.step limit s = .ok n s' ∧ 0 < n ∧ n ≤ limit ∧ P (t + n) s' := by
    rintro t limit s hlimit ⟨hpre, hspins⟩
    exact ⟨_, _, step_idle hpre.started (hpre.solo.idle hpre.stopped) limit, by omega, by omega,
      hpre.alike (s.alike_idled _), hspins⟩
  exact Run.elapse_ok hstep n 0 d ⟨h, rfl⟩

end Ring

end ConsolePipeline.Playback
