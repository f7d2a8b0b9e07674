import ConsolePipeline.Proofs.Playback.Deck
import ConsolePipeline.Proofs.Playback.Ring.Score

namespace ConsolePipeline.Playback

open Stereo

/-!
# Ring playback: states

The reader's position is exactly the number of words played, and the ring shows the stream from
there on.

* `Ring.Preroll`, `Live` — the states before the first commit and after it.
* `Ring.Running` — the part of `Live` that also holds while a frame is being placed.
* `Ring.Running.checkStarved` — an underrun is counted once until the next commit.
* `Ring.sync_eq` — looking at a reader that has moved on.
-/

namespace Ring

variable {σ : Shape} {d : Ring} {history : List Commit} {n limit : Nat}

/-- The calls of ring playback. -/
def port : Port Ring where
  acquire := acquire
  write := write
  commit := commit
  advance := advance
  place d := some d.staging
  deck := toDeck

theorem onDeck_ok {α : Type} {act : Run Deck α} {a : α} {t : Deck} (h : act d.toDeck = .ok a t) :
    onDeck act d = .ok a { d with toDeck := t } :=
  Run.within_ok h

/-- A new ring is silent, and its channel is quiet. -/
theorem new_inv {engine : Engine} {channel len pole : Nat} {config : RingConfig}
    (hnew : new engine channel len pole config = .ok d) (hquiet : engine.Quiet) :
    ∃ ch e, Engine.Quiet e ∧ d =
      { engine := e, channel := ch, config, pole
        ring := Array.replicate (config.sizeFor len) silence
        staging := Array.replicate len silence } := by
  rw [new] at hnew
  obtain ⟨⟨ch, e⟩, hclaim, hnew⟩ := Run.bind_eq_ok hnew
  exact ⟨ch, e, (hquiet.claim hclaim).1, (Except.ok.inj hnew).symm⟩

/-! ### States -/

/-- What holds before playback and in it. -/
structure Steady (σ : Shape) (history : List Commit) (d : Ring) : Prop where
  size : d.ring.size = σ.size
  staging : d.staging.size = σ.len
  config : d.config = σ.config
  pole : d.pole = σ.pole
  solo : d.engine.Solo d.channel
  frames : ∀ c ∈ history, c.frame.size = σ.len
  commits : d.stats.commits = history.length
  overruns : d.stats.overruns = 0
  tagMismatches : d.stats.tagMismatches = 0
  hardwareWords : d.stats.hardwareWords = d.played.size

/-- **Before the first commit** the ring is silent. -/
structure Preroll (σ : Shape) (d : Ring) : Prop extends Steady σ [] d where
  started : d.started = false
  stopped : (d.engine.channel d.channel).busy = false
  played : d.played = #[]
  readPos : d.readPos = 0
  shows : Shows d.ring σ.blank.stream 0
  underruns : d.stats.underruns = 0

/-- **The reader's side in playback:** so many words of the stream have been played, and the ring
    shows those that follow. -/
structure Running (σ : Shape) (history : List Commit) (d : Ring) : Prop
    extends Steady σ history d where
  nonempty : history ≠ []
  started : d.started = true
  cycles : (d.engine.channel d.channel).Cycles (d.readPos % d.ring.size) d.ring.size
  lastIndex : d.lastIndex = d.readPos % d.ring.size
  shows : Shows d.ring (σ.score history).stream d.readPos
  played : d.played.toList = opening (σ.score history).stream d.played.size
  readPos : d.readPos = d.played.size
  beyond : ∀ i, d.readPos + d.ring.size ≤ i → (σ.score history).stream i = silence

/-- **In playback,** the writer stands at the end of the last frame. -/
structure Live (σ : Shape) (history : List Commit) (d : Ring) : Prop
    extends Running σ history d where
  writePos : d.writePos = (σ.score history).finish
  fits : d.writePos ≤ d.readPos + σ.size
  starved : d.starved = decide (d.writePos < d.readPos)
  underruns : d.stats.underruns =
    (σ.score history).late + if d.writePos < d.readPos then 1 else 0

/-! ### Nothing that playback depends on -/

section Alike

variable {t : Deck} (ht : d.toDeck.Alike t)

include ht

theorem Steady.alike (h : Steady σ history d) : Steady σ history { d with toDeck := t } := by
  obtain ⟨⟨_, _, mailbox⟩, _, held, ⟨_, _, _, _, _, _, _, _, _⟩, notices⟩ := t
  obtain ⟨rfl, rfl, rfl, rfl, rfl, rfl, rfl, rfl, rfl⟩ := ht
  exact ⟨h.size, h.staging, h.config, h.pole, ⟨h.solo.others, h.solo.chain, h.solo.pending⟩,
    h.frames, h.commits, h.overruns, h.tagMismatches, h.hardwareWords⟩

theorem Preroll.alike (h : Preroll σ d) : Preroll σ { d with toDeck := t } := by
  have hsteady := h.toSteady.alike ht
  obtain ⟨⟨_, _, mailbox⟩, _, held, ⟨_, _, _, _, _, _, _, _, _⟩, notices⟩ := t
  obtain ⟨rfl, rfl, rfl, rfl, rfl, rfl, rfl, rfl, rfl⟩ := ht
  exact ⟨hsteady, h.started, h.stopped, h.played, h.readPos, h.shows, h.underruns⟩

theorem Live.alike (h : Live σ history d) : Live σ history { d with toDeck := t } := by
  have hsteady := h.toSteady.alike ht
  obtain ⟨⟨_, _, mailbox⟩, _, held, ⟨_, _, _, _, _, _, _, _, _⟩, notices⟩ := t
  obtain ⟨rfl, rfl, rfl, rfl, rfl, rfl, rfl, rfl, rfl⟩ := ht
  exact ⟨⟨hsteady, h.nonempty, h.started, h.cycles, h.lastIndex, h.shows, h.played, h.readPos,
    h.beyond⟩, h.writePos, h.fits, h.starved, h.underruns⟩

end Alike

/-! ### The reader passes the writer -/

theorem checkStarved_of_le (h : d.readPos ≤ d.writePos) : d.checkStarved = d := by
  rw [checkStarved, if_neg]
  exact fun hstarved => absurd hstarved.1 (Nat.not_lt.mpr h)

theorem checkStarved_of_starved (h : d.starved = true) : d.checkStarved = d := by
  rw [checkStarved, if_neg]
  intro hstarved
  rw [h] at hstarved
  exact absurd hstarved.2 Bool.false_ne_true

/-- The state once an underrun has been counted. -/
def late (d : Ring) : Ring :=
  { d with
    starved := true
    toDeck := d.toDeck.underrun
      (s!"ring underrun, reader {d.readPos - d.writePos} words past writer") }

theorem checkStarved_of_lt (h : d.writePos < d.readPos) (hstarved : d.starved = false) :
    d.checkStarved = d.late := by
  rw [checkStarved, if_pos ⟨h, by rw [hstarved]; rfl⟩]
  rfl

theorem Running.late (h : Running σ history d) : Running σ history d.late :=
  ⟨⟨h.size, h.staging, h.config, h.pole, h.solo, h.frames, h.commits, h.overruns, h.tagMismatches,
    h.hardwareWords⟩, h.nonempty, h.started, h.cycles, h.lastIndex, h.shows, h.played, h.readPos,
    h.beyond⟩

/-- Time changes nothing that software is at. -/
structure Untouched (d d' : Ring) : Prop where
  staging : d'.staging = d.staging
  writePos : d'.writePos = d.writePos
  waitSpins : d'.stats.waitSpins = d.stats.waitSpins
  held : d'.held = d.held

theorem Untouched.trans {d₁ d₂ d₃ : Ring} (h : Untouched d₁ d₂) (h' : Untouched d₂ d₃) :
    Untouched d₁ d₃ :=
  ⟨h'.staging.trans h.staging, h'.writePos.trans h.writePos, h'.waitSpins.trans h.waitSpins,
    h'.held.trans h.held⟩

/-- **An underrun is counted once** until the next commit: `r` is where the reader was before. -/
theorem Running.checkStarved (h : Running σ history d) {r : Nat} (hr : r ≤ d.readPos)
    (hwrite : d.writePos = (σ.score history).finish)
    (hfits : d.writePos ≤ d.readPos + σ.size)
    (hstarved : d.starved = decide (d.writePos < r))
    (hunderruns : d.stats.underruns =
      (σ.score history).late + if d.writePos < r then 1 else 0) :
    Live σ history d.checkStarved ∧ d.checkStarved.readPos = d.readPos ∧
      Untouched d d.checkStarved := by
  -- Only a reader that passes the writer in this very step is counted.
  by_cases hpassed : d.writePos < d.readPos
  · by_cases hbefore : d.writePos < r
    · rw [if_pos hbefore] at hunderruns
      rw [decide_eq_true hbefore] at hstarved
      rw [checkStarved_of_starved hstarved]
      refine ⟨⟨h, hwrite, hfits, ?_, ?_⟩, rfl, rfl, rfl, rfl, rfl⟩
      · rw [hstarved, decide_eq_true hpassed]
      · rw [if_pos hpassed, hunderruns]
    · rw [if_neg hbefore] at hunderruns
      rw [decide_eq_false hbefore] at hstarved
      rw [checkStarved_of_lt hpassed hstarved]
      refine ⟨⟨h.late, hwrite, hfits, (decide_eq_true hpassed).symm, ?_⟩, rfl, rfl, rfl, rfl, rfl⟩
      show d.stats.underruns + 1 = (σ.score history).late + if d.writePos < d.readPos then 1 else 0
      rw [if_pos hpassed, hunderruns]
  · have hbefore : ¬d.writePos < r := by omega
    rw [if_neg hbefore] at hunderruns
    rw [decide_eq_false hbefore] at hstarved
    rw [checkStarved_of_le (Nat.not_lt.mp hpassed)]
    refine ⟨⟨h, hwrite, hfits, ?_, ?_⟩, rfl, rfl, rfl, rfl, rfl⟩
    · rw [hstarved, decide_eq_false hpassed]
    · rw [if_neg hpassed, hunderruns]

/-! ### Looking at the reader -/

theorem readIndex_eq {w : Nat} (h : (d.engine.channel d.channel).Cycles w d.ring.size)
    (hsize : d.ring.size ≤ regionWords) (hw : w < d.ring.size) : d.readIndex = w := by
  have haddr : d.engine.readAddr d.channel = regionAddress 0 w := h.readAddr
  rw [readIndex, haddr, wordOf_regionAddress 0 (by omega)]
  exact Nat.mod_eq_of_lt hw

/-- How far the reader has moved on, if it has not come round. -/
theorem readDelta_eq {r : Nat}
    (h : (d.engine.channel d.channel).Cycles ((r + n) % d.ring.size) d.ring.size)
    (hsize : d.ring.size ≤ regionWords) (hindex : d.lastIndex = r % d.ring.size)
    (hn : n < d.ring.size) : d.readDelta = n := by
  have hpos : 0 < d.ring.size := by omega
  have hlt : r % d.ring.size < d.ring.size := Nat.mod_lt r hpos
  rw [readDelta, readIndex_eq h hsize (Nat.mod_lt _ hpos), hindex]
  show ((r + n) % d.ring.size + d.ring.size - r % d.ring.size) % d.ring.size = n
  rw [Nat.add_sub_assoc (Nat.le_of_lt hlt), Nat.mod_add_mod, ← Nat.add_sub_assoc (Nat.le_of_lt hlt)]
  -- What is left of `r + n` is `n` and whole laps.
  have hlap : r + n + d.ring.size - r % d.ring.size = n + d.ring.size * (r / d.ring.size + 1) := by
    have hdiv := Nat.div_add_mod r d.ring.size
    rw [Nat.mul_succ]
    omega
  rw [hlap, Nat.add_mul_mod_self_left, Nat.mod_eq_of_lt hn]

/-- Looking at a reader that has moved on by `n` words. -/
theorem sync_eq {r : Nat} (hstarted : d.started = true)
    (h : (d.engine.channel d.channel).Cycles ((r + n) % d.ring.size) d.ring.size)
    (hsize : d.ring.size ≤ regionWords) (hindex : d.lastIndex = r % d.ring.size)
    (hn : n < d.ring.size) :
    d.sync = checkStarved
      { d with
        ring := silenceWrapped n d.readPos d.ring
        lastIndex := (r + n) % d.ring.size
        readPos := d.readPos + n } := by
  rw [sync, if_pos hstarted]
  simp only [readDelta_eq h hsize hindex hn,
    readIndex_eq h hsize (Nat.mod_lt _ (by omega : 0 < d.ring.size))]

/-- Looking at a reader that has not moved on. -/
theorem sync_still {r : Nat} (hstarted : d.started = true)
    (h : (d.engine.channel d.channel).Cycles (r % d.ring.size) d.ring.size)
    (hsize : d.ring.size ≤ regionWords) (hindex : d.lastIndex = r % d.ring.size)
    (hpos : 0 < d.ring.size) : d.sync = d.checkStarved := by
  have hsync := sync_eq (n := 0) hstarted h hsize hindex hpos
  rw [silenceWrapped, Nat.add_zero, Nat.add_zero, ← hindex] at hsync
  exact hsync

end Ring

end ConsolePipeline.Playback
