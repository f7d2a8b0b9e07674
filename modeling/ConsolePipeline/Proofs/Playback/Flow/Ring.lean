import ConsolePipeline.Proofs.Playback.Flow.Transfers
import ConsolePipeline.Proofs.Playback.Ring.Law

namespace ConsolePipeline.Playback.Ring

open Run Stereo

/-!
# Time flows evenly: ring playback

A transfer ends where the ring does and at half of it, and the reader is looked at after each. Words
that are silenced behind the reader in two goes are those silenced in one, and an underrun is
counted once, whenever it is noticed. Only what is noted about it tells how far the reader was by
then.

* `Ring.after`, `after_after` — the state once so many words have been played.
* `Ring.quiet` — the state without what has been noted; `quiet_checkStarved_after` — an underrun is
  counted in the first of two goes or in the second.
* `Ring.Regular` — the reader goes round, or has not begun to; `Regular.step` — a step comes to as
  many ticks as it takes.
-/

variable {d d' : Ring} {n limit : Nat}

/-- The state once the next `n` words have been played. -/
def after (d : Ring) (n : Nat) : Ring :=
  d.passed n (d.ring.extract (d.readPos % d.ring.size) (d.readPos % d.ring.size + n))
    (d.engine.turned d.channel ((d.readPos + n) % d.ring.size))

/-- The state without what has been noted. -/
def quiet (d : Ring) : Ring :=
  { d with notices := #[] }

/-! ### Two goes in one -/

/-- What comes after a word does not depend on it. -/
theorem extract_setIfInBounds_of_lt {ring : Array Word} {i j : Nat} (h : i < j) (w : Word)
    (k : Nat) : (ring.setIfInBounds i w).extract j k = ring.extract j k := by
  apply Array.ext
  · simp only [Array.size_extract, Array.size_setIfInBounds]
  · intro l hl hl'
    rw [Array.getElem_extract, Array.getElem_extract, Array.getElem_setIfInBounds_ne]
    omega

/-- **Words played in two goes,** the first of which is one word, are those played in one. -/
theorem after_after (hn : 0 < n) (hfits : d.readPos % d.ring.size + (n + 1) ≤ d.ring.size) :
    (d.after 1).after n = d.after (n + 1) := by
  have hplace : (d.readPos + 1) % d.ring.size = d.readPos % d.ring.size + 1 := by
    rw [← Nat.mod_add_mod, Nat.mod_eq_of_lt (by omega)]
  have hsize : (silenceWrapped 1 d.readPos d.ring).size = d.ring.size := size_silenceWrapped _ _ _
  -- Silence has been put behind the reader only, so the second go reads what was there before.
  have hrest : (silenceWrapped 1 d.readPos d.ring).extract (d.readPos % d.ring.size + 1)
      (d.readPos % d.ring.size + 1 + n) =
      d.ring.extract (d.readPos % d.ring.size + 1) (d.readPos % d.ring.size + (n + 1)) := by
    rw [Nat.add_assoc, Nat.add_comm 1 n]
    exact extract_setIfInBounds_of_lt (Nat.lt_succ_self _) _ _
  have hout : d.ring.extract (d.readPos % d.ring.size) (d.readPos % d.ring.size + 1) ++
      d.ring.extract (d.readPos % d.ring.size + 1) (d.readPos % d.ring.size + (n + 1)) =
      d.ring.extract (d.readPos % d.ring.size) (d.readPos % d.ring.size + (n + 1)) := by
    rw [Array.extract_append_extract]
    congr 1 <;> omega
  have hend : d.readPos + 1 + n = d.readPos + (n + 1) := by omega
  have hwrapped : silenceWrapped n (d.readPos + 1) (silenceWrapped 1 d.readPos d.ring) =
      silenceWrapped (n + 1) d.readPos d.ring := rfl
  have hengine (out : Array Word) (a b : Nat) :
      (d.heard out (d.engine.turned d.channel a)).engine.turned d.channel b =
        d.engine.turned d.channel b := Engine.turned_turned _ _ _ _
  simp only [after, passed, hsize, hplace, hrest, hend, hwrapped, hengine, Deck.heard_heard, hout]

/-- An underrun that has been counted is not counted again. -/
theorem quiet_checkStarved_after (d : Ring) (n : Nat) :
    (d.checkStarved.after n).checkStarved.quiet = (d.after n).checkStarved.quiet := by
  cases hstarved : d.starved with
  | true => rw [checkStarved_of_starved hstarved]
  | false =>
    obtain hlt | hle := Nat.lt_or_ge d.writePos d.readPos
    · have hlater : (d.after n).writePos < (d.after n).readPos := Nat.lt_add_right n hlt
      have hcounted : (d.late.after n).starved = true := rfl
      rw [checkStarved_of_lt hlt hstarved, checkStarved_of_starved hcounted,
        checkStarved_of_lt hlater hstarved]
      rfl
    · rw [checkStarved_of_le hle]

theorem quiet_checkStarved (d : Ring) : d.quiet.checkStarved.quiet = d.checkStarved.quiet := by
  by_cases hpassed : d.writePos < d.readPos ∧ !d.starved
  · have hquiet : d.quiet.writePos < d.quiet.readPos ∧ !d.quiet.starved := hpassed
    rw [checkStarved, if_pos hquiet, checkStarved, if_pos hpassed]
    rfl
  · have hquiet : ¬(d.quiet.writePos < d.quiet.readPos ∧ !d.quiet.starved) := hpassed
    rw [checkStarved, if_neg hquiet, checkStarved, if_neg hpassed]
    rfl

/-! ### Ticks -/

/-- One unit of time, of which nothing is noted. -/
def beat (d : Ring) : Ring :=
  (tick step d).quiet

/-- The states in which the reader goes round, or has not begun to. -/
def Regular (d : Ring) : Prop :=
  Turning d ∨ d.started = false ∧ ∀ c : ChannelId, (d.engine.channel c).busy = false

theorem Sound.regular {σ : Shape} {history : List Commit} (h : Sound σ history d) : Regular d := by
  rcases h with ⟨-, h⟩ | h
  · exact .inr ⟨h.started, h.solo.idle h.stopped⟩
  · exact .inl h.turning

theorem Turning.quiet (h : Turning d) : Turning d.quiet :=
  ⟨⟨h.started, h.solo, h.cycles, h.lastIndex⟩, h.followable⟩

theorem Turning.after (h : Turning d) (hn : d.readPos % d.ring.size + n ≤ d.ring.size) :
    Turning (d.after n) ∧ Passes n 0 d (d.after n) :=
  h.passed hn

theorem Turning.tick (h : Turning d) : tick Ring.step d = (d.after 1).checkStarved := by
  have hlt : d.readPos % d.ring.size < d.ring.size := Nat.mod_lt _ h.size_pos
  have hn : 1 = min (min 1 (max (d.ring.size / 2) 1)) (d.ring.size - d.readPos % d.ring.size) := by
    omega
  exact tick_eq (h.step_eq hn Nat.one_pos)

theorem Turning.beat (h : Turning d) : d.quiet.beat = (d.after 1).checkStarved.quiet := by
  rw [Ring.beat, h.quiet.tick]
  exact quiet_checkStarved (d.after 1)

/-- **Words that are played up to the end of the ring** are played one at a time. -/
theorem Turning.iterate_beat (h : Turning d) (hn : 0 < n)
    (hfits : d.readPos % d.ring.size + n ≤ d.ring.size) :
    Ring.beat^[n] d.quiet = (d.after n).checkStarved.quiet := by
  induction n, hn using Nat.le_induction generalizing d with
  | base => exact h.beat
  | succ n hn ih =>
    obtain ⟨hafter, -⟩ := h.after (n := 1) (by omega)
    obtain ⟨hturning, hsame⟩ := hafter.checkStarved
    have hread : (d.after 1).checkStarved.readPos = d.readPos + 1 := hsame.readPos
    have hsize : (d.after 1).checkStarved.ring.size = d.ring.size :=
      hsame.size.trans (size_silenceWrapped _ _ _)
    have hplace : (d.readPos + 1) % d.ring.size = d.readPos % d.ring.size + 1 := by
      rw [← Nat.mod_add_mod, Nat.mod_eq_of_lt (by omega)]
    rw [Function.iterate_succ_apply, h.beat, ih hturning (by rw [hread, hsize, hplace]; omega),
      quiet_checkStarved_after, after_after hn hfits]

/-- Time before playback is counted in one go or in several. -/
theorem iterate_beat_idle (hstarted : d.started = false)
    (hidle : ∀ c : ChannelId, (d.engine.channel c).busy = false) (n : Nat) :
    Ring.beat^[n] d.quiet = { d.quiet with toDeck := d.quiet.toDeck.idled n } := by
  induction n generalizing d with
  | zero => rfl
  | succ n ih =>
    have hbeat : d.quiet.beat = { d with toDeck := d.toDeck.idled 1 }.quiet := by
      have hmin : min 1 (max (d.quiet.ring.size / 2) 1) = 1 := by omega
      have hstep := step_idle (d := d.quiet) hstarted hidle 1
      rw [hmin] at hstep
      rw [Ring.beat, tick_eq hstep]
      rfl
    rw [Function.iterate_succ_apply, hbeat]
    refine (ih (d := { d with toDeck := d.toDeck.idled 1 }) hstarted hidle).trans ?_
    have hcount := Deck.idled_idled d.quiet.toDeck 1 n
    rw [Nat.add_comm 1 n] at hcount
    exact congrArg (fun t : Deck => { d.quiet with toDeck := t }) hcount

/-- **A step comes to as many ticks as it takes,** except for what is noted. -/
theorem Regular.step (h : Regular d) (hlimit : 0 < limit) :
    ∃ n d', Ring.step limit d = .ok n d' ∧ 0 < n ∧ n ≤ limit ∧ Regular d' ∧
      d'.quiet = Ring.beat^[n] d.quiet ∧ d.toDeck.Elapsed n d'.toDeck := by
  rcases h with h | ⟨hstarted, hidle⟩
  · have hlt : d.readPos % d.ring.size < d.ring.size := Nat.mod_lt _ h.size_pos
    obtain ⟨n, hn⟩ : ∃ n, n = min (min limit (max (d.ring.size / 2) 1))
      (d.ring.size - d.readPos % d.ring.size) := ⟨_, rfl⟩
    obtain ⟨hafter, -⟩ := h.after (n := n) (by omega)
    refine ⟨n, _, h.step_eq hn hlimit, by omega, by omega, .inl hafter.checkStarved.1,
      (h.iterate_beat (by omega) (by omega)).symm, ?_⟩
    have hout : (d.ring.extract (d.readPos % d.ring.size) (d.readPos % d.ring.size + n)).size =
        n := by
      rw [Array.size_extract]
      omega
    have helapsed : d.toDeck.Elapsed n (d.after n).toDeck := by
      have hheard := Deck.elapsed_heard d.toDeck
        (d.ring.extract (d.readPos % d.ring.size) (d.readPos % d.ring.size + n))
        (d.engine.turned d.channel ((d.readPos + n) % d.ring.size))
      rwa [hout] at hheard
    refine helapsed.congr ?_
    rw [Ring.checkStarved]
    split <;> rfl
  · exact ⟨_, _, step_idle hstarted hidle limit, by omega, by omega, .inr ⟨hstarted, hidle⟩,
      (iterate_beat_idle hstarted hidle _).symm, Deck.elapsed_idled _ _⟩

theorem Regular.flows (h : Regular d) : Flows advance toDeck quiet d :=
  .of_steps (fun _ _ hlimit hs => hs.step hlimit) h

end ConsolePipeline.Playback.Ring
