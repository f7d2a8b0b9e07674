import ConsolePipeline.Proofs.Playback.Ring.States

namespace ConsolePipeline.Playback

open Stereo

/-!
# A reader that goes round the ring

How far the reader gets does not depend on what the ring holds, on where the writer is, or on
whether the frames fit.

* `Followable` — a ring of that size tells how far its reader has gone.
* `Ring.Passes` — so many words have been played, in so many rounds of waiting.
* `Ring.Seen`, `Turning` — the reader goes round.
* `Ring.Turning.step_eq`, `advance`, `spin` — each word of time takes it on by one word.
-/

/-- **A reader can be followed** through a ring of this size: its words have addresses of their own,
    and the reader does not come round in a single transfer. -/
structure Followable (size : Nat) : Prop where
  isPowerOfTwo : size.isPowerOfTwo
  two_le : 2 ≤ size
  addressable : size ≤ regionWords

namespace Ring

variable {d d' : Ring} {n k limit : Nat}

/-- **Time has passed:** `n` words of it, all of them played, `k` rounds of waiting among it. -/
structure Passes (n k : Nat) (d d' : Ring) : Prop where
  size : d'.ring.size = d.ring.size
  staging : d'.staging = d.staging
  config : d'.config = d.config
  writePos : d'.writePos = d.writePos
  readPos : d'.readPos = d.readPos + n
  played : d'.played.size = d.played.size + n
  idleWords : d'.stats.idleWords = d.stats.idleWords
  waitSpins : d'.stats.waitSpins = d.stats.waitSpins + k

theorem Passes.refl (d : Ring) : Passes 0 0 d d :=
  ⟨rfl, rfl, rfl, rfl, rfl, rfl, rfl, rfl⟩

theorem Passes.trans {n' k' : Nat} {d'' : Ring} (h : Passes n k d d') (h' : Passes n' k' d' d'') :
    Passes (n + n') (k + k') d d'' where
  size := h'.size.trans h.size
  staging := h'.staging.trans h.staging
  config := h'.config.trans h.config
  writePos := h'.writePos.trans h.writePos
  readPos := by
    rw [h'.readPos, h.readPos, Nat.add_assoc]
  played := by
    rw [h'.played, h.played, Nat.add_assoc]
  idleWords := h'.idleWords.trans h.idleWords
  waitSpins := by
    rw [h'.waitSpins, h.waitSpins, Nat.add_assoc]

/-- The reader runs, and stands where it was last seen. -/
structure Seen (d : Ring) : Prop where
  started : d.started = true
  solo : d.engine.Solo d.channel
  cycles : (d.engine.channel d.channel).Cycles (d.readPos % d.ring.size) d.ring.size
  lastIndex : d.lastIndex = d.readPos % d.ring.size

/-- **The reader goes round the ring,** and can be followed. -/
structure Turning (d : Ring) : Prop extends Seen d where
  followable : Followable d.ring.size

namespace Turning

theorem size_pos (h : Turning d) : 0 < d.ring.size :=
  Nat.lt_of_lt_of_le Nat.zero_lt_two h.followable.two_le

/-! ### Time -/

/-- An underrun that is counted leaves the reader as it is. -/
theorem checkStarved (h : Turning d) : Turning d.checkStarved ∧ Passes 0 0 d d.checkStarved := by
  rw [Ring.checkStarved]
  split
  · exact ⟨⟨⟨h.started, h.solo, h.cycles, h.lastIndex⟩, h.followable⟩,
      ⟨rfl, rfl, rfl, rfl, rfl, rfl, rfl, rfl⟩⟩
  · exact ⟨h, .refl d⟩

/-- Looking at the reader again finds it where it was. -/
theorem sync (h : Turning d) : d.sync = d.checkStarved :=
  sync_still h.started h.cycles h.followable.addressable h.lastIndex h.size_pos

end Turning

/-- The state once words have been played and silenced behind the reader. -/
def passed (d : Ring) (n : Nat) (out : Array Word) (engine : Engine) : Ring :=
  { d with
    toDeck := d.toDeck.heard out engine
    ring := silenceWrapped n d.readPos d.ring
    lastIndex := (d.readPos + n) % d.ring.size
    readPos := d.readPos + n }

namespace Turning

/-- **What one transfer comes to.** It stops at half of the ring, and where the ring ends. -/
theorem step_eq (h : Turning d)
    (hn : n = min (min limit (max (d.ring.size / 2) 1)) (d.ring.size - d.readPos % d.ring.size))
    (hlimit : 0 < limit) :
    step limit d = .ok n (d.passed n
      (d.ring.extract (d.readPos % d.ring.size) (d.readPos % d.ring.size + n))
      (d.engine.turned d.channel ((d.readPos + n) % d.ring.size))).checkStarved := by
  have htwo := h.followable.two_le
  have hlt : d.readPos % d.ring.size < d.ring.size := Nat.mod_lt _ h.size_pos
  have hturned : (d.readPos % d.ring.size + n) % d.ring.size = (d.readPos + n) % d.ring.size :=
    Nat.mod_add_mod _ _ _
  have hstep := Engine.step_ring (h.solo.running? h.cycles.busy) h.cycles
    h.followable.isPowerOfTwo (Nat.lt_of_lt_of_le hlt h.followable.addressable) hlt
    (by omega : 0 < min limit (max (d.ring.size / 2) 1))
  rw [← hn, hturned] at hstep
  have htransfer := Deck.transfer_ok hstep (by rw [Array.size_extract]; omega)
  rw [Ring.step, Run.get_bind, Run.bind_ok (onDeck_ok htransfer), Run.modify_bind, Run.pure_apply]
  refine congrArg (EStateM.Result.ok n)
    (sync_eq h.started ?_ h.followable.addressable h.lastIndex ?_)
  · exact Engine.cycles_turned h.cycles _
  · show n < d.ring.size
    omega

/-- The reader has gone on by as many words as have been played. -/
theorem passed (h : Turning d) (hn : d.readPos % d.ring.size + n ≤ d.ring.size) :
    Turning (d.passed n
        (d.ring.extract (d.readPos % d.ring.size) (d.readPos % d.ring.size + n))
        (d.engine.turned d.channel ((d.readPos + n) % d.ring.size))) ∧
      Passes n 0 d (d.passed n
        (d.ring.extract (d.readPos % d.ring.size) (d.readPos % d.ring.size + n))
        (d.engine.turned d.channel ((d.readPos + n) % d.ring.size))) := by
  have hsize : (silenceWrapped n d.readPos d.ring).size = d.ring.size := size_silenceWrapped _ _ _
  refine ⟨⟨⟨h.started, h.solo.turned _, ?_, ?_⟩, ?_⟩, hsize, rfl, rfl, rfl, rfl, ?_, rfl, rfl⟩
  · show Channel.Cycles _ ((d.readPos + n) % (silenceWrapped n d.readPos d.ring).size)
      (silenceWrapped n d.readPos d.ring).size
    rw [hsize]
    exact Engine.cycles_turned h.cycles _
  · show (d.readPos + n) % d.ring.size = (d.readPos + n) % (silenceWrapped n d.readPos d.ring).size
    rw [hsize]
  · show Followable (silenceWrapped n d.readPos d.ring).size
    rw [hsize]
    exact h.followable
  · show (d.played ++ d.ring.extract _ _).size = d.played.size + n
    rw [Array.size_append, Array.size_extract]
    omega

/-- **One transfer** takes the reader on by the words it plays. -/
theorem step (h : Turning d) (hlimit : 0 < limit) :
    ∃ n d', Ring.step limit d = .ok n d' ∧ 0 < n ∧ n ≤ limit ∧ Turning d' ∧ Passes n 0 d d' := by
  have hlt : d.readPos % d.ring.size < d.ring.size := Nat.mod_lt _ h.size_pos
  obtain ⟨n, hn⟩ : ∃ n, n = min (min limit (max (d.ring.size / 2) 1))
    (d.ring.size - d.readPos % d.ring.size) := ⟨_, rfl⟩
  obtain ⟨hpassed, hpasses⟩ := h.passed (n := n) (by omega)
  obtain ⟨hturning, hsame⟩ := hpassed.checkStarved
  exact ⟨n, _, h.step_eq hn hlimit, by omega, by omega, hturning, hpasses.trans hsame⟩

/-- **Hardware time in playback:** each word of time is a word played. -/
theorem advance (h : Turning d) (n : Nat) :
    ∃ d', Ring.advance n d = .ok () d' ∧ Turning d' ∧ Passes n 0 d d' := by
  have hstep : ∀ t limit s, 0 < limit → Turning s ∧ Passes t 0 d s →
      ∃ n s', Ring.step limit s = .ok n s' ∧ 0 < n ∧ n ≤ limit ∧
        Turning s' ∧ Passes (t + n) 0 d s' := by
    rintro t limit s hlimit ⟨hturning, hpasses⟩
    obtain ⟨n, s', hs, hpos, hle, hturning', hpasses'⟩ := hturning.step hlimit
    exact ⟨n, s', hs, hpos, hle, hturning', hpasses.trans hpasses'⟩
  obtain ⟨d', hd', hturning, hpasses⟩ := Run.elapse_ok hstep n 0 d ⟨h, .refl d⟩
  rw [Nat.zero_add] at hpasses
  exact ⟨d', hd', hturning, hpasses⟩

/-- One round of waiting. -/
theorem spin (h : Turning d) :
    ∃ d', Ring.spin d = .ok () d' ∧ Turning d' ∧ Passes waitWords 1 d d' := by
  have hspun : Turning { d with toDeck := d.toDeck.spun } :=
    ⟨⟨h.started, h.solo, h.cycles, h.lastIndex⟩, h.followable⟩
  have hround : Passes 0 1 d { d with toDeck := d.toDeck.spun } :=
    ⟨rfl, rfl, rfl, rfl, rfl, rfl, rfl, rfl⟩
  obtain ⟨d', hd', hturning, hpasses⟩ := hspun.advance waitWords
  have hpasses := hround.trans hpasses
  rw [Nat.zero_add] at hpasses
  exact ⟨d', hd', hturning, hpasses⟩

end Turning

end Ring

end ConsolePipeline.Playback
