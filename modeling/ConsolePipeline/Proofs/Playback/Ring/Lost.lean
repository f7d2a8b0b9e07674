import ConsolePipeline.Proofs.Playback.Ring.Onward

namespace ConsolePipeline.Playback

open Stereo

/-!
# Readers that cannot be followed

Two kinds of ring do not tell how far their reader has gone. A ring of one word brings it back to
where it was in a single transfer. A ring longer than a region takes it to the first word of the
next region, which is no memory of the ring's: there it is taken to stand at the first word of the
ring, and no word is played from then on.

* `Ring.Seen.advance_unseen` — the reader moves on, and is not seen to.
* `Ring.Lost` — the reader has left the ring; `Lost.call_inv` — it stays where it is.
* `Silent.neverStops_iff` — which rings never stop.
-/

namespace Ring

variable {d d' : Ring} {size len n limit : Nat}

/-! ### A move that is not seen -/

/-- Looking at a reader that seems to stand at the first word, where it was before. -/
theorem sync_unmoved (hstarted : d.started = true)
    (hword : wordOf (d.engine.readAddr d.channel) = 0) (hindex : d.lastIndex = 0) :
    d.sync = d.checkStarved := by
  have hread : d.readIndex = 0 := by
    rw [readIndex, hword, Nat.zero_mod]
  have hdelta : d.readDelta = 0 := by
    rw [readDelta, hread, hindex, Nat.zero_add, Nat.sub_zero, Nat.mod_self]
  rw [sync, if_pos hstarted]
  simp only [hread, hdelta, silenceWrapped, Nat.add_zero]
  rw [← hindex]

/-- The state once the first words of the ring have been played, before the reader is looked at. -/
def unlooked (d : Ring) (n : Nat) : Ring :=
  { d with
    toDeck := d.toDeck.heard (d.ring.extract 0 n)
      (d.engine.turned d.channel (n % d.ring.size)) }

/-- The state once they have been played and the reader was not seen to move. -/
def unseen (d : Ring) (n : Nat) : Ring :=
  (d.unlooked n).checkStarved

/-- **The reader moves on and is not seen to,** if where it comes to looks like the first word. -/
theorem Seen.advance_unseen (h : Seen d) (hpower : d.ring.size.isPowerOfTwo) (hread : d.readPos = 0)
    (hpos : 0 < n) (hle : n ≤ d.ring.size) (hhalf : n ≤ max (d.ring.size / 2) 1)
    (hword : wordOf (regionAddress 0 (n % d.ring.size)) = 0) :
    advance n d = .ok () (d.unseen n) := by
  have hsize : 0 < d.ring.size := Nat.lt_of_lt_of_le hpos hle
  have hcycles := h.cycles
  have hindex := h.lastIndex
  rw [hread, Nat.zero_mod] at hcycles hindex
  -- All of it is played in a single transfer.
  have hengine := Engine.step_ring (h.solo.running? hcycles.busy) hcycles hpower (by decide) hsize
    (by omega : 0 < min n (max (d.ring.size / 2) 1))
  rw [Nat.sub_zero, Nat.min_eq_left hhalf, Nat.min_eq_left hle, Nat.zero_add] at hengine
  have htransfer := Deck.transfer_ok hengine (by rw [Array.size_extract]; omega)
  have hstep : Ring.step n d = .ok n (d.unseen n) := by
    rw [Ring.step, Run.get_bind, Nat.min_eq_left hhalf, Run.bind_ok (onDeck_ok htransfer),
      Run.modify_bind, Run.pure_apply]
    refine congrArg (EStateM.Result.ok n) (sync_unmoved h.started ?_ hindex)
    rw [← hword]
    exact congrArg wordOf (Engine.cycles_turned hcycles (n % d.ring.size)).readAddr
  rw [advance, Run.elapse, if_neg (by omega), hstep]
  simp only [Nat.pos_iff_ne_zero.mp hpos, if_false]
  rw [Nat.sub_self, Run.elapse, if_pos rfl]

theorem readPos_unseen (d : Ring) (n : Nat) : (d.unseen n).readPos = d.readPos := by
  rw [unseen, checkStarved]
  split <;> rfl

/-! ### The first commit -/

/-- **The first commit succeeds** if the frame is at most one word longer than the ring. -/
theorem Silent.commit_ok (h : Silent size len d) (hpos : 0 < size) (hlen : len ≤ size + 1)
    (count : Nat) : ∃ d', Ring.commit count d = .ok () d' := by
  have hstaging : (d.prepared count).staging.size = len := (d.size_prepared count).trans h.staging
  have hprepared := h.staged hstaging
  have hsize : 0 < d.size := by
    rw [Ring.size, h.size]
    exact hpos
  have hfits : (d.prepared count).staging.size ≤ d.size + 1 := by
    rw [hstaging, Ring.size, h.size]
    exact hlen
  have hmake := makeRoom_first hprepared.started (by exact hsize) (by exact hfits)
  refine ⟨_, commit_eq hmake hsize hfits ?_⟩
  show d.readPos + d.ring.size - _ ≤ d.ring.size
  rw [h.readPos]
  omega

/-- A frame that would be wrapped around the ring more than once is not taken in. -/
theorem Silent.le_of_commit {count : Nat} (h : Silent size len d)
    (hcommit : Ring.commit count d = .ok () d') : len ≤ 2 * size := by
  have hstaging : (padded d.staging count d.held).1.size = len :=
    (size_padded _ _ _).trans h.staging
  obtain ⟨s, hmake, -⟩ := Ring.commit_inv hcommit
  rw [Ring.makeRoom, Run.get_bind, if_neg (by simp [h.started]), Run.get_bind] at hmake
  obtain ⟨_, t, hwrap, -⟩ := Run.bind_inv hmake
  by_contra hlong
  rw [wrapOnce, Run.get_bind, if_pos] at hwrap
  · cases hwrap
  · show 2 * d.ring.size - 0 % d.ring.size < (padded d.staging count d.held).1.size
    rw [hstaging, h.size, Nat.zero_mod]
    omega

/-! ### Rings that stop -/

/-- **A ring stops** if some stretch of time is not seen. -/
theorem Silent.not_neverStops (h : Silent size len d) (hpower : size.isPowerOfTwo)
    (hlen : len ≤ size + 1) (hpos : 0 < n) (hle : n ≤ size) (hhalf : n ≤ max (size / 2) 1)
    (hword : wordOf (regionAddress 0 (n % size)) = 0) : ¬NeverStops d := by
  intro hnever
  obtain ⟨d₁, hd₁⟩ := h.commit_ok (by omega) hlen 0
  obtain ⟨hseen, hsize, -, -, hread, -⟩ := h.commit_inv hd₁
  have hrun : port.perform [.commit 0] (d, []) = .ok () (d₁, port.noted (.commit 0) d d₁) := by
    rw [Port.perform_cons (P := port) (by exact hd₁)]
    rfl
  obtain ⟨-, -, hcalls⟩ := hnever _ _ _ hrun (List.cons_ne_nil _ _)
  have hadvance : Ring.advance n d₁ = .ok () (d₁.unseen n) := by
    rw [← hsize] at hpower hle hhalf hword
    exact hseen.advance_unseen hpower hread hpos hle hhalf hword
  have hplays := (hcalls (.advance n) _ hadvance).readPos
  rw [readPos_unseen] at hplays
  have hplays : d₁.readPos = d₁.readPos + n := hplays
  omega

/-- A power of two that is more than a region has the region in its first half. -/
theorem regionWords_le_half (hpower : size.isPowerOfTwo) (hlarge : regionWords < size) :
    regionWords ≤ size / 2 := by
  obtain ⟨k, rfl⟩ := hpower
  have hexponent : 18 < k :=
    (Nat.pow_lt_pow_iff_right (by decide : 1 < 2)).mp (show 2 ^ 18 < 2 ^ k from hlarge)
  obtain ⟨j, rfl⟩ : ∃ j, k = j + 1 := ⟨k - 1, by omega⟩
  rw [Nat.pow_succ, Nat.mul_div_cancel _ Nat.zero_lt_two]
  exact Nat.pow_le_pow_right Nat.zero_lt_two (by omega : 18 ≤ j)

/-- **Which rings never stop:** those that fit into a region, unless a ring of one word takes a
    frame at all. -/
theorem Silent.neverStops_iff (h : Silent size len d) (hpower : size.isPowerOfTwo)
    (hlen : len ≤ regionWords) :
    NeverStops d ↔ size ≤ regionWords ∧ (size = 1 → 2 < len) := by
  have hpos := Nat.pos_of_isPowerOfTwo hpower
  constructor
  · intro hnever
    constructor
    · by_contra hlarge
      have hhalf := regionWords_le_half hpower (Nat.not_le.mp hlarge)
      refine h.not_neverStops (n := regionWords) hpower (by omega) (by decide) (by omega) (by omega)
        ?_ hnever
      rw [Nat.mod_eq_of_lt (by omega)]
      decide
    · rintro rfl
      by_contra hshort
      exact h.not_neverStops hpower (by omega) Nat.one_pos (by decide) (by decide) (by decide)
        hnever
  · rintro ⟨hregion, hone⟩
    by_cases hsize : size = 1
    · -- No frame is ever taken in, so nothing is ever played.
      intro calls d₁ history hrun hne
      have hlong := hone hsize
      have hcall : ∀ c history s s', history = [] ∧ Silent size len s →
          port.call c s = .ok () s' →
          history ++ port.noted c s s' = [] ∧ Silent size len s' := by
        rintro c history s s' ⟨rfl, hsilent⟩ hcall
        obtain hstill | ⟨count, rfl⟩ := hsilent.call_inv hcall
        · exact hstill
        · have hlen := hsilent.le_of_commit hcall
          omega
      exact absurd (Port.perform_inv hcall ⟨rfl, h⟩ hrun).1 hne
    · exact h.neverStops ⟨hpower, by omega, hregion⟩

/-! ### A reader that has left the ring -/

/-- **The reader has left the ring** for the region behind it, and is taken to stand at the first
    word. -/
structure Lost (d : Ring) : Prop where
  started : d.started = true
  solo : d.engine.Solo d.channel
  readAddr : (d.engine.channel d.channel).readAddr = regionAddress 0 regionWords
  lastIndex : d.lastIndex = 0

/-- Neither cursor has moved. -/
structure Rests (d d' : Ring) : Prop where
  size : d'.ring.size = d.ring.size
  staging : d'.staging = d.staging
  config : d'.config = d.config
  writePos : d'.writePos = d.writePos
  readPos : d'.readPos = d.readPos

theorem Rests.refl (d : Ring) : Rests d d :=
  ⟨rfl, rfl, rfl, rfl, rfl⟩

theorem Rests.trans {d'' : Ring} (h : Rests d d') (h' : Rests d' d'') : Rests d d'' :=
  ⟨h'.size.trans h.size, h'.staging.trans h.staging, h'.config.trans h.config,
    h'.writePos.trans h.writePos, h'.readPos.trans h.readPos⟩

theorem rests_checkStarved (d : Ring) : Rests d d.checkStarved := by
  rw [checkStarved]
  split <;> exact ⟨rfl, rfl, rfl, rfl, rfl⟩

theorem Lost.checkStarved (h : Lost d) : Lost d.checkStarved := by
  rw [Ring.checkStarved]
  split
  · exact ⟨h.started, h.solo, h.readAddr, h.lastIndex⟩
  · exact h

/-- **A reader that comes to the end of the region leaves the ring,** if that is longer. -/
theorem Seen.lost (h : Seen d) (hpower : d.ring.size.isPowerOfTwo) (hread : d.readPos = 0)
    (hlarge : regionWords < d.ring.size) :
    advance regionWords d = .ok () (d.unseen regionWords) ∧ Lost (d.unseen regionWords) ∧
      Rests d (d.unseen regionWords) := by
  have hhalf := regionWords_le_half hpower hlarge
  have hmod : regionWords % d.ring.size = regionWords := Nat.mod_eq_of_lt hlarge
  have hindex := h.lastIndex
  rw [hread, Nat.zero_mod] at hindex
  have hlost : Lost (d.unlooked regionWords) := by
    refine ⟨h.started, h.solo.turned _, ?_, hindex⟩
    have haddr := (Engine.cycles_turned h.cycles (regionWords % d.ring.size)).readAddr
    rw [hmod] at haddr
    rw [unlooked, hmod]
    exact haddr
  have hrests : Rests d (d.unlooked regionWords) := ⟨rfl, rfl, rfl, rfl, rfl⟩
  refine ⟨h.advance_unseen hpower hread (by decide) (by omega) (by omega) ?_, hlost.checkStarved,
    hrests.trans (rests_checkStarved _)⟩
  rw [hmod]
  decide

namespace Lost

theorem sync (h : Lost d) : Lost d.sync ∧ Rests d d.sync := by
  have hword : wordOf (d.engine.readAddr d.channel) = 0 := by
    show wordOf (d.engine.channel d.channel).readAddr = 0
    rw [h.readAddr]
    decide
  rw [sync_unmoved h.started hword h.lastIndex]
  exact ⟨h.checkStarved, rests_checkStarved d⟩

/-- **Time leaves a lost reader where it is.** -/
theorem step_inv (h : Lost d) (hstep : Ring.step limit d = .ok n d') : Lost d' ∧ Rests d d' := by
  obtain ⟨e, he, hsolo, haddr⟩ :=
    h.solo.step_behind h.readAddr d.ring (min limit (max (d.ring.size / 2) 1))
  obtain ⟨t, htransfer, rfl⟩ : ∃ t, Deck.transfer #[d.ring]
      (min limit (max (d.ring.size / 2) 1)) d.toDeck = .ok ⟨_, true, none⟩ t ∧ t.engine = e := by
    rw [Deck.transfer, he]
    exact ⟨_, rfl, rfl⟩
  rw [Ring.step, Run.get_bind, Run.bind_ok (onDeck_ok htransfer), Run.modify_bind,
    Run.pure_apply] at hstep
  cases hstep
  -- The channel has stopped at most, and the reader has been looked at once more.
  have hstopped : Lost { d with toDeck := t } := ⟨h.started, hsolo, haddr, h.lastIndex⟩
  have hrests : Rests d { d with toDeck := t } := ⟨rfl, rfl, rfl, rfl, rfl⟩
  obtain ⟨hlost, hsame⟩ := hstopped.sync
  exact ⟨hlost, hrests.trans hsame⟩

theorem advance_inv (h : Lost d) (hadvance : Ring.advance n d = .ok () d') :
    Lost d' ∧ Rests d d' := by
  refine Run.elapse_inv (P := fun s => Lost s ∧ Rests d s) ?_ ⟨h, .refl d⟩ hadvance
  rintro limit n s s' ⟨hlost, hrests⟩ hstep
  obtain ⟨hlost', hrests'⟩ := hlost.step_inv hstep
  exact ⟨hlost', hrests.trans hrests'⟩

/-- Waiting leaves it there as well. -/
theorem makeRoom_inv {s : Ring} (h : Lost d) (hmake : makeRoom d = .ok () s) :
    Lost s ∧ Rests d.bumped s := by
  rw [makeRoom_started h.started] at hmake
  obtain ⟨hlost, hrests⟩ := h.sync
  have haimed : Lost d.aimed ∧ Rests d.bumped d.aimed := by
    refine ⟨⟨hlost.started, hlost.solo, hlost.readAddr, hlost.lastIndex⟩, hrests.size,
      hrests.staging, hrests.config, ?_, hrests.readPos⟩
    show max d.sync.writePos d.sync.readPos = max d.writePos d.readPos
    rw [hrests.writePos, hrests.readPos]
  refine Run.waitWhile_inv (P := fun s => Lost s ∧ Rests d.bumped s) ?_ haimed hmake
  rintro s s' ⟨hlost, hrests⟩ hspin
  have hspun : Lost { s with toDeck := s.toDeck.spun } :=
    ⟨hlost.started, hlost.solo, hlost.readAddr, hlost.lastIndex⟩
  obtain ⟨hlost', hrests'⟩ := hspun.advance_inv hspin
  have hround : Rests s { s with toDeck := s.toDeck.spun } := ⟨rfl, rfl, rfl, rfl, rfl⟩
  exact ⟨hlost', hrests.trans (hround.trans hrests')⟩

/-- **A commit puts one frame after the other,** but the reader does not come to them. -/
theorem commit_inv {count : Nat} (h : Lost d) (hcommit : Ring.commit count d = .ok () d') :
    Lost d' ∧ d'.ring.size = d.ring.size ∧ d'.staging.size = d.staging.size ∧
      d'.config = d.config ∧ d'.readPos = d.readPos ∧
      d'.writePos = max d.writePos d.readPos + d.staging.size := by
  obtain ⟨s, hmake, rfl⟩ := Ring.commit_inv hcommit
  have hprepared : Lost (d.prepared count) := ⟨h.started, h.solo, h.readAddr, h.lastIndex⟩
  obtain ⟨hlost, hrests⟩ := hprepared.makeRoom_inv hmake
  have hstaging : s.staging.size = d.staging.size :=
    (congrArg Array.size hrests.staging).trans (d.size_prepared count)
  rw [if_pos hlost.started]
  refine ⟨⟨hlost.started, hlost.solo, hlost.readAddr, hlost.lastIndex⟩,
    (s.size_closed _).trans hrests.size, hstaging, hrests.config, hrests.readPos, ?_⟩
  show s.writePos + s.staging.size = _
  rw [hstaging, hrests.writePos]
  rfl

end Lost

end Ring

end ConsolePipeline.Playback
