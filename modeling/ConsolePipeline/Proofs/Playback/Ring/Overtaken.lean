import ConsolePipeline.Proofs.Playback.Ring.Ahead

namespace ConsolePipeline.Playback

open Stereo

/-!
# Frames that land behind the reader

A ring that is too short lets the reader pass the writer in the last round of a wait, and a ring
that is too long loses its reader, so that it fills up.

* `Ring.Reached` — the states that runs of calls lead to.
* `Ring.Going.exists_gap` — commits come to fill the ring up to the margin.
* `Ring.StaysAhead.ample`, `addressable` — a ring that stays ahead is neither too short nor too
  long.
* `Ring.Silent.staysAhead_iff` — which rings stay ahead.
-/

namespace Ring

variable {d d' s : Ring} {size len margin count n k : Nat}

/-! ### Runs of a ring that stays ahead -/

/-- The states that runs of calls lead to. -/
def Reached (d d' : Ring) : Prop :=
  ∃ calls history, port.perform calls (d, []) = .ok () (d', history)

theorem Reached.refl (d : Ring) : Reached d d :=
  ⟨[], [], rfl⟩

theorem Reached.call {c : Call} (h : Reached d d') (hcall : port.call c d' = .ok () s) :
    Reached d s := by
  obtain ⟨calls, history, hrun⟩ := h
  refine ⟨calls ++ [c], history ++ port.noted c d' s, ?_⟩
  rw [Port.perform_append hrun, Port.perform_cons hcall]
  rfl

theorem StaysAhead.commitsAhead (h : StaysAhead d) (hreached : Reached d d') :
    CommitsAhead d' := by
  obtain ⟨calls, history, hrun⟩ := hreached
  obtain ⟨d₁, history', hrun', hahead⟩ := h calls
  rw [hrun] at hrun'
  cases hrun'
  exact hahead

/-- The first commit has made sure that two frames and the margin fit into the ring. -/
theorem StaysAhead.begin (h : StaysAhead d) (hsilent : Silent size len d)
    (hmargin : d.config.margin.toNat = margin) :
    2 * len + margin ≤ size ∧ ∃ d', Reached d d' ∧ Seen d' ∧ d'.ring.size = size ∧
      d'.staging.size = len ∧ d'.config.margin.toNat = margin ∧ d'.readPos = 0 ∧
      d'.writePos = 2 * len := by
  obtain ⟨d', hd', hlands⟩ := (h.commitsAhead (.refl d)).commit 0
  obtain ⟨hseen, hsize, hstaging, hconfig, hread, hwrite⟩ := hsilent.commit_inv hd'
  have hroom := hlands.room
  rw [hwrite, hread, hmargin, Nat.zero_add, Ring.size, hsize] at hroom
  exact ⟨hroom, d', Reached.call (c := .commit 0) (.refl d) hd', hseen, hsize, hstaging,
    by rw [hconfig, hmargin], hread, hwrite⟩

/-! ### Rings that are too long -/

/-- **A reader that is lost never makes room,** and the frames that are committed fill the ring. -/
theorem StaysAhead.exists_full (h : StaysAhead d) (hreached : Reached d d') (hlost : Lost d')
    (hread : d'.readPos = 0) (hpos : 0 < d'.staging.size) (k : Nat) :
    ∃ s, Reached d s ∧ Lost s ∧ s.ring.size = d'.ring.size ∧ s.staging.size = d'.staging.size ∧
      s.readPos = 0 ∧ k ≤ s.writePos := by
  induction k with
  | zero => exact ⟨d', hreached, hlost, rfl, rfl, hread, Nat.zero_le _⟩
  | succ k ih =>
    obtain ⟨s, hs, hlost, hsize, hstaging, hread, hwrite⟩ := ih
    obtain ⟨t, ht, -⟩ := (h.commitsAhead hs).commit 0
    obtain ⟨hlost', hsize', hstaging', -, hread', hwrite'⟩ := hlost.commit_inv ht
    exact ⟨t, hs.call (c := .commit 0) ht, hlost', hsize'.trans hsize, hstaging'.trans hstaging,
      hread'.trans hread, by omega⟩

/-- **A ring that stays ahead is not longer than a region.** -/
theorem StaysAhead.addressable (h : StaysAhead d) (hsilent : Silent size len d)
    (hpower : size.isPowerOfTwo) (hpos : 0 < len) : size ≤ regionWords := by
  by_contra hlarge
  obtain ⟨-, d₁, hreached, hseen, hsize, hstaging, -, hread, -⟩ := h.begin hsilent rfl
  obtain ⟨hadvance, hlost, hrests⟩ :=
    hseen.lost (by rw [hsize]; exact hpower) hread (by rw [hsize]; omega)
  -- Once the reader is lost, more frames are committed than the ring holds.
  obtain ⟨s, hs, hlost, hsize', -, hread', hwrite⟩ :=
    h.exists_full (hreached.call (c := .advance regionWords) hadvance) hlost
      (hrests.readPos.trans hread) (by rw [hrests.staging, hstaging]; exact hpos) (size + 1)
  obtain ⟨t, ht, hlands⟩ := (h.commitsAhead hs).commit 0
  obtain ⟨-, hsize'', -, -, hread'', hwrite'⟩ := hlost.commit_inv ht
  have hroom := hlands.room
  rw [hrests.size, hsize] at hsize'
  rw [Ring.size, hsize'', hsize', hread'', hread'] at hroom
  omega

/-! ### Rings that are too short -/

/-- What is known in playback of a ring that stays ahead. -/
structure Going (size len margin : Nat) (d d' : Ring) : Prop extends Turning d' where
  reached : Reached d d'
  ahead : d'.readPos ≤ d'.writePos
  size : d'.ring.size = size
  staging : d'.staging.size = len
  margin : d'.config.margin.toNat = margin
  fits : d'.writePos ≤ d'.readPos + d'.ring.size

/-- **Whether a commit has to wait** depends on how far the writer is ahead. -/
theorem Going.mustWait_iff (h : Going size len margin d s) (hroom : 2 * len + margin ≤ size)
    (count : Nat) : (s.prepared count).aimed.mustWait = true ↔
      size < s.writePos - s.readPos + len + margin := by
  obtain ⟨haimed, hsame⟩ := (h.toTurning.staged (padded s.staging count s.held).1).aimed
  have haimed : Turning (s.prepared count).aimed := haimed
  have hsame : Passes 0 0 (s.prepared count).bumped (s.prepared count).aimed := hsame
  have hregion : s.ring.size ≤ 262144 := h.followable.addressable
  have hahead := h.ahead
  have hfits := h.fits
  have hring := h.size
  have hwrite : (s.prepared count).aimed.writePos = s.writePos :=
    hsame.writePos.trans (Nat.max_eq_left h.ahead)
  have hread : (s.prepared count).aimed.readPos = s.readPos := hsame.readPos
  have hsize : (s.prepared count).aimed.ring.size = size := hsame.size.trans h.size
  have hstaging : (s.prepared count).aimed.staging.size = len := by
    rw [hsame.staging]
    exact (s.size_prepared count).trans h.staging
  have hmargin : (s.prepared count).aimed.config.margin.toNat = margin := by
    rw [hsame.config]
    exact h.margin
  rw [mustWait_eq haimed.followable.addressable (by omega), hwrite, hread, hsize, hstaging, hmargin,
    Nat.mod_eq_of_lt (by omega), decide_eq_true_iff]

/-- A commit of a ring that stays ahead. -/
theorem Going.commit (h : Going size len margin d s) (hahead : StaysAhead d)
    (hroom : 2 * len + margin ≤ size) :
    ∃ t k, Going size len margin d t ∧ t.writePos = s.writePos + len ∧
      t.readPos = s.readPos + waitWords * k ∧ t.readPos + len ≤ t.writePos ∧
      (k = 0 ↔ ¬size < s.writePos - s.readPos + len + margin) := by
  obtain ⟨t, ht, hlands⟩ := (hahead.commitsAhead h.reached).commit 0
  obtain ⟨hturning, k, hdelivers, hwaits⟩ := h.toTurning.commit_inv ht
  rw [← Bool.not_eq_true, h.mustWait_iff hroom] at hwaits
  have hwrite := hdelivers.writePos
  rw [Nat.max_eq_left h.ahead, h.staging] at hwrite
  have hfront := hlands.ahead
  have hfree := hlands.room
  rw [h.staging] at hfront
  rw [Ring.size] at hfree
  refine ⟨t, k, ⟨hturning, h.reached.call (c := .commit 0) ht, by omega,
    hdelivers.size.trans h.size, hdelivers.staging.trans h.staging, ?_, by omega⟩, hwrite,
    hdelivers.readPos, hfront, hwaits⟩
  rw [hdelivers.config, h.margin]

/-- **Commits come to fill the ring** until the next one has to wait. -/
theorem Going.exists_gap (hahead : StaysAhead d) (hroom : 2 * len + margin ≤ size)
    (hpos : 0 < len) (h : Going size len margin d s)
    (hn : size < s.writePos - s.readPos + len + margin + n) :
    ∃ t, Going size len margin d t ∧ size < t.writePos - t.readPos + len + margin := by
  induction n generalizing s with
  | zero => exact ⟨s, h, hn⟩
  | succ n ih =>
    by_cases hfull : size < s.writePos - s.readPos + len + margin
    · exact ⟨s, h, hfull⟩
    · obtain ⟨t, k, hgoing, hwrite, hread, -, hwaits⟩ := h.commit hahead hroom
      obtain rfl := hwaits.mpr hfull
      have hle := h.ahead
      exact ih hgoing (by omega)

/-- **In a ring that stays ahead** the last round of a wait does not take the reader past the
    writer. -/
theorem StaysAhead.ample (h : StaysAhead d) (hsilent : Silent size len d)
    (hpower : size.isPowerOfTwo) (hpos : 0 < len) (hmargin : d.config.margin.toNat = margin) :
    len + margin + (waitWords - 1) ≤ size := by
  have haddressable := h.addressable hsilent hpower hpos
  obtain ⟨hroom, d₁, hreached, hseen, hsize, hstaging, hmargin, hread, hwrite⟩ :=
    h.begin hsilent hmargin
  have hfollowable : Followable d₁.ring.size := by
    rw [hsize]
    exact ⟨hpower, by omega, haddressable⟩
  have hgoing : Going size len margin d d₁ :=
    ⟨⟨hseen, hfollowable⟩, hreached, by omega, hsize, hstaging, hmargin, by omega⟩
  obtain ⟨s, hgoing, hgap⟩ := hgoing.exists_gap h hroom hpos (n := size + 1) (by omega)
  have hahead := hgoing.ahead
  have hfits := hgoing.fits
  -- Time passes until a single word is missing, and then a frame is committed.
  obtain ⟨t, ht, hturning, hpasses⟩ :=
    hgoing.toTurning.advance (s.writePos - s.readPos + len + margin - (size + 1))
  have hread' := hpasses.readPos
  have hwrite' := hpasses.writePos
  have hring' := hpasses.size
  have hgoing' : Going size len margin d t := by
    refine ⟨hturning, hgoing.reached.call (c := .advance _) ht, by omega,
      hring'.trans hgoing.size, ?_, ?_, by omega⟩
    · rw [hpasses.staging, hgoing.staging]
    · rw [hpasses.config, hgoing.margin]
  obtain ⟨u, k, -, hwrite'', hread'', hfront, hwaits⟩ := hgoing'.commit h hroom
  have hk : k ≠ 0 := by
    rw [Ne, hwaits, Decidable.not_not]
    omega
  have hround : waitWords ≤ waitWords * k := Nat.le_mul_of_pos_right _ (Nat.pos_of_ne_zero hk)
  rw [waitWords] at hround hread'' ⊢
  omega

/-- **Which rings stay ahead:** those that fit into a region and hold two frames and the margin, and
    beside one frame and the margin the words that a round of waiting may play too many. -/
theorem Silent.staysAhead_iff (h : Silent size len d) (hpower : size.isPowerOfTwo)
    (hpos : 0 < len) (hmargin : d.config.margin.toNat = margin) :
    StaysAhead d ↔ size ≤ regionWords ∧ 2 * len + margin ≤ size ∧
      len + margin + (waitWords - 1) ≤ size := by
  constructor
  · intro hahead
    exact ⟨hahead.addressable h hpower hpos, (hahead.begin h hmargin).1,
      hahead.ample h hpower hpos hmargin⟩
  · rintro ⟨haddressable, hroom, hample⟩
    exact h.staysAhead hmargin ⟨hpower, by omega, haddressable⟩ hroom hample

end Ring

end ConsolePipeline.Playback
