import ConsolePipeline.Proofs.Playback.Ring.Lost

namespace ConsolePipeline.Playback

open Stereo

/-!
# Frames that land ahead of the reader

A commit takes aim once, and then waits for space while the reader goes on in rounds of `waitWords`
words. The reader does not come to the writer in the last of them if the ring is long enough.

* `Ring.Looks` — the states in which a wait looks for space.
* `Ring.LandsAhead` — the frame is ahead of the reader, whole, and the margin is free.
* `Ring.StaysAhead` — every commit of every run lands ahead.
* `Ring.Ample` — how long a ring has to be; `Waits.spin` — one round of waiting in such a ring.
* `Ring.Roomy` — the states of an ample ring; `Silent.staysAhead` — it stays ahead.
-/

namespace Ring

variable {d d' s : Ring} {size len margin count : Nat}

/-! ### What should hold of a commit -/

/-- **The states in which a wait looks for space:** the one in which it begins, and those that a
    round leads to that was needed. -/
inductive Looks (d : Ring) : Ring → Prop
  | first : Looks d d.aimed
  | again {s s' : Ring} (h : Looks d s) (hmust : s.mustWait = true) (hspin : spin s = .ok () s') :
    Looks d s'

/-- **A frame has landed ahead of the reader.** -/
structure LandsAhead (count : Nat) (d d' : Ring) : Prop where
  /-- The frame begins where the reader is, or further on. -/
  ahead : d'.readPos + d.staging.size ≤ d'.writePos
  /-- It has not been written over since. -/
  frame : ∀ i < d.staging.size, ringAt d'.ring (d'.writePos - d.staging.size + i) =
    (d.prepared count).staging.getD i silence
  /-- What has been filled behind it is at most what is left of the ring. -/
  filled : d'.readPos + d'.size - d'.writePos + d.staging.size ≤ d'.size
  /-- The margin is free. -/
  room : d'.writePos + d.config.margin.toNat ≤ d'.readPos + d'.size

/-- **Every commit lands ahead:** it ends, whichever frame it is about, and the reader never passes
    the space that it looks for. -/
structure CommitsAhead (d : Ring) : Prop where
  looks : d.started = true → ∀ count s, Looks (d.prepared count) s →
    s.readPos ≤ s.writePos + s.staging.size + s.config.margin.toNat
  commit : ∀ count, ∃ d', Ring.commit count d = .ok () d' ∧ LandsAhead count d d'

/-- **A ring that stays ahead:** every run of calls succeeds, and the next commit lands ahead. -/
def StaysAhead (d : Ring) : Prop :=
  ∀ calls, ∃ d₁ history, port.perform calls (d, []) = .ok () (d₁, history) ∧ CommitsAhead d₁

/-! ### The frame in the ring -/

/-- **The frame is whole:** the fill behind it comes round to its beginning at most. -/
theorem ringAt_closed {i : Nat} (hahead : s.readPos ≤ s.writePos)
    (hfits : s.writePos + s.staging.size ≤ s.readPos + s.ring.size) (hi : i < s.staging.size)
    (held : Word) :
    ringAt (s.closed held).ring (s.writePos + i) = s.staging.getD i silence := by
  have hsize : (writeWrapped s.staging s.writePos s.ring).size = s.ring.size :=
    size_writeWrapped _ _ _
  have hfaded : s.framed.faded ≤ s.readPos + s.ring.size - (s.writePos + s.staging.size) := by
    refine Nat.le_trans (Nat.min_le_right _ _) (Nat.le_of_eq ?_)
    show s.readPos + (writeWrapped s.staging s.writePos s.ring).size - _ = _
    rw [hsize]
    rfl
  have hfade : (fade (left held) s.pole s.framed.faded).size = s.framed.faded := size_fade _ _ _
  have hring : (s.closed held).ring = silenceWrapped
      (s.readPos + (writeWrapped s.staging s.writePos s.ring).size -
        (s.writePos + s.staging.size) - s.framed.faded)
      (s.writePos + s.staging.size + s.framed.faded)
      (writeWrapped (fade (left held) s.pole s.framed.faded) (s.writePos + s.staging.size)
        (writeWrapped s.staging s.writePos s.ring)) := rfl
  -- Silence, decay and frame are in different places.
  rw [hring, ringAt_silenceWrapped_of_ne, ringAt_writeWrapped_of_ne,
    ringAt_writeWrapped_of_mem (by omega) hi]
  · intro k hk
    rw [hsize]
    exact mod_ne_of_ne (by omega) (by omega) (by omega)
  · intro k hk
    rw [size_writeWrapped, hsize]
    exact mod_ne_of_ne (by omega) (by omega) (by omega)

/-- **A frame that has its place lands ahead,** if the reader is not past it and the margin is
    free. -/
theorem landsAhead_closed (hring : s.ring.size = d.ring.size)
    (hstaging : s.staging = (d.prepared count).staging) (hahead : s.readPos ≤ s.writePos)
    (hroom : s.writePos + d.staging.size + d.config.margin.toNat ≤ s.readPos + d.ring.size)
    (held : Word) : LandsAhead count d (s.closed held) := by
  have hsize : s.staging.size = d.staging.size := by
    rw [hstaging, size_prepared]
  have hclosed : (s.closed held).size = d.ring.size := (s.size_closed held).trans hring
  have hwrite : (s.closed held).writePos = s.writePos + d.staging.size := by
    rw [← hsize]
    rfl
  have hread : (s.closed held).readPos = s.readPos := rfl
  refine ⟨?_, fun i hi => ?_, ?_, ?_⟩
  · rw [hwrite, hread]
    omega
  · rw [hwrite, Nat.add_sub_cancel, ← hstaging]
    exact ringAt_closed hahead (by omega) (by omega) held
  · rw [hwrite, hread, hclosed]
    omega
  · rw [hwrite, hread, hclosed]
    omega

/-! ### The wait in a ring that is long enough -/

/-- **A ring that is long enough:** beside a frame and the margin it has space for the words that a
    round of waiting may play too many. -/
def Ample (d : Ring) : Prop :=
  d.staging.size + d.config.margin.toNat + (waitWords - 1) ≤ d.ring.size

/-- A state of a wait for space: the reader has not passed the writer. -/
structure Waits (d s : Ring) : Prop where
  turning : Turning s
  size : s.ring.size = d.ring.size
  staging : s.staging = d.staging
  config : s.config = d.config
  ahead : s.readPos ≤ s.writePos
  fits : s.writePos ≤ s.readPos + s.ring.size

/-- The space that is missing behind the next frame. -/
def missing (d : Ring) : Nat :=
  d.writePos + d.staging.size + d.config.margin.toNat - (d.readPos + d.ring.size)

namespace Waits

/-- Software waits for as long as space is missing. -/
theorem mustWait_iff (hample : Ample d) (h : Waits d s) : s.mustWait = true ↔ 0 < s.missing := by
  have hregion : s.ring.size ≤ 262144 := h.turning.followable.addressable
  have hahead := h.ahead
  have hfits := h.fits
  rw [Ample, ← h.size, ← h.staging, ← h.config] at hample
  rw [mustWait_eq hregion h.ahead, Nat.mod_eq_of_lt (by omega), decide_eq_true_iff, missing]
  omega

/-- **One round of waiting** plays words of which none is missing any more. -/
theorem spin (hample : Ample d) (h : Waits d s) (hmust : s.mustWait = true) :
    ∃ s', Ring.spin s = .ok () s' ∧ Waits d s' ∧ s'.missing = s.missing - waitWords := by
  have hmissing := (h.mustWait_iff hample).mp hmust
  obtain ⟨s', hs', hturning, hpasses⟩ := h.turning.spin
  have hread := hpasses.readPos
  have hwrite := hpasses.writePos
  have hfits := h.fits
  rw [Ample, ← h.size, ← h.staging, ← h.config, waitWords] at hample
  rw [missing] at hmissing
  rw [waitWords] at hread
  refine ⟨s', hs', ⟨hturning, hpasses.size.trans h.size, hpasses.staging.trans h.staging,
    hpasses.config.trans h.config, ?_, ?_⟩, ?_⟩
  · -- As space is missing, more than a round's words are between reader and writer.
    omega
  · rw [hpasses.size]
    omega
  · rw [missing, missing, hread, hwrite, hpasses.size, hpasses.staging, hpasses.config, waitWords]
    omega

/-- No state in which a wait looks for space has the reader past the writer. -/
theorem of_looks (hample : Ample d) (haimed : Waits d d.aimed) (h : Looks d s) : Waits d s := by
  induction h with
  | first => exact haimed
  | again h hmust hspin ih =>
    obtain ⟨t, ht, hwaits, -⟩ := ih.spin hample hmust
    rw [ht] at hspin
    cases hspin
    exact hwaits

/-- **The wait ends,** and there is space. -/
theorem makeRoom (hstarted : d.started = true) (hample : Ample d) (h : Waits d d.aimed) :
    ∃ s, makeRoom d = .ok () s ∧ Waits d s ∧ s.missing = 0 := by
  rw [makeRoom_started hstarted]
  have hbound : waitRounds d.aimed.missing ≤
      d.aimed.writePos + d.aimed.frameSpace - d.aimed.readPos + 1 := by
    have hregion : d.aimed.ring.size ≤ 262144 := h.turning.followable.addressable
    rw [Ample, ← h.size, ← h.staging, ← h.config] at hample
    refine Nat.le_trans (waitRounds_le _) ?_
    rw [missing, frameSpace, UInt64.toNat_add, UInt64.toNat_ofNat']
    omega
  -- `P k`: the wait goes on for `k` rounds more, and each round takes one of them.
  let P (k : Nat) (s : Ring) : Prop := Waits d s ∧ waitRounds s.missing = k
  have hdone : ∀ s, P 0 s → s.mustWait = false := by
    rintro s ⟨hwaits, hrounds⟩
    refine Bool.eq_false_iff.mpr fun hmust => ?_
    have hpos := waitRounds_pos ((hwaits.mustWait_iff hample).mp hmust)
    omega
  have hround : ∀ k s, P (k + 1) s →
      s.mustWait = true ∧ ∃ s', Ring.spin s = .ok () s' ∧ P k s' := by
    rintro k s ⟨hwaits, hrounds⟩
    have hmust : s.mustWait = true := by
      rw [hwaits.mustWait_iff hample]
      by_contra hnone
      rw [Nat.eq_zero_of_not_pos hnone] at hrounds
      exact absurd hrounds (Nat.succ_ne_zero k).symm
    obtain ⟨s', hs', hwaits', hmissing⟩ := hwaits.spin hample hmust
    exact ⟨hmust, s', hs', hwaits', by rw [hmissing]; exact waitRounds_sub hrounds⟩
  obtain ⟨s, hs, hwaits, hrounds⟩ :=
    Run.waitWhile_ok hdone hround _ _ hbound d.aimed ⟨h, rfl⟩
  refine ⟨s, hs, hwaits, ?_⟩
  by_contra hmissing
  have hpos := waitRounds_pos (Nat.pos_of_ne_zero hmissing)
  omega

end Waits

/-! ### Commits in a ring that is long enough -/

/-- **In playback, between calls,** the margin is free. -/
structure Afloat (size len margin : Nat) (d : Ring) : Prop extends Turning d where
  room : d.writePos + margin ≤ d.readPos + size
  size : d.ring.size = size
  staging : d.staging.size = len
  margin : d.config.margin.toNat = margin

/-- Where a wait begins, the reader has not passed the writer. -/
theorem Afloat.waits (h : Afloat size len margin d) (count : Nat) :
    Waits (d.prepared count) (d.prepared count).aimed := by
  have hturning : Turning (d.prepared count) := h.toTurning.staged _
  obtain ⟨haimed, hsame⟩ := hturning.aimed
  have hread := hsame.readPos
  have hwrite := hsame.writePos
  have hbumped : (d.prepared count).bumped.writePos = max d.writePos d.readPos := rfl
  have hstill : (d.prepared count).bumped.readPos = d.readPos := rfl
  have hroom := h.room
  refine ⟨haimed, hsame.size, hsame.staging, hsame.config, by omega, ?_⟩
  rw [hsame.size, show (d.prepared count).bumped.ring.size = size from h.size]
  omega

theorem Afloat.ample (h : Afloat size len margin d) (hsize : len + margin + (waitWords - 1) ≤ size)
    (count : Nat) : Ample (d.prepared count) := by
  rw [Ample, size_prepared, h.staging]
  show len + d.config.margin.toNat + (waitWords - 1) ≤ d.ring.size
  rw [h.margin, h.size]
  exact hsize

/-- **A commit in playback lands ahead.** -/
theorem Afloat.commit (h : Afloat size len margin d)
    (hsize : len + margin + (waitWords - 1) ≤ size) (count : Nat) :
    ∃ d', Ring.commit count d = .ok () d' ∧ LandsAhead count d d' ∧ Afloat size len margin d' := by
  obtain ⟨s, hmake, hwaits, hmissing⟩ :=
    (h.waits count).makeRoom (by exact h.started) (h.ample hsize count)
  have hring : s.ring.size = d.ring.size := hwaits.size
  have hconfig : s.config = d.config := hwaits.config
  have hstaging : s.staging.size = d.staging.size := by
    rw [hwaits.staging, size_prepared]
  have hroom : s.writePos + d.staging.size + d.config.margin.toNat ≤ s.readPos + d.ring.size := by
    rw [missing, hstaging, hconfig, hring] at hmissing
    omega
  have hpos := h.size_pos
  have hlands := landsAhead_closed hring hwaits.staging hwaits.ahead hroom
    (padded d.staging count d.held).2
  refine ⟨_, commit_eq hmake ?_ ?_ ?_, ?_⟩
  · show 0 < s.ring.size
    omega
  · show s.staging.size ≤ s.ring.size + 1
    rw [hstaging, hring, h.staging, h.size]
    omega
  · have hahead := hwaits.ahead
    omega
  rw [if_pos hwaits.turning.started]
  have hfree := hlands.room
  have hclosed := s.size_closed (padded d.staging count d.held).2
  refine ⟨hlands, hwaits.turning.closed _, ?_, hclosed.trans (hring.trans h.size),
    hstaging.trans h.staging, (congrArg (·.margin.toNat) hconfig).trans h.margin⟩
  rw [h.margin, Ring.size, hclosed, hring, h.size] at hfree
  exact hfree

/-- **The first commit lands ahead,** if the ring holds two frames and the margin. -/
theorem Silent.commit_ahead (h : Silent size len d) (hmargin : d.config.margin.toNat = margin)
    (hfollowable : Followable size) (hroom : 2 * len + margin ≤ size) (count : Nat) :
    ∃ d', Ring.commit count d = .ok () d' ∧ LandsAhead count d d' ∧ Afloat size len margin d' := by
  have htwo := hfollowable.two_le
  obtain ⟨d', hd'⟩ := h.commit_ok (by omega) (by omega) count
  obtain ⟨hseen, hsize, hstaging, hconfig, hread, hwrite⟩ := h.commit_inv hd'
  refine ⟨d', hd', ?_, ⟨hseen, hsize ▸ hfollowable⟩, by omega, hsize, hstaging, ?_⟩
  · obtain ⟨s, hmake, rfl⟩ := Ring.commit_inv hd'
    have hprepared : (padded d.staging count d.held).1.size = len :=
      (size_padded _ _ _).trans h.staging
    obtain rfl := Ring.makeRoom_inv (h.staged hprepared).started hmake
    rw [if_neg (by show ¬d.started = true; rw [h.started]; exact Bool.false_ne_true)]
    -- The frame stands behind one of silence.
    let s : Ring := { d.prepared count with writePos := (d.prepared count).staging.size }
    have hahead : s.readPos ≤ s.writePos := by
      show d.readPos ≤ _
      rw [h.readPos]
      exact Nat.zero_le _
    have hroom : s.writePos + d.staging.size + d.config.margin.toNat ≤
        s.readPos + d.ring.size := by
      show (d.prepared count).staging.size + _ + _ ≤ d.readPos + _
      rw [size_prepared, h.staging, h.readPos, h.size, hmargin]
      omega
    have hsame : s.ring.size = d.ring.size := rfl
    have hlands : LandsAhead count d (s.closed (padded d.staging count d.held).2) :=
      landsAhead_closed hsame rfl hahead hroom _
    exact ⟨hlands.ahead, hlands.frame, hlands.filled, hlands.room⟩
  · rw [hconfig, hmargin]

/-! ### Runs in a ring that is long enough -/

/-- Time before the first commit passes, and changes nothing. -/
theorem Silent.advance_ok (h : Silent size len d) (n : Nat) :
    ∃ d', Ring.advance n d = .ok () d' ∧ Silent size len d' ∧ d'.config = d.config := by
  have hstep : ∀ (t : Nat) limit s, 0 < limit → Silent size len s ∧ s.config = d.config →
      ∃ n s', Ring.step limit s = .ok n s' ∧ 0 < n ∧ n ≤ limit ∧
        Silent size len s' ∧ s'.config = d.config := by
    rintro t limit s hlimit ⟨hsilent, hconfig⟩
    exact ⟨_, _, step_idle hsilent.started (hsilent.solo.idle hsilent.stopped) limit, by omega,
      by omega, hsilent.alike (s.toDeck.alike_idled _), hconfig⟩
  exact Run.elapse_ok hstep n 0 d ⟨h, rfl⟩

/-- **The states of a ring that is long enough:** nothing has been committed, or the margin is free
    behind the last frame. -/
def Roomy (size len margin : Nat) (d : Ring) : Prop :=
  (Silent size len d ∧ d.config.margin.toNat = margin) ∨ Afloat size len margin d

section Roomy

variable (hfollowable : Followable size) (hroom : 2 * len + margin ≤ size)
  (hsize : len + margin + (waitWords - 1) ≤ size)

include hfollowable hroom hsize in
/-- A commit lands ahead, whether it is the first one or not. -/
theorem Roomy.commit (h : Roomy size len margin d) (count : Nat) :
    ∃ d', Ring.commit count d = .ok () d' ∧ LandsAhead count d d' ∧ Roomy size len margin d' := by
  obtain ⟨hsilent, hmargin⟩ | hafloat := h
  · obtain ⟨d', hd', hlands, hafloat⟩ := hsilent.commit_ahead hmargin hfollowable hroom count
    exact ⟨d', hd', hlands, .inr hafloat⟩
  · obtain ⟨d', hd', hlands, hafloat'⟩ := hafloat.commit hsize count
    exact ⟨d', hd', hlands, .inr hafloat'⟩

/-- Time passes, and neither the writer nor the settings change. -/
theorem Roomy.advance (h : Roomy size len margin d) (n : Nat) :
    ∃ d', Ring.advance n d = .ok () d' ∧ Roomy size len margin d' := by
  obtain ⟨hsilent, hmargin⟩ | hafloat := h
  · obtain ⟨d', hd', hsilent', hconfig⟩ := hsilent.advance_ok n
    exact ⟨d', hd', .inl ⟨hsilent', by rw [hconfig, hmargin]⟩⟩
  · obtain ⟨d', hd', hturning, hpasses⟩ := hafloat.toTurning.advance n
    have hfree := hafloat.room
    have hread := hpasses.readPos
    have hwrite := hpasses.writePos
    refine ⟨d', hd', .inr ⟨hturning, by omega, hpasses.size.trans hafloat.size, ?_, ?_⟩⟩
    · rw [hpasses.staging, hafloat.staging]
    · rw [hpasses.config, hafloat.margin]

include hfollowable hroom hsize in
/-- **Every call succeeds,** and leaves such a state. -/
theorem Roomy.call (h : Roomy size len margin d) (c : Call) :
    ∃ d', port.call c d = .ok () d' ∧ Roomy size len margin d' := by
  cases c with
  | acquire => exact ⟨d, rfl, h⟩
  | write words =>
    refine ⟨_, rfl, ?_⟩
    obtain ⟨hsilent, hmargin⟩ | hafloat := h
    · exact .inl ⟨hsilent.staged ((size_overlay _ _).trans hsilent.staging), hmargin⟩
    · exact .inr ⟨hafloat.toTurning.staged _, hafloat.room, hafloat.size,
        (size_overlay _ _).trans hafloat.staging, hafloat.margin⟩
  | commit count =>
    obtain ⟨d', hd', -, h'⟩ := h.commit hfollowable hroom hsize count
    exact ⟨d', hd', h'⟩
  | advance n => exact h.advance n

include hsize in
/-- The reader never passes the space that a commit waits for. -/
theorem Roomy.looks (h : Roomy size len margin d) (hstarted : d.started = true) (count : Nat)
    (hlooks : Looks (d.prepared count) s) :
    s.readPos ≤ s.writePos + s.staging.size + s.config.margin.toNat := by
  obtain ⟨hsilent, -⟩ | hafloat := h
  · rw [hsilent.started] at hstarted
    cases hstarted
  · have hahead := (Waits.of_looks (hafloat.ample hsize count) (hafloat.waits count) hlooks).ahead
    omega

end Roomy

/-- **A ring that is long enough stays ahead.** -/
theorem Silent.staysAhead (h : Silent size len d) (hmargin : d.config.margin.toNat = margin)
    (hfollowable : Followable size) (hroom : 2 * len + margin ≤ size)
    (hsize : len + margin + (waitWords - 1) ≤ size) : StaysAhead d := by
  intro calls
  let Inv (_ : List Call) (_ : List Commit) (s : Ring) : Prop := Roomy size len margin s
  have hstart : Inv calls [] d := .inl ⟨h, hmargin⟩
  obtain ⟨d₁, history, hrun, hinv⟩ : ∃ d₁ history,
      port.perform calls (d, []) = .ok () (d₁, history) ∧ Inv [] history d₁ :=
    Port.perform_ok (fun c _ _ _ hinv => Roomy.call hfollowable hroom hsize hinv c) hstart
  have hroomy : Roomy size len margin d₁ := hinv
  refine ⟨d₁, history, hrun, fun hstarted count s hlooks => ?_, fun count => ?_⟩
  · exact hroomy.looks hsize hstarted count hlooks
  · obtain ⟨d₂, hd₂, hlands, -⟩ := hroomy.commit hfollowable hroom hsize count
    exact ⟨d₂, hd₂, hlands⟩

end Ring

end ConsolePipeline.Playback
