import ConsolePipeline.Proofs.Playback.Ring.Time

namespace ConsolePipeline.Playback

open Stereo

/-!
# Ring playback: the software side

A frame is put after the last one, or where the reader is if that is further on; if there is no
space for it yet, software waits.

* `Ring.Placed` — the place of the next frame has been found, and there is space.
* `Ring.Live.makeRoom`, `Live.makeRoom_ready` — it is found after a wait, or at once.
* `Ring.Placed.closed` — the frame is written, and the free space filled.
* `Ring.Preroll.commit`, `Live.commit`, `Live.commit_ready` — the frame joins the stream.
-/

namespace Ring

variable {σ : Shape} {d : Ring} {history : List Commit}

/-! ### The place for a frame -/

/-- **The next frame has its place:** after the last one, or where the reader was at `entry`. The
    reader is not past it, and has played what it replaces. -/
structure Placed (σ : Shape) (history : List Commit) (entry : Nat) (d : Ring) : Prop
    extends Running σ history d where
  writePos : d.writePos = max (σ.score history).finish entry
  ahead : d.readPos ≤ d.writePos
  room : d.writePos + σ.len ≤ d.readPos + σ.size
  underruns : d.stats.underruns =
    (σ.score history).late + if (σ.score history).finish < entry then 1 else 0

/-- The space from the reader to the margin behind the next frame, as 64-bit numbers tell it. -/
def Shape.reach (σ : Shape) (ahead : Nat) : Nat :=
  (ahead + σ.len + σ.config.margin.toNat) % 2 ^ 64

/-- Software waits for as long as the margin reaches beyond the ring. -/
theorem mustWait_eq (hsize : d.ring.size ≤ regionWords) (hahead : d.readPos ≤ d.writePos) :
    d.mustWait = decide (d.ring.size <
      (d.writePos - d.readPos + d.staging.size + d.config.margin.toNat) % 2 ^ 64) := by
  rw [regionWords] at hsize
  rw [mustWait, Ring.size, frameSpace]
  refine decide_eq_decide.mpr ?_
  rw [UInt64.lt_iff_toNat_lt, UInt64.toNat_sub, UInt64.toNat_add, UInt64.toNat_ofNat',
    UInt64.toNat_ofNat', UInt64.toNat_ofNat', UInt64.toNat_ofNat', UInt64.toNat_add,
    UInt64.toNat_ofNat']
  omega

theorem Steady.mustWait_eq (h : Steady σ history d) (hahead : d.readPos ≤ d.writePos) :
    d.mustWait = decide (σ.size < σ.reach (d.writePos - d.readPos)) := by
  rw [Ring.mustWait_eq h.size_le hahead, h.size, h.staging, h.config, Shape.reach]

/-- Two frames and the margin fit into the ring, and their sum does not wrap. -/
def Shape.Roomy (σ : Shape) : Prop :=
  2 * σ.len + σ.config.margin.toNat ≤ σ.size

theorem Shape.Roomy.reach_eq {ahead : Nat} (hroomy : σ.Roomy) (hahead : ahead ≤ σ.size) :
    σ.reach ahead = ahead + σ.len + σ.config.margin.toNat := by
  have hmax : σ.size ≤ 262144 := σ.addressable
  rw [Shape.Roomy] at hroomy
  rw [Shape.reach]
  exact Nat.mod_eq_of_lt (by omega)

/-- The state once the write cursor is not behind the reader. -/
def bumped (d : Ring) : Ring :=
  { d with writePos := max d.writePos d.readPos }

theorem Live.makeRoom_eq (h : Live σ history d) :
    makeRoom d = Run.waitWhile mustWait spin
      (d.bumped.writePos + d.bumped.frameSpace - d.bumped.readPos + 1) d.bumped := by
  rw [makeRoom, Run.get_bind, if_pos h.started, Run.modify_bind, h.sync]
  rfl

theorem bumped_eq (h : d.readPos ≤ d.writePos) : d.bumped = d := by
  rw [bumped, Nat.max_eq_left h]

theorem Running.bumped (h : Running σ history d) : Running σ history d.bumped :=
  ⟨⟨h.size, h.staging, h.config, h.pole, h.solo, h.frames, h.commits, h.overruns, h.tagMismatches,
    h.hardwareWords⟩, h.nonempty, h.started, h.cycles, h.lastIndex, h.shows, h.played, h.readPos,
    h.beyond⟩

/-- **There is space at once,** as is always so if the reader has passed the writer. -/
theorem Live.makeRoom_ready (h : Live σ history d) (hroom : d.writePos + σ.len ≤ d.readPos + σ.size)
    (hreach : σ.reach (d.writePos - d.readPos) ≤ σ.size) :
    makeRoom d = .ok () d.bumped ∧ Placed σ history d.readPos d.bumped := by
  have hframes := σ.two_mul_len_le
  have hbumped : d.bumped.writePos = max d.writePos d.readPos := rfl
  have hahead : d.bumped.readPos ≤ d.bumped.writePos := Nat.le_max_right _ _
  have hroom' : d.bumped.writePos + σ.len ≤ d.bumped.readPos + σ.size := by
    show max d.writePos d.readPos + _ ≤ d.readPos + σ.size
    omega
  have hready : d.bumped.mustWait = false := by
    rw [h.toRunning.bumped.mustWait_eq hahead, hbumped]
    show decide (σ.size < σ.reach (max d.writePos d.readPos - d.readPos)) = false
    rw [show max d.writePos d.readPos - d.readPos = d.writePos - d.readPos by omega]
    exact decide_eq_false (Nat.not_lt.mpr hreach)
  refine ⟨?_, h.toRunning.bumped, by rw [hbumped, h.writePos], hahead, hroom', ?_⟩
  · rw [h.makeRoom_eq]
    exact Run.waitWhile_done hready _
  · rw [← h.writePos]
    exact h.underruns

/-! ### The wait for space -/

/-- A state that needs `k` more rounds of waiting since `d`. -/
structure Waiting (σ : Shape) (history : List Commit) (d : Ring) (k : Nat) (s : Ring) : Prop where
  live : Live σ history s
  ahead : s.readPos ≤ s.writePos
  staging : s.staging = d.staging
  writePos : s.writePos = d.writePos
  rounds : waitRounds (s.writePos + σ.len + σ.config.margin.toNat - (s.readPos + σ.size)) = k

/-- The wait is over once no more rounds are needed. -/
theorem Waiting.space {s : Ring} (h : Waiting σ history d 0 s) :
    s.writePos + σ.len + σ.config.margin.toNat ≤ s.readPos + σ.size := by
  by_contra hexcess
  exact absurd h.rounds (Nat.pos_iff_ne_zero.mp (waitRounds_pos (by omega)))

theorem Waiting.mustWait_eq {k : Nat} {s : Ring} (hroomy : σ.Roomy) (h : Waiting σ history d k s) :
    s.mustWait = decide (s.readPos + σ.size < s.writePos + σ.len + σ.config.margin.toNat) := by
  have hahead := h.ahead
  have hfits := h.live.fits
  rw [h.live.mustWait_eq hahead, hroomy.reach_eq (by omega)]
  exact decide_eq_decide.mpr (by omega)

/-- **One round of waiting:** the reader does not pass the writer, as more than a frame lies between
    them. -/
theorem Waiting.spin {k : Nat} {s : Ring} (hroomy : σ.Roomy) (hlen : waitWords ≤ σ.len)
    (h : Waiting σ history d (k + 1) s) :
    s.mustWait = true ∧ ∃ s', spin s = .ok () s' ∧ Waiting σ history d k s' := by
  -- There is a round left, so the frame and the margin do not fit yet.
  have hexcess : s.readPos + σ.size < s.writePos + σ.len + σ.config.margin.toNat := by
    by_contra hroom
    have hrounds := h.rounds
    rw [Nat.sub_eq_zero_of_le (Nat.not_lt.mp hroom)] at hrounds
    exact absurd hrounds (Nat.succ_ne_zero k).symm
  obtain ⟨s', hs', hlive, hread, hsame⟩ := (h.live.alike s.alike_spun).advance waitWords
  have hread : s'.readPos = s.readPos + waitWords := hread
  have hwrite : s'.writePos = s.writePos := hsame.writePos
  have hfits : 2 * σ.len + σ.config.margin.toNat ≤ σ.size := hroomy
  refine ⟨?_, s', ?_, hlive, by omega, hsame.staging.trans h.staging, hwrite.trans h.writePos, ?_⟩
  · rw [h.mustWait_eq hroomy]
    exact decide_eq_true hexcess
  · rw [Ring.spin, Run.modify_bind]
    exact hs'
  · rw [hwrite, hread, Nat.add_right_comm s.readPos, ← Nat.sub_sub]
    exact waitRounds_sub h.rounds

/-- **There is space after a wait,** which ends. -/
theorem Live.makeRoom (h : Live σ history d) (hroomy : σ.Roomy) (hlen : waitWords ≤ σ.len) :
    ∃ d', makeRoom d = .ok () d' ∧ Placed σ history d.readPos d' ∧ d'.staging = d.staging := by
  have hfits : 2 * σ.len + σ.config.margin.toNat ≤ σ.size := hroomy
  have hlimit := h.fits
  by_cases hroom : d.writePos + σ.len + σ.config.margin.toNat ≤ d.readPos + σ.size
  · have hreach : σ.reach (d.writePos - d.readPos) ≤ σ.size := by
      rw [hroomy.reach_eq (by omega)]
      omega
    obtain ⟨hd', hplaced⟩ := h.makeRoom_ready (by omega) hreach
    exact ⟨_, hd', hplaced, rfl⟩
  -- There is something to wait for only if the reader has not passed the writer.
  have hahead : d.readPos ≤ d.writePos := by omega
  have hspace : d.frameSpace = σ.len + σ.config.margin.toNat := by
    have hmax : σ.size ≤ 262144 := σ.addressable
    rw [Ring.frameSpace, h.staging, h.config, UInt64.toNat_add, UInt64.toNat_ofNat']
    omega
  -- A round takes some words off what is missing, so the bound on the rounds is never met.
  have hbound : waitRounds (d.writePos + σ.len + σ.config.margin.toNat - (d.readPos + σ.size)) ≤
      d.writePos + d.frameSpace - d.readPos + 1 := by
    rw [hspace]
    refine Nat.le_trans (waitRounds_le _) ?_
    omega
  obtain ⟨s, hs, hwaiting⟩ : ∃ s, Run.waitWhile mustWait Ring.spin
      (d.writePos + d.frameSpace - d.readPos + 1) d = .ok () s ∧ Waiting σ history d 0 s := by
    refine Run.waitWhile_ok (fun s hs => ?_) (fun k s hs => hs.spin hroomy hlen) _ _ hbound d
      ⟨h, hahead, rfl, rfl, rfl⟩
    rw [hs.mustWait_eq hroomy]
    exact decide_eq_false (Nat.not_lt.mpr hs.space)
  have hspace := hwaiting.space
  have hfinish : ¬(σ.score history).finish < d.readPos := by
    rw [← h.writePos]
    omega
  refine ⟨s, ?_, ⟨hwaiting.live.toRunning, ?_, hwaiting.ahead, by omega, ?_⟩, hwaiting.staging⟩
  · rw [h.makeRoom_eq, bumped_eq hahead]
    exact hs
  · rw [hwaiting.live.writePos, Nat.max_eq_left (by omega)]
  · rw [hwaiting.live.underruns, if_neg hfinish, if_neg (Nat.not_lt.mpr hwaiting.ahead)]

/-! ### The frame is written -/

/-- The state once the frame has been put at the write cursor. -/
def framed (d : Ring) : Ring :=
  { d with
    ring := writeWrapped d.staging d.writePos d.ring
    writePos := d.writePos + d.staging.size
    starved := false }

/-- Words of decay that fit into the free space. -/
def faded (d : Ring) : Nat :=
  min d.config.guard.toNat (d.readPos + d.size - d.writePos)

/-- The state once the free space has been filled. -/
def guarded (d : Ring) (held : Word) : Ring :=
  { d with
    ring := silenceWrapped (d.readPos + d.size - d.writePos - d.faded) (d.writePos + d.faded)
      (writeWrapped (fade (left held) d.pole d.faded) d.writePos d.ring) }

/-- What fits into the ring, or is one word too long, is not wrapped around it more than once. -/
theorem wrapOnce_ok {n : Nat} (hsize : 0 < d.size) (hn : n ≤ d.size + 1) (pos : Nat) :
    wrapOnce n pos d = .ok () d := by
  have hlt : pos % d.size < d.size := Nat.mod_lt _ hsize
  rw [wrapOnce, Run.get_bind, if_neg (by omega)]
  rfl

theorem fillGuard_ok (hsize : 0 < d.size) (hfree : d.readPos + d.size - d.writePos ≤ d.size)
    (held : Word) : fillGuard held d = .ok () (d.guarded held) := by
  rw [fillGuard, Run.get_bind, Run.bind_ok (wrapOnce_ok hsize (Nat.le_succ_of_le hfree) _)]
  rfl

/-- The state once a frame has been written and counted. -/
def closed (d : Ring) (held : Word) : Ring :=
  { d.framed.guarded held with toDeck := d.toDeck.committed held d.staging.size }

theorem size_closed (d : Ring) (held : Word) : (d.closed held).ring.size = d.ring.size :=
  (size_silenceWrapped _ _ _).trans ((size_writeWrapped _ _ _).trans (size_writeWrapped _ _ _))

/-- What a commit comes to, once its frame has a place. -/
theorem commit_eq {s : Ring} {count : Nat}
    (hroom : makeRoom { d with staging := (padded d.staging count d.held).1 } = .ok () s)
    (hsize : 0 < s.size) (hstaging : s.staging.size ≤ s.size + 1)
    (hfree : s.readPos + s.size - (s.writePos + s.staging.size) ≤ s.size) :
    commit count d = .ok () (if s.started then s.closed (padded d.staging count d.held).2
      else (s.closed (padded d.staging count d.held).2).start) := by
  have hguard : fillGuard (padded d.staging count d.held).2 s.framed =
      .ok () (s.framed.guarded (padded d.staging count d.held).2) := by
    refine fillGuard_ok ?_ ?_ _
    · show 0 < (writeWrapped s.staging s.writePos s.ring).size
      rw [size_writeWrapped]
      exact hsize
    · show s.readPos + (writeWrapped s.staging s.writePos s.ring).size - _ ≤
        (writeWrapped s.staging s.writePos s.ring).size
      rw [size_writeWrapped]
      exact hfree
  rw [commit, Run.get_bind]
  simp only [Run.modify_bind]
  rw [Run.bind_ok hroom, Run.get_bind, Run.get_bind, Run.bind_ok (wrapOnce_ok hsize hstaging _),
    Run.modify_bind, Run.bind_ok (by exact hguard), Run.modify_bind, Run.get_bind]
  cases hstarted : s.started with
  | true =>
    rw [if_pos (by exact hstarted)]
    rfl
  | false =>
    rw [if_neg (by show ¬s.started = true; rw [hstarted]; exact Bool.false_ne_true)]
    rfl

theorem noted_commit (count : Nat) (d d' : Ring) :
    port.noted (.commit count) d d' =
      [⟨d.played.size, d'.played.size, (padded d.staging count d.held).1⟩] := rfl

/-- **The words written** make the ring show the stream with the new frame. -/
theorem shows_closed {s : Score} {c : Commit} (hring : d.ring.size = σ.size)
    (hconfig : d.config = σ.config) (hpole : d.pole = σ.pole) (hstaging : d.staging = c.frame)
    (hframe : c.frame.size = σ.len) (hexit : c.exit = d.readPos)
    (hstart : d.writePos = Shape.start s c) (hahead : d.readPos ≤ d.writePos)
    (hroom : d.writePos + σ.len ≤ d.readPos + σ.size) (h : Shows d.ring s.stream d.readPos) :
    Shows (d.closed (c.frame.back?.getD silence)).ring (σ.extend s c).stream d.readPos := by
  have hsize : d.framed.size = σ.size := (size_writeWrapped _ _ _).trans hring
  have hwrite : d.framed.writePos = Shape.start s c + σ.len := by
    show d.writePos + d.staging.size = _
    rw [hstart, hstaging, hframe]
  have hfree : Shape.start s c + σ.len + (d.framed.readPos + d.framed.size - d.framed.writePos) =
      c.exit + σ.size := by
    rw [hwrite, hsize, hexit]
    show _ + (d.readPos + _ - _) = d.readPos + _
    omega
  have hfaded : d.framed.faded =
      min σ.config.guard.toNat (d.framed.readPos + d.framed.size - d.framed.writePos) := by
    rw [faded, show d.framed.config = σ.config from hconfig]
  rw [← hexit] at h ⊢
  have hshows := h.extend hring hframe (by omega) hfree hfaded
  rw [← hwrite, ← hstart, ← hpole, ← hstaging] at hshows
  rw [← hstaging]
  exact hshows

/-- **The frame joins the stream.** -/
theorem Placed.closed {c : Commit} (h : Placed σ history c.entry d) (hframe : d.staging = c.frame)
    (hexit : c.exit = d.readPos) :
    Live σ (history ++ [c]) (d.closed (c.frame.back?.getD silence)) := by
  have hsize : c.frame.size = σ.len := by
    rw [← hframe, h.staging]
  have hroom := h.room
  have hahead := h.ahead
  have hstart : d.writePos = Shape.start (σ.score history) c := h.writePos
  have hring := d.size_closed (c.frame.back?.getD silence)
  have hfinish : d.writePos + d.staging.size = (σ.score (history ++ [c])).finish := by
    rw [Shape.score_append, h.staging, hstart]
    rfl
  have hwrite : (d.closed (c.frame.back?.getD silence)).writePos = d.writePos + σ.len := by
    show d.writePos + d.staging.size = _
    rw [h.staging]
  have hshows := shows_closed h.size h.config h.pole hframe hsize hexit hstart hahead (by omega)
    h.shows
  -- The writer is ahead of the reader again.
  have hbehind : ¬(d.closed (c.frame.back?.getD silence)).writePos < d.readPos := by omega
  refine ⟨⟨⟨hring.trans h.size, h.staging, h.config, h.pole, h.solo, ?_, ?_, h.overruns,
    h.tagMismatches, h.hardwareWords⟩, List.append_ne_nil_of_right_ne_nil _ (List.cons_ne_nil c []),
    h.started, ?_, ?_, ?_, ?_, h.readPos, ?_⟩, hfinish, ?_, ?_, ?_⟩
  · intro b hb
    rcases List.mem_append.mp hb with hb | hb
    · exact h.frames b hb
    · rw [List.mem_singleton.mp hb, hsize]
  · rw [List.length_append, ← h.commits]
    rfl
  · rw [hring]
    exact h.cycles
  · rw [hring]
    exact h.lastIndex
  · rw [Shape.score_append]
    exact hshows
  · rw [Shape.score_append]
    show d.played.toList = opening _ d.played.size
    rw [Shape.opening_extend (by rw [← h.readPos, ← hstart]; exact hahead), h.played]
  · intro i hi
    rw [Shape.score_append]
    rw [hring, h.size] at hi
    exact Shape.stream_extend_beyond (by rw [hexit, ← hstart]; omega) (by rw [hexit]; exact hi)
  · rw [hwrite]
    exact hroom
  · exact (decide_eq_false hbehind).symm
  · rw [Shape.score_append]
    refine h.underruns.trans ?_
    show _ = _ + _ + if (d.closed (c.frame.back?.getD silence)).writePos < d.readPos then 1 else 0
    rw [if_neg hbehind]
    rfl

/-! ### The calls -/

/-- The frame being written may be replaced at any time. -/
theorem Live.staged {words : Array Word} (h : Live σ history d) (hwords : words.size = σ.len) :
    Live σ history { d with staging := words } :=
  ⟨⟨⟨h.size, hwords, h.config, h.pole, h.solo, h.frames, h.commits, h.overruns, h.tagMismatches,
    h.hardwareWords⟩, h.nonempty, h.started, h.cycles, h.lastIndex, h.shows, h.played, h.readPos,
    h.beyond⟩, h.writePos, h.fits, h.starved, h.underruns⟩

theorem Preroll.staged {words : Array Word} (h : Preroll σ d) (hwords : words.size = σ.len) :
    Preroll σ { d with staging := words } :=
  ⟨⟨h.size, hwords, h.config, h.pole, h.solo, h.frames, h.commits, h.overruns, h.tagMismatches,
    h.hardwareWords⟩, h.started, h.stopped, h.played, h.readPos, h.shows, h.underruns⟩

theorem write_ok (words : Array Word) (d : Ring) :
    write words d = .ok () { d with staging := overlay words d.staging } := rfl

/-- A frame fits into the ring. -/
theorem Steady.staging_le (h : Steady σ history d) : d.staging.size ≤ d.size + 1 := by
  have := σ.two_mul_len_le
  rw [h.staging, Ring.size, h.size]
  omega

theorem Steady.size_padded (h : Steady σ history d) (count : Nat) :
    (padded d.staging count d.held).1.size = σ.len :=
  (Playback.size_padded _ _ _).trans h.staging

theorem Steady.back?_padded (h : Steady σ history d) (count : Nat) :
    (padded d.staging count d.held).1.back?.getD silence = (padded d.staging count d.held).2 :=
  Playback.back?_padded (by rw [h.staging]; exact σ.pos) count d.held

/-- A commit whose frame has found its place. -/
theorem Live.commit_placed {s : Ring} {count : Nat} (h : Live σ history d)
    (hmake : Ring.makeRoom { d with staging := (padded d.staging count d.held).1 } = .ok () s)
    (hplaced : Placed σ history d.readPos s)
    (hstaging : s.staging = (padded d.staging count d.held).1) :
    ∃ d', Ring.commit count d = .ok () d' ∧ Live σ (history ++ port.noted (.commit count) d d') d' ∧
      d'.readPos = s.readPos ∧ d'.stats.waitSpins = s.stats.waitSpins := by
  have hroom := hplaced.room
  have hfree : s.readPos + s.size - (s.writePos + s.staging.size) ≤ s.size := by
    have := hplaced.ahead
    omega
  refine ⟨_, commit_eq hmake hplaced.size_pos hplaced.staging_le hfree, ?_, ?_, ?_⟩
  · rw [if_pos hplaced.started, noted_commit, ← h.back?_padded count]
    rw [h.readPos] at hplaced
    exact hplaced.closed hstaging hplaced.readPos.symm
  · rw [if_pos hplaced.started]
    rfl
  · rw [if_pos hplaced.started]
    rfl

/-- **A commit in playback:** the frame is put into the stream, after a wait if need be. -/
theorem Live.commit (h : Live σ history d) (hroomy : σ.Roomy) (hlen : waitWords ≤ σ.len)
    (count : Nat) :
    ∃ d', Ring.commit count d = .ok () d' ∧
      Live σ (history ++ port.noted (.commit count) d d') d' := by
  obtain ⟨s, hs, hplaced, hstaging⟩ := (h.staged (h.size_padded count)).makeRoom hroomy hlen
  obtain ⟨d', hd', hlive, -, -⟩ := h.commit_placed hs hplaced hstaging
  exact ⟨d', hd', hlive⟩

/-- **A commit for which there is space** takes no time. -/
theorem Live.commit_ready (h : Live σ history d) (hroom : d.writePos + σ.len ≤ d.readPos + σ.size)
    (hreach : σ.reach (d.writePos - d.readPos) ≤ σ.size) (count : Nat) :
    ∃ d', Ring.commit count d = .ok () d' ∧ Live σ (history ++ port.noted (.commit count) d d') d' ∧
      d'.readPos = d.readPos ∧ d'.stats.waitSpins = d.stats.waitSpins := by
  obtain ⟨hs, hplaced⟩ := (h.staged (h.size_padded count)).makeRoom_ready hroom hreach
  obtain ⟨d', hd', hlive, hread, hspins⟩ := h.commit_placed hs hplaced rfl
  exact ⟨d', hd', hlive, hread, hspins⟩

/-- The state once the channel has been started. -/
theorem Preroll.started_closed {c : Commit} (h : Preroll σ d) (hentry : c.entry = 0)
    (hexit : c.exit = 0) (hframe : d.staging = c.frame) :
    Live σ [c]
      (closed { d with writePos := d.staging.size } (c.frame.back?.getD silence)).start := by
  have hsize : c.frame.size = σ.len := by
    rw [← hframe, h.staging]
  have hframes := σ.two_mul_len_le
  have hplayed : d.played.size = 0 := by
    rw [h.played]
    rfl
  have hstart : d.staging.size = Shape.start σ.blank c := by
    rw [Shape.start, hentry, Nat.max_zero, h.staging]
    rfl
  have hring :
      (closed { d with writePos := d.staging.size } (c.frame.back?.getD silence)).ring.size =
        d.ring.size := size_closed _ _
  have hshows := h.shows
  rw [← h.readPos] at hshows
  -- The silence in front of the frame is what the ring held all along.
  have hclosed := shows_closed (d := { d with writePos := d.staging.size }) (s := σ.blank) (c := c)
    h.size h.config h.pole hframe hsize (hexit.trans h.readPos.symm) hstart
    (by show d.readPos ≤ d.staging.size; rw [h.readPos]; exact Nat.zero_le _)
    (by show d.staging.size + _ ≤ d.readPos + _; rw [h.readPos, h.staging]; omega) hshows
  have hread : d.readPos = 0 := h.readPos
  have hbehind : ¬d.staging.size + d.staging.size < d.readPos := by omega
  refine ⟨⟨⟨hring.trans h.size, h.staging, h.config, h.pole, h.solo.cycled _, ?_, ?_, h.overruns,
    h.tagMismatches, h.hardwareWords⟩, List.cons_ne_nil c [], rfl, ?_, ?_, hclosed, ?_, ?_, ?_⟩,
    ?_, ?_, ?_, ?_⟩
  · intro b hb
    rw [List.mem_singleton.mp hb, hsize]
  · exact congrArg (· + 1) h.commits
  · show ((Engine.cycled _ _ _).channel d.channel).Cycles (d.readPos % _) _
    rw [hread, Nat.zero_mod]
    exact Engine.cycles_cycled _ _ _
  · show 0 = d.readPos % _
    rw [hread, Nat.zero_mod]
  · show d.played.toList = opening _ d.played.size
    rw [h.played]
    rfl
  · exact hread.trans hplayed.symm
  · intro i hi
    have hi : d.readPos + (closed { d with writePos := d.staging.size }
      (c.frame.back?.getD silence)).ring.size ≤ i := hi
    rw [hring, h.size, hread] at hi
    exact Shape.stream_extend_beyond (by rw [hexit, ← hstart, h.staging]; omega)
      (by rw [hexit]; exact hi)
  · show d.staging.size + d.staging.size = Shape.start σ.blank c + σ.len
    rw [hstart, ← hstart, h.staging]
  · show d.staging.size + d.staging.size ≤ d.readPos + _
    rw [h.staging]
    omega
  · exact (decide_eq_false hbehind).symm
  · have hearly : ¬σ.len < c.entry := by omega
    show d.stats.underruns = 0 + (if σ.len < c.entry then 1 else 0) +
      if d.staging.size + d.staging.size < d.readPos then 1 else 0
    rw [if_neg hbehind, if_neg hearly, h.underruns]

/-- The first frame follows one of silence. -/
theorem makeRoom_first (hstarted : d.started = false) (hsize : 0 < d.size)
    (hstaging : d.staging.size ≤ d.size + 1) :
    makeRoom d = .ok () { d with writePos := d.staging.size } := by
  rw [makeRoom, Run.get_bind, if_neg (by simp [hstarted]), Run.get_bind,
    Run.bind_ok (wrapOnce_ok hsize hstaging 0)]
  rfl

/-- **The first commit** starts playback one frame ahead of its frame. -/
theorem Preroll.commit (h : Preroll σ d) (count : Nat) :
    ∃ d', Ring.commit count d = .ok () d' ∧ Live σ (port.noted (.commit count) d d') d' ∧
      d'.readPos = 0 ∧ d'.stats.waitSpins = d.stats.waitSpins := by
  have hstaged := h.staged (h.size_padded count)
  have hframes := σ.two_mul_len_le
  have hplayed : d.played.size = 0 := by
    rw [h.played]
    rfl
  have hmake := makeRoom_first hstaged.started hstaged.size_pos hstaged.staging_le
  have hcommit := commit_eq hmake h.size_pos hstaged.staging_le (by
    show d.readPos + d.ring.size - (_ + _) ≤ d.ring.size
    rw [h.readPos]
    omega)
  rw [if_neg (by simp [h.started])] at hcommit
  refine ⟨_, hcommit, ?_, h.readPos, rfl⟩
  rw [noted_commit, ← h.back?_padded count]
  exact hstaged.started_closed hplayed hplayed rfl

end Ring

end ConsolePipeline.Playback
