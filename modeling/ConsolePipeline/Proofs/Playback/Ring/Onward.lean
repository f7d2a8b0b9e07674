import ConsolePipeline.Proofs.Playback.Ring.Small

namespace ConsolePipeline.Playback

open Stereo

/-!
# A ring that plays never stops

From the first commit on, each word of time is a word played, whether it passes by itself or while
software waits.

* `Ring.Delivers` — what a commit does to the cursors.
* `Ring.Turning.commit_inv`, `Silent.commit_inv` — a commit that succeeds does that.
* `Ring.NeverStops` — playback goes on, whatever is called.
* `Silent.neverStops` — rings that can be followed never stop.
-/

namespace Ring

variable {d d' s : Ring} {count size len k n : Nat} {history : List Commit}

/-! ### The place for a frame -/

/-- The state in which the place of the next frame is known. If there is no space yet, software
    waits from there on. -/
def aimed (d : Ring) : Ring :=
  d.sync.bumped

theorem makeRoom_started (hstarted : d.started = true) :
    makeRoom d = Run.waitWhile mustWait spin
      (d.aimed.writePos + d.aimed.frameSpace - d.aimed.readPos + 1) d.aimed := by
  rw [makeRoom, Run.get_bind, if_pos hstarted, Run.modify_bind, Run.modify_bind, Run.get_bind]
  rfl

namespace Turning

theorem bumped (h : Turning d) : Turning d.bumped :=
  ⟨⟨h.started, h.solo, h.cycles, h.lastIndex⟩, h.followable⟩

theorem staged (h : Turning d) (words : Array Word) : Turning { d with staging := words } :=
  ⟨⟨h.started, h.solo, h.cycles, h.lastIndex⟩, h.followable⟩

/-- Taking aim moves the writer up to the reader, if it is behind. -/
theorem aimed (h : Turning d) : Turning d.aimed ∧ Passes 0 0 d.bumped d.aimed := by
  obtain ⟨hturning, hsame⟩ := h.checkStarved
  rw [Ring.aimed, h.sync]
  refine ⟨hturning.bumped, hsame.size, hsame.staging, hsame.config, ?_, hsame.readPos,
    hsame.played, hsame.idleWords, hsame.waitSpins⟩
  show max d.checkStarved.writePos d.checkStarved.readPos = max d.writePos d.readPos
  rw [hsame.writePos, hsame.readPos, Nat.add_zero]

/-- **Waiting for space** is nothing but time. It takes none if there is space at once. -/
theorem makeRoom_inv (h : Turning d) (hmake : makeRoom d = .ok () s) :
    Turning s ∧ ∃ k, Passes (waitWords * k) k d.bumped s ∧ (k = 0 ↔ d.aimed.mustWait = false) := by
  rw [makeRoom_started h.started] at hmake
  obtain ⟨haimed, hsame⟩ := h.aimed
  cases hmust : d.aimed.mustWait with
  | false =>
    rw [Run.waitWhile_done hmust] at hmake
    cases hmake
    exact ⟨haimed, 0, hsame, by simp⟩
  | true =>
    -- One round is needed, and there may be more.
    obtain ⟨s₁, hs₁, hturning, hround⟩ := haimed.spin
    simp only [Run.waitWhile, hmust, if_true, hs₁] at hmake
    have hrounds : ∀ {s s'}, (Turning s ∧ ∃ k, 0 < k ∧ Passes (waitWords * k) k d.bumped s) →
        Ring.spin s = .ok () s' →
        Turning s' ∧ ∃ k, 0 < k ∧ Passes (waitWords * k) k d.bumped s' := by
      rintro s s' ⟨hturning, k, hk, hpasses⟩ hspin
      obtain ⟨t, ht, hturning', hpasses'⟩ := hturning.spin
      rw [ht] at hspin
      cases hspin
      exact ⟨hturning', k + 1, k.succ_pos, hpasses.trans hpasses'⟩
    obtain ⟨hturning', k, hk, hpasses⟩ :=
      Run.waitWhile_inv hrounds ⟨hturning, 1, Nat.one_pos, hsame.trans hround⟩ hmake
    exact ⟨hturning', k, hpasses, by simp [Nat.pos_iff_ne_zero.mp hk]⟩

end Turning

/-! ### The commit -/

/-- **A commit with `k` rounds of waiting:** its frame is put after the last one or at the reader,
    whichever was ahead when it began. -/
structure Delivers (k : Nat) (d d' : Ring) : Prop where
  size : d'.ring.size = d.ring.size
  staging : d'.staging.size = d.staging.size
  config : d'.config = d.config
  writePos : d'.writePos = max d.writePos d.readPos + d.staging.size
  readPos : d'.readPos = d.readPos + waitWords * k
  played : d'.played.size = d.played.size + waitWords * k
  idleWords : d'.stats.idleWords = d.stats.idleWords
  waitSpins : d'.stats.waitSpins = d.stats.waitSpins + k

theorem Seen.closed (h : Seen d) (held : Word) : Seen (d.closed held) := by
  refine ⟨h.started, h.solo, ?_, ?_⟩
  · rw [size_closed]
    exact h.cycles
  · rw [size_closed]
    exact h.lastIndex

theorem Turning.closed (h : Turning d) (held : Word) : Turning (d.closed held) := by
  refine ⟨h.toSeen.closed held, ?_⟩
  rw [size_closed]
  exact h.followable

/-- The state once the frame to be committed has been filled up. -/
def prepared (d : Ring) (count : Nat) : Ring :=
  { d with staging := (padded d.staging count d.held).1 }

theorem size_prepared (d : Ring) (count : Nat) :
    (d.prepared count).staging.size = d.staging.size :=
  size_padded _ _ _

/-- Once there is space, the frame is written and the commit is over. -/
theorem Passes.delivers (h : Passes (waitWords * k) k (d.prepared count).bumped s) (held : Word) :
    Delivers k d (s.closed held) where
  size := (s.size_closed held).trans h.size
  staging := (congrArg Array.size h.staging).trans (d.size_prepared count)
  config := h.config
  writePos := by
    show s.writePos + s.staging.size = _
    rw [h.writePos, h.staging]
    exact congrArg (max d.writePos d.readPos + ·) (d.size_prepared count)
  readPos := h.readPos
  played := h.played
  idleWords := h.idleWords
  waitSpins := h.waitSpins

/-- **A commit in playback** lets the reader go on, while it waits for space if it has to. -/
theorem Turning.commit_inv (h : Turning d) (hcommit : commit count d = .ok () d') :
    Turning d' ∧ ∃ k, Delivers k d d' ∧ (k = 0 ↔ (d.prepared count).aimed.mustWait = false) := by
  obtain ⟨s, hmake, rfl⟩ := Ring.commit_inv hcommit
  obtain ⟨hturning, k, hpasses, hwaits⟩ := (h.staged _).makeRoom_inv hmake
  have hpasses : Passes (waitWords * k) k (d.prepared count).bumped s := hpasses
  rw [if_pos hturning.started]
  exact ⟨hturning.closed _, k, hpasses.delivers _, hwaits⟩

/-- **The first commit** puts its frame behind one of silence, and sets the reader going. -/
theorem Silent.commit_inv (h : Silent size len d) (hcommit : Ring.commit count d = .ok () d') :
    Seen d' ∧ d'.ring.size = size ∧ d'.staging.size = len ∧ d'.config = d.config ∧
      d'.readPos = 0 ∧ d'.writePos = 2 * len := by
  obtain ⟨s, hmake, rfl⟩ := Ring.commit_inv hcommit
  have hstaging : (padded d.staging count d.held).1.size = len :=
    (size_padded _ _ _).trans h.staging
  obtain rfl := Ring.makeRoom_inv (h.staged hstaging).started hmake
  rw [if_neg (by show ¬d.started = true; rw [h.started]; exact Bool.false_ne_true)]
  refine ⟨⟨rfl, h.solo.cycled _, ?_, ?_⟩, (size_closed _ _).trans h.size, hstaging, rfl,
    h.readPos, ?_⟩
  · show ((Engine.cycled _ _ _).channel d.channel).Cycles (d.readPos % _) _
    rw [h.readPos, Nat.zero_mod]
    exact Engine.cycles_cycled _ _ _
  · show 0 = d.readPos % _
    rw [h.readPos, Nat.zero_mod]
  · show (padded d.staging count d.held).1.size + (padded d.staging count d.held).1.size = 2 * len
    rw [hstaging, Nat.two_mul]

/-! ### Playback goes on -/

/-- Hardware time that a call takes: what it is told to let pass, or the rounds that it waits. -/
def timeOf (c : Call) (d d' : Ring) : Nat :=
  match c with
  | .advance n => n
  | _ => waitWords * (d'.stats.waitSpins - d.stats.waitSpins)

/-- **Playback has gone on during a call:** the channel runs, and each word of time has been a word
    played. -/
structure PlaysOn (c : Call) (d d' : Ring) : Prop where
  busy : (d'.engine.channel d'.channel).busy = true
  idleWords : d'.stats.idleWords = d.stats.idleWords
  readPos : d'.readPos = d.readPos + timeOf c d d'
  played : d'.played.size = d.played.size + timeOf c d d'

/-- **A ring that never stops:** once a frame has been committed the channel runs, time can pass,
    and whatever is called lets playback go on. -/
def NeverStops (d : Ring) : Prop :=
  ∀ calls d₁ history, port.perform calls (d, []) = .ok () (d₁, history) → history ≠ [] →
    (d₁.engine.channel d₁.channel).busy = true ∧
    (∀ n, ∃ d₂, advance n d₁ = .ok () d₂) ∧
    ∀ c d₂, port.call c d₁ = .ok () d₂ → PlaysOn c d₁ d₂

theorem Delivers.playsOn (h : Delivers k d d') (hturning : Turning d') (count : Nat) :
    PlaysOn (.commit count) d d' := by
  have hrounds : d'.stats.waitSpins - d.stats.waitSpins = k := by
    rw [h.waitSpins]
    omega
  have htime : timeOf (.commit count) d d' = waitWords * k := congrArg (waitWords * ·) hrounds
  refine ⟨hturning.cycles.busy, h.idleWords, ?_, ?_⟩
  · rw [htime]
    exact h.readPos
  · rw [htime]
    exact h.played

/-- **Each call lets playback go on.** -/
theorem Turning.call_inv {c : Call} (h : Turning d) (hcall : port.call c d = .ok () d') :
    Turning d' ∧ PlaysOn c d d' := by
  have hstill : waitWords * (d.stats.waitSpins - d.stats.waitSpins) = 0 := by
    rw [Nat.sub_self, Nat.mul_zero]
  cases c with
  | acquire =>
    cases hcall
    exact ⟨h, h.cycles.busy, rfl, (congrArg (d.readPos + ·) hstill).symm,
      (congrArg (d.played.size + ·) hstill).symm⟩
  | write words =>
    cases hcall
    exact ⟨h.staged _, h.cycles.busy, rfl, (congrArg (d.readPos + ·) hstill).symm,
      (congrArg (d.played.size + ·) hstill).symm⟩
  | commit count =>
    obtain ⟨hturning, k, hdelivers, -⟩ := h.commit_inv hcall
    exact ⟨hturning, hdelivers.playsOn hturning count⟩
  | advance n =>
    obtain ⟨t, ht, hturning, hpasses⟩ := h.advance n
    have hcall : Ring.advance n d = .ok () d' := hcall
    rw [ht] at hcall
    cases hcall
    exact ⟨hturning, hturning.cycles.busy, hpasses.idleWords, hpasses.readPos, hpasses.played⟩

/-- Nothing but the first commit sets a silent ring going. -/
theorem Silent.call_inv {c : Call} (h : Silent size len d) (hcall : port.call c d = .ok () d') :
    (port.noted c d d' = [] ∧ Silent size len d') ∨
      ∃ count, c = .commit count := by
  cases c with
  | acquire =>
    cases hcall
    exact .inl ⟨rfl, h⟩
  | write words =>
    cases hcall
    exact .inl ⟨rfl, h.staged ((size_overlay _ _).trans h.staging)⟩
  | commit count => exact .inr ⟨count, rfl⟩
  | advance n => exact .inl ⟨rfl, h.advance hcall⟩

/-- **A ring that can be followed never stops.** -/
theorem Silent.neverStops (h : Silent size len d) (hsize : Followable size) : NeverStops d := by
  intro calls d₁ history hrun hne
  -- The ring is silent until the first commit and turns from then on. A history that is not empty
  -- tells that there has been one.
  let Inv (history : List Commit) (s : Ring) : Prop :=
    history = [] ∧ Silent size len s ∨ Turning s
  have hcall : ∀ c history s s', Inv history s → port.call c s = .ok () s' →
      Inv (history ++ port.noted c s s') s' := by
    rintro c history s s' (⟨rfl, hsilent⟩ | hturning) hcall
    · obtain ⟨hnoted, hsilent'⟩ | ⟨count, rfl⟩ := hsilent.call_inv hcall
      · exact .inl ⟨hnoted, hsilent'⟩
      · obtain ⟨hseen, hring, -⟩ := hsilent.commit_inv hcall
        exact .inr ⟨hseen, hring ▸ hsize⟩
    · exact .inr (hturning.call_inv hcall).1
  obtain ⟨hnil, -⟩ | hturning := Port.perform_inv hcall (.inl ⟨rfl, h⟩) hrun
  · exact absurd hnil hne
  refine ⟨hturning.cycles.busy, fun n => ?_, fun c d₂ hcall => (hturning.call_inv hcall).2⟩
  obtain ⟨d₂, hd₂, -, -⟩ := hturning.advance n
  exact ⟨d₂, hd₂⟩

end Ring

end ConsolePipeline.Playback
