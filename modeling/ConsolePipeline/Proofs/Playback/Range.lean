import Mathlib.Algebra.GroupWithZero.Nat
import Mathlib.Algebra.BigOperators.Group.List.Basic
import ConsolePipeline.Proofs.Playback.Transfer
import ConsolePipeline.Proofs.Run

namespace ConsolePipeline.Playback

open Stereo

/-!
# A range, step by step

Any number of steps of the transfer engine while a channel moves a range of words, however the time
is cut into them.

* `Engine.steps` — steps one after the other, each with a limit of its own.
* `Engine.steps_within`, `steps_last` — a range that is under way, and one that is moved to its end.
* `Engine.Runs`, `Ended`, `Runs.complete` — an engine of which one channel runs, and what its
  completion leaves.
* `Engine.step_inv` — all that a step can do; `Spent`, `Spent.steps` — so a channel that has nothing
  left never completes again.
-/

namespace Engine

variable {e e₁ : Engine} {ch c : ChannelId} {memory : Array (Array Word)} {words : Array Word}
  {region w left limit last : Nat} {limits : List Nat}

/-! ### Steps -/

/-- Steps one after the other: what each of them came to, all the words put out, and the engine
    afterwards. -/
def steps (memory : Array (Array Word)) :
    List Nat → Engine → Except Fault (List Step × Array Word × Engine)
  | [], e => .ok ([], #[], e)
  | limit :: limits, e =>
    match e.step memory limit with
    | .error fault => .error fault
    | .ok (st, out, e) =>
      (steps memory limits e).map fun r => (st :: r.1, out ++ r.2.1, r.2.2)

theorem steps_cons {st : Step} {out : Array Word} (h : e.step memory limit = .ok (st, out, e₁))
    (limits : List Nat) : steps memory (limit :: limits) e =
      (steps memory limits e₁).map fun r => (st :: r.1, out ++ r.2.1, r.2.2) := by
  simp only [steps, h]

theorem steps_cons_inv {sts : List Step} {out : Array Word}
    (h : steps memory (limit :: limits) e = .ok (sts, out, e₁)) :
    ∃ st out₁ e₂ sts₂ out₂, e.step memory limit = .ok (st, out₁, e₂) ∧
      steps memory limits e₂ = .ok (sts₂, out₂, e₁) ∧ sts = st :: sts₂ ∧ out = out₁ ++ out₂ := by
  rw [steps] at h
  split at h
  · cases h
  · next st out₁ e₂ hstep =>
    cases hrest : steps memory limits e₂ with
    | error fault =>
      rw [hrest] at h
      cases h
    | ok r =>
      rw [hrest] at h
      cases h
      exact ⟨st, out₁, e₂, _, _, hstep, hrest, rfl, rfl⟩

/-- Steps, and then others. -/
theorem steps_append {sts : List Step} {out : Array Word} (rest : List Nat)
    (h : steps memory limits e = .ok (sts, out, e₁)) : steps memory (limits ++ rest) e =
      (steps memory rest e₁).map fun r => (sts ++ r.1, out ++ r.2.1, r.2.2) := by
  induction limits generalizing e sts out with
  | nil =>
    cases h
    simp only [List.nil_append, Array.empty_append]
    exact (congrFun Except.map_id _).symm
  | cons limit limits ih =>
    obtain ⟨st, out₁, e₂, sts₂, out₂, hstep, hlimits, rfl, rfl⟩ := steps_cons_inv h
    rw [List.cons_append, steps_cons hstep, ih hlimits]
    cases steps memory rest e₁ <;> simp [Except.map, Array.append_assoc]

/-- Steps that fail, with others behind them. -/
theorem steps_error {fault : Fault} (rest : List Nat) (h : steps memory limits e = .error fault) :
    steps memory (limits ++ rest) e = .error fault := by
  induction limits generalizing e with
  | nil => cases h
  | cons limit limits ih =>
    rw [List.cons_append, steps]
    rw [steps] at h
    split at h
    · exact h
    · next st out e₂ _ =>
      cases hrest : steps memory limits e₂ with
      | error fault' =>
        rw [hrest] at h
        cases h
        rw [ih hrest]
        rfl
      | ok r =>
        rw [hrest] at h
        cases h

/-! ### A range -/

/-- A step that moves so many words and completes nothing. -/
def moving (n : Nat) : Step :=
  ⟨n, false, none⟩

theorem moved_zero (e : Engine) (ch : ChannelId) : e.moved ch 0 = e := by
  apply modifyChannel_eq_self
  simp

theorem moves_moved {n : Nat} (h : (e.channel ch).Moves memory region words w left)
    (hsize : words.size ≤ regionWords) (hn : n < left) :
    ((e.moved ch n).channel ch).Moves memory region words (w + n) (left - n) := by
  have hinside := h.inside
  rw [Engine.moved, channels_modifyChannel_self]
  refine ⟨h.busy, h.ring, ?_, ⟨h.lies.addresses.add (by omega), h.lies.there⟩, by omega⟩
  show (e.channel ch).remaining - n = left - n
  rw [h.remaining]

/-- **A range under way:** steps that ask for less than is left move what they ask for. -/
theorem steps_within (hrun : e.running? = some ch)
    (h : (e.channel ch).Moves memory region words w left) (hsize : words.size ≤ regionWords)
    (hlimits : ∀ limit ∈ limits, 0 < limit) (hlt : limits.sum < left) :
    steps memory limits e =
      .ok (limits.map moving, words.extract w (w + limits.sum), e.moved ch limits.sum) := by
  induction limits generalizing e w left with
  | nil =>
    rw [List.sum_nil, Nat.add_zero, moved_zero,
      Array.extract_empty_of_stop_le_start (Nat.le_refl w)]
    rfl
  | cons limit limits ih =>
    rw [List.sum_cons] at hlt
    have hstep : e.step memory limit =
        .ok (moving limit, words.extract w (w + limit), e.moved ch limit) := by
      rw [step_moves hrun h (by omega) (hlimits limit List.mem_cons_self), if_neg (by omega),
        Nat.min_eq_left (by omega)]
      rfl
    have hrest := ih ((running?_moved e ch limit).trans hrun) (moves_moved h hsize (by omega))
      (fun limit hmem => hlimits limit (List.mem_cons_of_mem _ hmem)) (by omega)
    -- The first step's words and those of the others are one stretch of the region.
    have hout : words.extract w (w + limit) ++
        words.extract (w + limit) (w + limit + limits.sum) =
          words.extract w (w + (limit + limits.sum)) := by
      rw [Array.extract_append_extract]
      congr 1 <;> omega
    rw [steps_cons hstep, hrest, List.sum_cons, ← hout, ← moved_moved]
    rfl

/-- **A range that is moved to its end:** the step that would go beyond it moves what is left, and
    the channel completes. -/
theorem steps_last (hrun : e.running? = some ch)
    (h : (e.channel ch).Moves memory region words w left) (hsize : words.size ≤ regionWords)
    (hlimits : ∀ limit ∈ limits, 0 < limit) (hlt : limits.sum < left)
    (hle : left ≤ limits.sum + last) :
    steps memory (limits ++ [last]) e =
      ((e.moved ch left).complete ch).map fun e =>
        (limits.map moving ++ [⟨left - limits.sum, false, some ch⟩], words.extract w (w + left),
          e) := by
  have hbefore := steps_within hrun h hsize hlimits hlt
  have hmoves := moves_moved h hsize hlt
  have hstep := step_moves ((running?_moved e ch limits.sum).trans hrun) hmoves
    (by omega : 0 < left - limits.sum) (by omega : 0 < last)
  have hout : words.extract w (w + limits.sum) ++
      words.extract (w + limits.sum) (w + limits.sum + (left - limits.sum)) =
        words.extract w (w + left) := by
    rw [Array.extract_append_extract]
    congr 1 <;> omega
  rw [Nat.min_eq_right (by omega), if_pos (by omega), moved_moved,
    Nat.add_sub_cancel' (Nat.le_of_lt hlt)] at hstep
  rw [steps_append [last] hbefore, steps, hstep]
  cases (e.moved ch left).complete ch <;> simp [Except.map, steps, hout]

/-! ### The end of a range -/

/-- The engine is `e`, but for the channel, which runs, stands at an address and has so many words
    left. -/
structure Runs (e : Engine) (ch : ChannelId) (a : UInt32) (left tag : Nat)
    (e₁ : Engine) : Prop where
  channel : e₁.channel ch = { e.channel ch with
    busy := true, readAddr := a, remaining := left, tag }
  others : ∀ c : ChannelId, c ≠ ch → e₁.channel c = e.channel c
  pending : e₁.pending = e.pending
  mailbox : e₁.mailbox = e.mailbox

/-- The channel has nothing left to move. -/
structure Spent (e : Engine) (ch : ChannelId) : Prop where
  stopped : (e.channel ch).busy = false
  remaining : (e.channel ch).remaining = 0
  ring : (e.channel ch).ringWords = none

/-- The transfer has come to its end, at the address `a`. Its channel's bit is set and its tag
    posted; the channel that it is chained to has been started, and runs if it has words left or is
    in ring mode. -/
structure Ended (e : Engine) (ch : ChannelId) (a : UInt32) (tag : Nat) (e₁ : Engine) : Prop where
  channel : e₁.channel ch = { e.channel ch with
    busy := false, readAddr := a, remaining := 0, tag }
  others : ∀ c : ChannelId, c ≠ ch → e₁.channel c =
    if (e.channel ch).chainTo = some c.val then (e.channel c).start else e.channel c
  runs_iff : ∀ c : ChannelId, (e₁.channel c).busy = true ↔ (e.channel ch).chainTo = some c.val ∧
    (0 < (e₁.channel c).remaining ∨ (e₁.channel c).ringWords.isSome = true)
  pending : e₁.pending = e.pending ||| bit ch
  mailbox : e₁.mailbox = e.mailbox.post tag

section Range

variable {a : UInt32} {count tag : Nat}

theorem runs_armAndStart (h : ((e.channel ch).arm a count tag).start.busy = true) :
    Runs e ch a count tag (e.armAndStart ch a count tag) := by
  refine ⟨?_, ?_, rfl, rfl⟩
  · rw [armAndStart, start, arm, channels_modifyChannel_self, channels_modifyChannel_self]
    show ({ (e.channel ch).arm a count tag with
      busy := ((e.channel ch).arm a count tag).start.busy } : Channel) = _
    rw [h]
    rfl
  · intro c hc
    rw [armAndStart, start, arm, channels_modifyChannel_ne _ _ hc, channels_modifyChannel_ne _ _ hc]

theorem Runs.moved (h : Runs e ch a left tag e₁) (n : Nat) :
    Runs e ch (a + UInt32.ofNat (n * 4)) (left - n) tag (e₁.moved ch n) := by
  refine ⟨?_, ?_, h.pending, h.mailbox⟩
  · rw [Engine.moved, channels_modifyChannel_self, h.channel]
  · intro c hc
    rw [Engine.moved, channels_modifyChannel_ne _ _ hc, h.others c hc]

theorem Runs.turnedTo (h : Runs e ch a left tag e₁) (a' : UInt32) :
    Runs e ch a' left tag (e₁.turnedTo ch a') := by
  refine ⟨?_, ?_, h.pending, h.mailbox⟩
  · rw [Engine.turnedTo, channels_modifyChannel_self, h.channel]
  · intro c hc
    rw [Engine.turnedTo, channels_modifyChannel_ne _ _ hc, h.others c hc]

/-- It is the only channel that runs, if there was no other. -/
theorem Runs.running? (h : Runs e ch a left tag e₁)
    (hothers : ∀ c : ChannelId, c ≠ ch → (e.channel c).busy = false) : e₁.running? = some ch := by
  apply running?_eq_some
  · rw [h.channel]
  · intro c hc
    rw [h.others c hc, hothers c hc]

/-- **The end of a transfer.** -/
theorem Runs.complete (h : Runs e ch a 0 tag e₁)
    (hothers : ∀ c : ChannelId, c ≠ ch → (e.channel c).busy = false)
    (hring : (e.channel ch).ringWords = none)
    (hchain : ∀ next, (e.channel ch).chainTo = some next → next < channelCount) :
    ∃ e₂, e₁.complete ch = .ok e₂ ∧ Ended e ch a tag e₂ := by
  have hchainTo : (e₁.channel ch).chainTo = (e.channel ch).chainTo := by rw [h.channel]
  have hself : (e₁.finished ch).channel ch = { e.channel ch with
      busy := false, readAddr := a, remaining := 0, tag } := by
    rw [channel_finished_self, h.channel]
  have hne : ∀ c : ChannelId, c ≠ ch → (e₁.finished ch).channel c = e.channel c := by
    intro c hc
    rw [channel_finished_ne e₁ hc, h.others c hc]
  have hstopped : ∀ c : ChannelId, ((e₁.finished ch).channel c).busy = false := by
    intro c
    by_cases hc : c = ch
    · rw [hc, hself]
    · rw [hne c hc, hothers c hc]
  rw [← hchainTo] at hchain
  obtain ⟨e₂, hcomplete, hchannel, hpending, hmailbox⟩ := complete_ok hchain
  rw [hchainTo] at hchannel
  refine ⟨e₂, hcomplete, ?_, ?_, ?_, ?_, ?_⟩
  · -- Chained to itself, it is started again, but has nothing left to move.
    rw [hchannel, hself]
    simp [Channel.start, hring]
  · intro c hc
    rw [hchannel, hne c hc]
  · intro c
    rw [hchannel]
    by_cases hnext : (e.channel ch).chainTo = some c.val
    · simp [hnext, Channel.start, or_comm]
    · simp [hnext, hstopped c]
  · rw [hpending]
    show e₁.pending ||| bit ch = _
    rw [h.pending]
  · rw [hmailbox]
    show e₁.mailbox.post (e₁.channel ch).tag = _
    rw [h.mailbox, h.channel]

theorem Ended.spent (h : Ended e ch a tag e₁) (hring : (e.channel ch).ringWords = none) :
    e₁.Spent ch := by
  constructor <;> rw [h.channel]
  exact hring

end Range

/-! ### A channel that is spent -/

section Spent

variable {st : Step} {sts : List Step} {out : Array Word}

theorem busy_of_running? (h : e.running? = some c) : (e.channel c).busy = true := by
  have hbusy := List.find?_some h
  exact hbusy

/-- **All that a step can do:** nothing, a change to the channel that runs, or its completion. -/
theorem step_inv (h : e.step memory limit = .ok (st, out, e₁)) :
    (st.completed = none ∧ (e₁ = e ∨ ∃ c f, e.running? = some c ∧ e₁ = e.modifyChannel c f)) ∨
      ∃ c n, e.running? = some c ∧ st.completed = some c ∧ (e.moved c n).complete c = .ok e₁ := by
  unfold step at h
  split at h
  · cases h
    exact .inl ⟨rfl, .inl rfl⟩
  split at h
  · cases h
    exact .inl ⟨rfl, .inl rfl⟩
  next c hrun =>
  simp only at h
  split at h
  · -- The address lies in no region, so the channel stops.
    cases h
    exact .inl ⟨rfl, .inr ⟨c, _, hrun, rfl⟩⟩
  next words _ =>
  split at h
  · -- In ring mode a step that succeeds moves the address.
    split at h
    · cases h
    split at h
    · cases h
    cases h
    exact .inl ⟨rfl, .inr ⟨c, _, hrun, rfl⟩⟩
  split at h
  · -- There are no words behind the region's end.
    cases h
    exact .inl ⟨rfl, .inr ⟨c, _, hrun, rfl⟩⟩
  split at h
  · obtain ⟨e₂, hcomplete, hr⟩ := Run.map_inv h
    cases hr
    exact .inr ⟨c, _, hrun, rfl, hcomplete⟩
  · cases h
    exact .inl ⟨rfl, .inr ⟨c, _, hrun, rfl⟩⟩

theorem Spent.start (h : e.Spent ch) : (e.channel ch).start = e.channel ch := by
  have hstart : (e.channel ch).start = { e.channel ch with busy := (e.channel ch).busy } := by
    simp [Channel.start, h.ring, h.remaining, h.stopped]
  rw [hstart]

/-- **A channel that is spent** stays as it is and does not complete. -/
theorem Spent.step (h : e.Spent ch) (hstep : e.step memory limit = .ok (st, out, e₁)) :
    e₁.channel ch = e.channel ch ∧ st.completed ≠ some ch := by
  have hne : ∀ c, e.running? = some c → ch ≠ c := by
    rintro c hrun rfl
    have hbusy := busy_of_running? hrun
    rw [h.stopped] at hbusy
    cases hbusy
  obtain ⟨hnone, rfl | ⟨c, f, hrun, rfl⟩⟩ | ⟨c, n, hrun, hcompleted, hcomplete⟩ := step_inv hstep
  · exact ⟨rfl, by simp [hnone]⟩
  · exact ⟨channels_modifyChannel_ne e f (hne c hrun), by simp [hnone]⟩
  · have hc := hne c hrun
    have hsame : ((e.moved c n).finished c).channel ch = e.channel ch := by
      rw [channel_finished_ne _ hc, moved, channels_modifyChannel_ne _ _ hc]
    have hchain : ∀ next, ((e.moved c n).channel c).chainTo = some next → next < channelCount := by
      intro next hnext
      apply Nat.lt_of_not_le
      intro hle
      rw [complete_error hnext hle] at hcomplete
      cases hcomplete
    obtain ⟨e₂, hcomplete₂, hchannel, -, -⟩ := complete_ok hchain
    rw [hcomplete] at hcomplete₂
    cases hcomplete₂
    refine ⟨?_, ?_⟩
    · -- It may be started by another channel's completion, which changes nothing.
      rw [hchannel, hsame, h.start, ite_self]
    · rw [hcompleted]
      intro heq
      exact hc (Option.some.inj heq).symm

theorem Spent.steps (h : e.Spent ch) (hsteps : steps memory limits e = .ok (sts, out, e₁)) :
    e₁.channel ch = e.channel ch ∧ ∀ st ∈ sts, st.completed ≠ some ch := by
  induction limits generalizing e sts out with
  | nil =>
    cases hsteps
    exact ⟨rfl, by simp⟩
  | cons limit limits ih =>
    obtain ⟨st, out₁, e₂, sts₂, out₂, hstep, hrest, rfl, rfl⟩ := steps_cons_inv hsteps
    obtain ⟨hsame, hst⟩ := h.step hstep
    have hspent : e₂.Spent ch := ⟨hsame ▸ h.stopped, hsame ▸ h.remaining, hsame ▸ h.ring⟩
    obtain ⟨hsame₂, hsts⟩ := ih hspent hrest
    refine ⟨hsame₂.trans hsame, ?_⟩
    intro st' hmem
    rcases List.mem_cons.mp hmem with rfl | hmem
    · exact hst
    · exact hsts st' hmem

end Spent

end Engine

end ConsolePipeline.Playback
