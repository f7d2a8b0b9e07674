import ConsolePipeline.Proofs.Playback.Range

namespace ConsolePipeline.Playback

open Stereo

/-!
# Transfers are exact

The words of a range come out once and in order, and the channel completes where the range ends;
round a ring they come out for ever. How time is cut into steps makes no difference.

* `Engine.Round`, `steps_round` — a ring that is gone round.
* `Engine.MovesRange`, `GoesRound` — the two kinds of transfer, from setting the channel up.
* `Engine.moves_range`, `goes_round` — each by itself.
* `Engine.transfers_exact` — any engine, any memory that can be addressed, any limits.
-/

namespace Engine

variable {e : Engine} {ch : ChannelId} {memory : Array (Array Word)} {words : Array Word}
  {region w left limit : Nat} {limits : List Nat}

/-! ### A ring -/

section Round

/-- The words that some steps have moved. -/
def wordsMoved (sts : List Step) : Nat :=
  (sts.map (·.transferred)).sum

/-- **Steps round a ring,** from word `w` on: what they are, and the words that they put out. -/
structure Round (words : Array Word) (w : Nat) (limits : List Nat) (sts : List Step)
    (out : Array Word) : Prop where
  /-- A step moves what it is asked for, up to the end of the ring, and completes nothing. -/
  moves : ∀ i limit, limits[i]? = some limit → sts[i]? = some (moving
    (min limit (words.size - (w + wordsMoved (sts.take i)) % words.size)))
  count : sts.length = limits.length
  size : out.size = wordsMoved sts
  /-- The words come out in order, over and over again. -/
  words : ∀ i < out.size, out[i]? = words[(w + i) % words.size]?
  /-- Each step brings at least one. -/
  progress : limits.length ≤ out.size

theorem turnedTo_self (e : Engine) (ch : ChannelId) : e.turnedTo ch (e.readAddr ch) = e :=
  modifyChannel_eq_self rfl

theorem running?_turnedTo (e : Engine) (ch : ChannelId) (a : UInt32) :
    (e.turnedTo ch a).running? = e.running? :=
  running?_modifyChannel e ch rfl

theorem turnedTo_turnedTo (e : Engine) (ch : ChannelId) (a a' : UInt32) :
    (e.turnedTo ch a).turnedTo ch a' = e.turnedTo ch a' :=
  modifyChannel_modifyChannel _ _ _ _

theorem circles_turnedTo {w' : Nat} (h : (e.channel ch).Circles memory region words w)
    (hsize : words.size ≤ regionWords) (hw' : w' < words.size) :
    ((e.turnedTo ch (regionAddress region w')).channel ch).Circles memory region words w' := by
  rw [Engine.turnedTo, channels_modifyChannel_self]
  have haddr := addresses_regionAddress h.lies.addresses.region_lt (by omega : w' < regionWords)
  exact ⟨h.busy, h.ring, h.power, ⟨haddr, h.lies.there⟩, hw'⟩

@[simp] theorem wordsMoved_cons (st : Step) (sts : List Step) :
    wordsMoved (st :: sts) = st.transferred + wordsMoved sts := by
  simp [wordsMoved]

theorem round_nil (words : Array Word) (w : Nat) : Round words w [] [] #[] := by
  constructor <;> simp [wordsMoved]

/-- **One step more,** before the others. -/
theorem Round.cons {n : Nat} {sts : List Step} {out : Array Word}
    (hn : n = min limit (words.size - w)) (hw : w < words.size) (hlimit : 0 < limit)
    (h : Round words ((w + n) % words.size) limits sts out) :
    Round words w (limit :: limits) (moving n :: sts) (words.extract w (w + n) ++ out) := by
  have hfirst : (words.extract w (w + n)).size = n := by
    rw [Array.size_extract]
    omega
  have hsize := h.size
  have hprogress := h.progress
  constructor
  · intro i l hl
    cases i with
    | zero =>
      cases hl
      simp [wordsMoved, Nat.mod_eq_of_lt hw, hn]
    | succ i =>
      have hplace : (w + wordsMoved (moving n :: sts.take i)) % words.size =
          ((w + n) % words.size + wordsMoved (sts.take i)) % words.size := by
        rw [Nat.mod_add_mod, wordsMoved_cons, Nat.add_assoc]
        rfl
      rw [List.take_succ_cons, hplace]
      exact h.moves i l hl
  · simp [h.count]
  · simp [hfirst, hsize, moving]
  · intro i hi
    rw [Array.size_append, hfirst] at hi
    by_cases hin : i < n
    · -- The first step does not come round the ring, so its words stand where they are counted.
      rw [Array.getElem?_append_left (by omega), Array.getElem?_extract, if_pos (by omega),
        Nat.mod_eq_of_lt (by omega)]
    · have hplace : (w + i) % words.size = ((w + n) % words.size + (i - n)) % words.size := by
        rw [Nat.mod_add_mod]
        congr 1
        omega
      rw [Array.getElem?_append_right (by omega), hfirst, hplace]
      exact h.words (i - n) (by omega)
  · rw [Array.size_append, hfirst, List.length_cons]
    omega

/-- **A ring is gone round** by steps of any size; each of them goes on where the last one
    stopped. -/
theorem steps_round (hrun : e.running? = some ch)
    (h : (e.channel ch).Circles memory region words w) (hsize : words.size ≤ regionWords)
    (hlimits : ∀ limit ∈ limits, 0 < limit) :
    ∃ sts out a, steps memory limits e = .ok (sts, out, e.turnedTo ch a) ∧
      Round words w limits sts out ∧
      LiesAt memory region words a ((w + out.size) % words.size) := by
  -- The induction is on the steps, with the place where the next of them goes on left general.
  induction limits generalizing e w with
  | nil =>
    refine ⟨[], #[], e.readAddr ch, ?_, round_nil words w, ?_⟩
    · rw [turnedTo_self, steps]
    · rw [Array.size_empty, Nat.add_zero, Nat.mod_eq_of_lt h.inside]
      exact h.lies
  | cons limit limits ih =>
    have hlimit := hlimits limit List.mem_cons_self
    have hstep := step_circles hrun h hlimit
    have hpos : 0 < words.size := Nat.zero_lt_of_lt h.inside
    obtain ⟨sts, out, a, hsteps, hround, hlies⟩ := ih
      ((running?_turnedTo e ch _).trans hrun) (circles_turnedTo h hsize (Nat.mod_lt _ hpos))
      (fun limit hmem => hlimits limit (List.mem_cons_of_mem _ hmem))
    refine ⟨_, _, a, ?_, hround.cons rfl h.inside hlimit, ?_⟩
    · rw [steps_cons hstep, hsteps, turnedTo_turnedTo]
      rfl
    · have hinside := h.inside
      rw [Nat.mod_add_mod] at hlies
      rw [Array.size_append, Array.size_extract, ← Nat.add_assoc,
        Nat.min_eq_left (by omega), Nat.add_sub_cancel_left]
      exact hlies

end Round

/-! ### The law -/

section Law

variable {a : UInt32} {count tag : Nat}

/-- Limits that come to the end of a transfer: those before, the one that ends it, those behind. -/
theorem exists_last (hpos : 0 < left) (hle : left ≤ limits.sum) :
    ∃ before last after, limits = before ++ last :: after ∧ before.sum < left ∧
      left ≤ before.sum + last := by
  induction limits generalizing left with
  | nil => simp at hle; omega
  | cons limit limits ih =>
    rw [List.sum_cons] at hle
    by_cases hlast : left ≤ limit
    · exact ⟨[], limit, limits, rfl, by simpa using hpos, by simpa using hlast⟩
    · obtain ⟨before, last, after, rfl, hlt, hend⟩ := ih (by omega : 0 < left - limit) (by omega)
      refine ⟨limit :: before, last, after, rfl, ?_, ?_⟩ <;> rw [List.sum_cons] <;> omega

/-- **A range is moved exactly,** from word `w` on, by steps with these limits. -/
structure MovesRange (e : Engine) (ch : ChannelId) (memory : Array (Array Word))
    (words : Array Word) (a : UInt32) (w count tag : Nat) (limits : List Nat) : Prop where
  /-- Up to the end each step moves what it is asked for and completes nothing. What is put out is
      the first part of the range, and the address stands behind it. -/
  within : limits.sum < count → ∃ e₁,
    steps memory limits (e.armAndStart ch a count tag) =
      .ok (limits.map moving, words.extract w (w + limits.sum), e₁) ∧
    Runs e ch (a + UInt32.ofNat (limits.sum * 4)) (count - limits.sum) tag e₁
  /-- One step comes to the end. It moves what is left, and is the one that completes: what has been
      put out then is the whole range, and nothing that follows completes the channel again or moves
      its address. -/
  ends : count ≤ limits.sum → ∃ before last after, limits = before ++ last :: after ∧
    before.sum < count ∧ count ≤ before.sum + last ∧
    ((∀ next, (e.channel ch).chainTo = some next → next < channelCount) → ∃ e₁,
      steps memory (before ++ [last]) (e.armAndStart ch a count tag) =
        .ok (before.map moving ++ [⟨count - before.sum, false, some ch⟩],
          words.extract w (w + count), e₁) ∧
      Ended e ch (a + UInt32.ofNat (count * 4)) tag e₁ ∧
      ∀ sts out e₂, steps memory after e₁ = .ok (sts, out, e₂) →
        e₂.channel ch = e₁.channel ch ∧ ∀ st ∈ sts, st.completed ≠ some ch) ∧
    -- There is nothing to start where the channel is chained to none that exists.
    ∀ next, (e.channel ch).chainTo = some next → channelCount ≤ next →
      steps memory limits (e.armAndStart ch a count tag) = .error (.noChannel next)

/-- **A ring is gone round exactly,** from word `w` on: without end, and without a completion. -/
def GoesRound (e : Engine) (ch : ChannelId) (memory : Array (Array Word)) (region : Nat)
    (words : Array Word) (a : UInt32) (w count tag : Nat) (limits : List Nat) : Prop :=
  ∃ sts out a₁ e₁, steps memory limits (e.armAndStart ch a count tag) = .ok (sts, out, e₁) ∧
    Round words w limits sts out ∧
    LiesAt memory region words a₁ ((w + out.size) % words.size) ∧ Runs e ch a₁ count tag e₁

/-- **A range,** by a channel that works alone. -/
theorem moves_range (hothers : ∀ c : ChannelId, c ≠ ch → (e.channel c).busy = false)
    (hring : (e.channel ch).ringWords = none) (hlies : LiesAt memory region words a w)
    (hsize : words.size ≤ regionWords) (hcount : 0 < count) (hinside : w + count ≤ words.size)
    (hlimits : ∀ limit ∈ limits, 0 < limit) :
    MovesRange e ch memory words a w count tag limits := by
  have hruns : Runs e ch a count tag (e.armAndStart ch a count tag) := by
    apply runs_armAndStart
    simp [Channel.start, Channel.arm, hcount]
  have hrun := hruns.running? hothers
  have hmoves : ((e.armAndStart ch a count tag).channel ch).Moves memory region words w count := by
    rw [hruns.channel]
    exact ⟨rfl, hring, rfl, hlies, hinside⟩
  refine ⟨?_, ?_⟩
  · intro hlt
    exact ⟨_, steps_within hrun hmoves hsize hlimits hlt, hruns.moved limits.sum⟩
  · intro hle
    obtain ⟨before, last, after, rfl, hlt, hend⟩ := exists_last hcount hle
    have hbefore : ∀ limit ∈ before, 0 < limit := by
      intro limit hmem
      exact hlimits limit (List.mem_append_left _ hmem)
    have hlast := steps_last hrun hmoves hsize hbefore hlt hend
    have hdone : Runs e ch (a + UInt32.ofNat (count * 4)) 0 tag
        ((e.armAndStart ch a count tag).moved ch count) := by
      have hmoved := hruns.moved count
      rwa [Nat.sub_self] at hmoved
    refine ⟨before, last, after, rfl, hlt, hend, ?_, ?_⟩
    · -- The channel is spent then, whatever the one that it has started goes on to do.
      intro hchain
      obtain ⟨e₁, hcomplete, hended⟩ := hdone.complete hothers hring hchain
      refine ⟨e₁, by rw [hlast, hcomplete]; rfl, hended, ?_⟩
      intro sts out e₂ hafter
      exact (hended.spent hring).steps hafter
    · intro next hnext hnone
      have hchainTo : (((e.armAndStart ch a count tag).moved ch count).channel ch).chainTo =
          some next := by
        rw [hdone.channel]
        exact hnext
      have herror : steps memory (before ++ [last]) (e.armAndStart ch a count tag) =
          .error (.noChannel next) := by
        rw [hlast, complete_error hchainTo hnone]
        rfl
      have hsplit : before ++ last :: after = before ++ [last] ++ after := by simp
      rw [hsplit]
      exact steps_error after herror

/-- **A ring,** by a channel that works alone. -/
theorem goes_round (hothers : ∀ c : ChannelId, c ≠ ch → (e.channel c).busy = false)
    (hring : (e.channel ch).ringWords = some words.size) (hlies : LiesAt memory region words a w)
    (hsize : words.size ≤ regionWords) (hpower : words.size.isPowerOfTwo) (hw : w < words.size)
    (hlimits : ∀ limit ∈ limits, 0 < limit) :
    GoesRound e ch memory region words a w count tag limits := by
  have hruns : Runs e ch a count tag (e.armAndStart ch a count tag) := by
    apply runs_armAndStart
    simp [Channel.start, Channel.arm, hring]
  have hcircles : ((e.armAndStart ch a count tag).channel ch).Circles memory region words w := by
    rw [hruns.channel]
    exact ⟨rfl, hring, hpower, hlies, hw⟩
  obtain ⟨sts, out, a₁, hsteps, hround, hlies₁⟩ :=
    steps_round (hruns.running? hothers) hcircles hsize hlimits
  exact ⟨sts, out, a₁, _, hsteps, hround, hlies₁, hruns.turnedTo a₁⟩

/-- **Transfers are exact,** in any engine of which no other channel runs, for any memory whose
    regions can be addressed, and however time is cut into steps: a range is moved once, word for
    word, and completes at its end; a ring is gone round without end. -/
theorem transfers_exact (e : Engine) (ch : ChannelId) (memory : Array (Array Word)) (region : Nat)
    (words : Array Word) (a : UInt32) (w count tag : Nat) (limits : List Nat)
    (hothers : ∀ c : ChannelId, c ≠ ch → (e.channel c).busy = false)
    (hlies : LiesAt memory region words a w) (hsize : words.size ≤ regionWords)
    (hlimits : ∀ limit ∈ limits, 0 < limit) :
    ((e.channel ch).ringWords = none → 0 < count → w + count ≤ words.size →
      MovesRange e ch memory words a w count tag limits) ∧
    ((e.channel ch).ringWords = some words.size → words.size.isPowerOfTwo → w < words.size →
      GoesRound e ch memory region words a w count tag limits) := by
  constructor
  · intro hring hcount hinside
    exact moves_range hothers hring hlies hsize hcount hinside hlimits
  · intro hring hpower hw
    exact goes_round hothers hring hlies hsize hpower hw hlimits

/-- Three words of a region in steps of two and more, by a channel that starts another one; and a
    ring of four words, from its third word on. -/
theorem transfers_of_four_words_exact :
    MovesRange ((({} : Engine).configure ⟨3, by decide⟩ (some 5) none).arm ⟨5, by decide⟩
        (regionAddress 1 0) 2 9) ⟨3, by decide⟩ #[#[10, 11, 12, 13], #[20, 21]] #[10, 11, 12, 13]
        (regionAddress 0 1) 1 3 7 [2, 4, 1] ∧
      GoesRound (({} : Engine).configure ⟨0, by decide⟩ none (some 4)) ⟨0, by decide⟩
        #[#[10, 11, 12, 13], #[20, 21]] 0 #[10, 11, 12, 13] (regionAddress 0 2) 2 0 0 [3, 1, 9] :=
  ⟨(transfers_exact _ _ _ 0 _ _ 1 3 7 [2, 4, 1] (by decide)
      ⟨addresses_regionAddress (by decide) (by decide), rfl⟩ (by decide) (by decide)).1
      rfl (by decide) (by decide),
    (transfers_exact _ _ _ 0 _ _ 2 0 0 [3, 1, 9] (by decide)
      ⟨addresses_regionAddress (by decide) (by decide), rfl⟩ (by decide) (by decide)).2
      rfl ⟨2, rfl⟩ (by decide)⟩

/-- The second of those steps ends the range, and the third is the other channel's. -/
example : (steps #[#[10, 11, 12, 13], #[20, 21]] [2, 4, 1]
    (((({} : Engine).configure ⟨3, by decide⟩ (some 5) none).arm ⟨5, by decide⟩
      (regionAddress 1 0) 2 9).armAndStart ⟨3, by decide⟩ (regionAddress 0 1) 3 7)).toOption.map
        (fun r => (r.1, r.2.1)) =
      some ([moving 2, ⟨1, false, some ⟨3, by decide⟩⟩, moving 1], #[11, 12, 13, 20]) := by
  decide +kernel

/-- An engine with a channel that is chained to one that does not exist. -/
def chainedBeyond (ch : ChannelId) : Engine :=
  ({} : Engine).configure ch (some channelCount) none

/-- **A channel that is chained to none that exists does not complete:** where its only word has
    been moved, the step breaks down. -/
theorem chained_beyond_never_completes :
    (∀ c : ChannelId, c ≠ ⟨0, by decide⟩ →
        ((chainedBeyond ⟨0, by decide⟩).channel c).busy = false) ∧
      ((chainedBeyond ⟨0, by decide⟩).channel ⟨0, by decide⟩).ringWords = none ∧
      LiesAt #[#[1]] 0 #[1] (regionAddress 0 0) 0 ∧
      ¬∃ sts out e₁, steps #[#[1]] [1] ((chainedBeyond ⟨0, by decide⟩).armAndStart ⟨0, by decide⟩
        (regionAddress 0 0) 1 7) = .ok (sts, out, e₁) := by
  have hbreaks : steps #[#[1]] [1] ((chainedBeyond ⟨0, by decide⟩).armAndStart ⟨0, by decide⟩
      (regionAddress 0 0) 1 7) = .error (.noChannel 12) := by
    rfl
  refine ⟨by decide, rfl, ⟨addresses_regionAddress (by decide) (by decide), rfl⟩, ?_⟩
  rintro ⟨sts, out, e₁, hok⟩
  rw [hbreaks] at hok
  cases hok

end Law

end Engine

end ConsolePipeline.Playback
