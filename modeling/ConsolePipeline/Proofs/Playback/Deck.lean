import ConsolePipeline.Proofs.Playback.Engine
import ConsolePipeline.Proofs.Playback.Score

namespace ConsolePipeline.Playback

open Stereo

/-!
# Time on the deck

What passing time does to the part of the state that all strategies share, and to the slots of
those that have them.

* `waitRounds` — how long a busy wait takes.
* `Deck.heard`, `Deck.idled` — time in which words were played, or none.
* `Deck.transfer_within`, `transfer_last`, `transfer_idle`, `serve_ok` — the operations in these
  terms.
* `Deck.Alike` — decks that differ in nothing that playback depends on.
* `Deck.handover`, `filled` — what the commit of a slot adds to the history, and what it leaves.
* `Deck.Playing` — a deck that has played the opening of a stream of blocks; `Playing.heard` moves
  on within a block, `heard_rest` to the next one.
* `BlockByBlock` — hardware that plays block after block; `BlockByBlock.elapse_ok` — each word of
  time is a word played.
* `Engine.Quiet` — an engine of which channels have been claimed and no more; `Quiet.coupled` — two
  of them are set up to start each other.
-/

/-! ### Rounds of waiting -/

/-- Rounds of a busy wait in which so many words are played. -/
def waitRounds (words : Nat) : Nat :=
  (words + (waitWords - 1)) / waitWords

theorem waitRounds_pos {words : Nat} (h : 0 < words) : 0 < waitRounds words := by
  simp only [waitRounds, waitWords]
  omega

theorem waitRounds_le (words : Nat) : waitRounds words ≤ words + 1 := by
  simp only [waitRounds, waitWords]
  omega

/-- A round takes its words off those to be played, or all that are left. -/
theorem waitRounds_sub {words k : Nat} (h : waitRounds words = k + 1) :
    waitRounds (words - waitWords) = k := by
  simp only [waitRounds, waitWords] at h ⊢
  omega

namespace Deck

variable {d : Deck} {memory : Array (Array Word)} {out : Array Word} {engine : Engine}
  {ch : ChannelId} {limit n : Nat}

/-- The deck once words have been played. -/
def heard (d : Deck) (out : Array Word) (engine : Engine) : Deck :=
  { d with
    engine
    played := d.played ++ out
    stats := { d.stats with hardwareWords := d.stats.hardwareWords + out.size } }

/-- The deck once time has passed in which nothing was played. -/
def idled (d : Deck) (n : Nat) : Deck :=
  { d with stats := { d.stats with idleWords := d.stats.idleWords + n } }

/-- The deck once a completion interrupt has been served. -/
def served (d : Deck) (ch : ChannelId) : Deck :=
  { d with
    engine := d.engine.served ch
    stats := { d.stats with irqs := d.stats.irqs + 1 } }

theorem transfer_ok {completed : Option ChannelId}
    (h : d.engine.step memory limit = .ok (⟨n, false, completed⟩, out, engine))
    (hn : out.size = n) :
    transfer memory limit d = .ok ⟨n, false, completed⟩ (d.heard out engine) := by
  subst hn
  rw [transfer, h]
  rfl

theorem transfer_idle (h : ∀ c : ChannelId, (d.engine.channel c).busy = false)
    (memory : Array (Array Word)) (limit : Nat) :
    transfer memory limit d = .ok ⟨limit, true, none⟩ (d.idled limit) := by
  rw [transfer, Engine.step_idle h]
  simp only [if_true, Array.append_empty]
  rfl

section Slot

variable {s : Slots} {count len pole slot w : Nat}
  (hreads : (d.engine.channel ch).Reads slot w len) (hshaped : s.Shaped count len pole)
  (hslot : slot < count) (hcount : count ≤ 4096) (hlen : len ≤ regionWords)

include hreads hshaped hslot hcount hlen

/-- A transfer that stays inside a slot. -/
theorem transfer_within (hrun : d.engine.running? = some ch) (hlimit : 0 < limit)
    (hlt : limit < len - w) :
    transfer s.memory limit d = .ok ⟨limit, false, none⟩
      (d.heard ((s.words slot).extract w (w + limit)) (d.engine.moved ch limit)) := by
  have hsize : (s.words slot).size = len := hshaped.words_size slot hslot
  apply transfer_ok
  · exact Engine.step_within hrun hreads (Nat.lt_of_lt_of_le hslot hcount)
      (Slots.memory_eq_some_words hshaped hslot) hsize hlen hlimit hlt
  · rw [Array.size_extract, hsize]
    omega

/-- A transfer that comes to the end of a slot. -/
theorem transfer_last (hrun : d.engine.running? = some ch)
    (hcomplete : (d.engine.moved ch (len - w)).complete ch = .ok engine) (hw : w < len)
    (hle : len - w ≤ limit) :
    transfer s.memory limit d = .ok ⟨len - w, false, some ch⟩
      (d.heard ((s.words slot).extract w (w + (len - w))) engine) := by
  have hsize : (s.words slot).size = len := hshaped.words_size slot hslot
  apply transfer_ok
  · rw [Engine.step_last hrun hreads (Nat.lt_of_lt_of_le hslot hcount)
      (Slots.memory_eq_some_words hshaped hslot) hsize hlen hw hle, hcomplete]
    rfl
  · rw [Array.size_extract, hsize]
    omega

end Slot

theorem serve_ok (ch : ChannelId) (d : Deck) :
    serve ch d = .ok d.engine.mailbox.last (d.served ch) := rfl

/-- Two decks that differ at most in the mailbox, in idle time, in rounds of waiting and in what has
    been noted. -/
structure Alike (d d' : Deck) : Prop where
  channels : d'.engine.channels = d.engine.channels
  pending : d'.engine.pending = d.engine.pending
  played : d'.played = d.played
  commits : d'.stats.commits = d.stats.commits
  underruns : d'.stats.underruns = d.stats.underruns
  overruns : d'.stats.overruns = d.stats.overruns
  irqs : d'.stats.irqs = d.stats.irqs
  hardwareWords : d'.stats.hardwareWords = d.stats.hardwareWords
  tagMismatches : d'.stats.tagMismatches = d.stats.tagMismatches

theorem alike_idled (d : Deck) (n : Nat) : d.Alike (d.idled n) :=
  ⟨rfl, rfl, rfl, rfl, rfl, rfl, rfl, rfl, rfl⟩

theorem alike_spun (d : Deck) : d.Alike d.spun :=
  ⟨rfl, rfl, rfl, rfl, rfl, rfl, rfl, rfl, rfl⟩

theorem alike_forgotten (d : Deck) : d.Alike { d with notices := #[] } :=
  ⟨rfl, rfl, rfl, rfl, rfl, rfl, rfl, rfl, rfl⟩

/-! ### A frame handed over -/

/-- The frame that the commit of a slot hands over, and the word it is padded with. -/
def outgoing (d : Deck) (s : Slots) (slot count : Nat) : Array Word × Word :=
  padded (s.words slot) count d.held

/-- What the history gains by the commit of a slot. -/
def handover (d : Deck) (s : Slots) (slot count : Nat) : Commit :=
  ⟨d.played.size, d.played.size, (d.outgoing s slot count).1⟩

theorem size_outgoing {s : Slots} {count len pole slot : Nat} (h : s.Shaped count len pole)
    (hslot : slot < count) (d : Deck) (n : Nat) : (d.outgoing s slot n).1.size = len := by
  rw [← h.words_size slot hslot]
  exact size_padded _ _ _

/-- The slots once a frame has been handed over in one of them. -/
def filled (d : Deck) (s : Slots) (slot count : Nat) : Slots :=
  (s.setWords slot (d.outgoing s slot count).1).setState slot .ready

section Filled

variable {s : Slots} {count len pole slot other : Nat} (h : s.Shaped count len pole)
  (hslot : slot < count) (d : Deck) (n : Nat)

include h hslot in
theorem shaped_filled : (d.filled s slot n).Shaped count len pole :=
  (h.setWords (size_outgoing h hslot d n) slot).setState slot .ready

include h hslot in
theorem state?_filled_self : (d.filled s slot n).state? slot = some .ready :=
  Slots.state?_setState_self (h.setWords (size_outgoing h hslot d n) slot) hslot .ready

include h hslot in
theorem words_filled_self : (d.filled s slot n).words slot = (d.outgoing s slot n).1 :=
  Slots.words_setWords_self h hslot _

include h hslot in
/-- The length that software counts by stays what it was. -/
theorem slotLength_filled : (d.filled s slot n).slotLength = s.slotLength := by
  have hpos : 0 < count := Nat.zero_lt_of_lt hslot
  rw [(shaped_filled h hslot d n).slotLength hpos, h.slotLength hpos]

include h hslot in
/-- Every frame handed over is as long as a slot. -/
theorem size_frame_append {history : List Commit} {c : Commit}
    (hframes : ∀ b ∈ history, b.frame.size = len) (hc : c.frame = (d.outgoing s slot n).1) :
    ∀ b ∈ history ++ [c], b.frame.size = len := by
  intro b hb
  rcases List.mem_append.mp hb with hb | hb
  · exact hframes b hb
  · rw [List.mem_singleton.mp hb, hc]
    exact size_outgoing h hslot d n

theorem state?_filled_ne (hne : slot ≠ other) :
    (d.filled s slot n).state? other = s.state? other :=
  Slots.state?_setState_ne _ _ hne

theorem words_filled_ne (hne : slot ≠ other) : (d.filled s slot n).words other = s.words other :=
  Slots.words_setWords_ne _ _ hne

end Filled

/-! ### A deck that plays blocks -/

/-- **The deck has played the opening of a stream of blocks,** and stands at word `w` of
    block `m`. -/
structure Playing (d : Deck) (len : Nat) (blocks : Nat → Block) (m w : Nat) : Prop where
  word : w < len
  size : d.played.size = m * len + w
  played : d.played.toList = opening (blockWord len blocks) d.played.size
  hardwareWords : d.stats.hardwareWords = d.played.size

/-- Only what was played counts. -/
theorem Playing.same {d' : Deck} {len m w : Nat} {blocks : Nat → Block}
    (h : d.Playing len blocks m w) (hplayed : d'.played = d.played)
    (hwords : d'.stats.hardwareWords = d.stats.hardwareWords) : d'.Playing len blocks m w := by
  refine ⟨h.word, ?_, ?_, ?_⟩
  · rw [hplayed, h.size]
  · rw [hplayed, h.played]
  · rw [hwords, hplayed, h.hardwareWords]

section Place

variable {len m w : Nat} {blocks : Nat → Block}

theorem Playing.begun (h : d.Playing len blocks m w) : m * len ≤ d.played.size := by
  rw [h.size]
  exact Nat.le_add_right _ _

theorem Playing.not_ended (h : d.Playing len blocks m w) : d.played.size < (m + 1) * len := by
  have hword := h.word
  rw [h.size, Nat.succ_mul]
  omega

/-- Which block plays is read off the number of words played. -/
theorem Playing.size_div (h : d.Playing len blocks m w) : d.played.size / len = m := by
  rw [h.size, div_mul_add h.word]

end Place

/-- **A block that has ended** was played word for word. -/
theorem Playing.extract {len m w k : Nat} {blocks : Nat → Block} (h : d.Playing len blocks m w)
    (hk : k < m) (hsize : (blocks k).words.size = len) :
    (k + 1) * len ≤ d.played.size ∧
      d.played.extract (k * len) ((k + 1) * len) = (blocks k).words := by
  have hend : (k + 1) * len ≤ d.played.size := by
    have hle : (k + 1) * len ≤ m * len := Nat.mul_le_mul_right len hk
    rw [h.size]
    omega
  have hsucc : (k + 1) * len = k * len + len := Nat.succ_mul k len
  refine ⟨hend, Array.ext ?_ fun i hi hi' => ?_⟩
  · rw [Array.size_extract, hsize]
    omega
  · have hlt : i < len := by omega
    -- The words played are read off the blocks by place: place `i` of block `k` is place `k * len +
    -- i` of them all.
    have hplace : k * len + i < (opening (blockWord len blocks) d.played.size).length := by
      rw [opening, List.length_map, List.length_range]
      omega
    rw [Array.getElem_extract, ← Array.getElem_toList, List.getElem_of_eq h.played]
    simp only [opening, List.getElem_map, List.getElem_range]
    rw [blockWord, div_mul_add hlt, mod_mul_add hlt, Array.getD_eq_getD_getElem?,
      Array.getElem?_eq_getElem hi', Option.getD_some]

/-- The next words of a block are played, up to word `w'` of block `m'`. -/
theorem Playing.heard {len m m' w w' : Nat} {blocks : Nat → Block} {words : Array Word}
    (h : d.Playing len blocks m w) (hwords : words = (blocks m).words) (hsize : words.size = len)
    (hn : w + n ≤ len) (hw' : w' < len) (hplace : m' * len + w' = m * len + (w + n))
    (engine : Engine) :
    (d.heard (words.extract w (w + n)) engine).Playing len blocks m' w' := by
  have hout : (words.extract w (w + n)).size = n := by
    rw [Array.size_extract]
    omega
  have hplayed : (d.heard (words.extract w (w + n)) engine).played.size = d.played.size + n := by
    show (d.played ++ words.extract w (w + n)).size = _
    rw [Array.size_append, hout]
  refine ⟨hw', ?_, ?_, ?_⟩
  · rw [hplayed, h.size, hplace, Nat.add_assoc]
  · rw [hplayed, opening_add]
    show (d.played ++ words.extract w (w + n)).toList = _
    rw [Array.toList_append, h.played, extract_block hwords hsize hn, h.size]
  · rw [hplayed]
    show d.stats.hardwareWords + (words.extract w (w + n)).size = _
    rw [hout, h.hardwareWords]

/-- The rest of a block is played, and the next one begins. -/
theorem Playing.heard_rest {len m w : Nat} {blocks : Nat → Block} {words : Array Word}
    (h : d.Playing len blocks m w) (hwords : words = (blocks m).words) (hsize : words.size = len)
    (engine : Engine) :
    (d.heard (words.extract w (w + (len - w))) engine).Playing len blocks (m + 1) 0 := by
  have hword := h.word
  have hplace : (m + 1) * len + 0 = m * len + (w + (len - w)) := by
    rw [Nat.succ_mul]
    omega
  exact h.heard hwords hsize (by omega) (by omega) hplace engine

/-- What has been played does not depend on blocks that have not begun. -/
theorem Playing.congr {len m w : Nat} {a b : Nat → Block} (h : d.Playing len a m w)
    (hab : ∀ k ≤ m, a k = b k) : d.Playing len b m w := by
  refine ⟨h.word, h.size, ?_, h.hardwareWords⟩
  rw [h.played, opening_blockWord_congr hab (Nat.zero_lt_of_lt h.word) (Nat.le_of_lt h.not_ended)]

/-- Nothing has been played when playback begins. -/
theorem playing_start {len : Nat} (hlen : 0 < len) (hplayed : d.played = #[])
    (hwords : d.stats.hardwareWords = 0) (blocks : Nat → Block) : d.Playing len blocks 0 0 := by
  refine ⟨hlen, ?_, ?_, ?_⟩
  · rw [hplayed, Nat.zero_mul]
    rfl
  · rw [hplayed]
    rfl
  · rw [hplayed, hwords]
    rfl

end Deck

/-! ### Time, block by block -/

/-- **Hardware plays block after block:** a step stays inside the block that plays, or comes to its
    end and begins the next one. `At` says where playback stands. -/
structure BlockByBlock {σ : Type} (step : Nat → Run σ Nat) (deck : σ → Deck) (len : Nat)
    (blocks : Nat → Block) (At : σ → Nat → Nat → Prop) : Prop where
  playing : ∀ {s m w}, At s m w → (deck s).Playing len blocks m w
  within : ∀ {s m w limit}, At s m w → 0 < limit → limit < len - w →
    ∃ s', step limit s = .ok limit s' ∧ At s' m (w + limit)
  last : ∀ {s m w limit}, At s m w → len - w ≤ limit →
    ∃ s', step limit s = .ok (len - w) s' ∧ At s' (m + 1) 0

namespace BlockByBlock

variable {σ : Type} {step : Nat → Run σ Nat} {deck : σ → Deck} {len m w limit : Nat}
  {blocks : Nat → Block} {At : σ → Nat → Nat → Prop} {s : σ}

/-- A step plays a word for each word of time it takes. -/
theorem step_ok (h : BlockByBlock step deck len blocks At) (hs : At s m w) (hlimit : 0 < limit) :
    ∃ n s' m' w', step limit s = .ok n s' ∧ 0 < n ∧ n ≤ limit ∧ At s' m' w' ∧
      (deck s').played.size = (deck s).played.size + n := by
  have hbefore := (h.playing hs).size
  have hword := (h.playing hs).word
  by_cases hlt : limit < len - w
  · obtain ⟨s', hs', hat⟩ := h.within hs hlimit hlt
    have hafter := (h.playing hat).size
    exact ⟨limit, s', m, w + limit, hs', hlimit, Nat.le_refl _, hat, by omega⟩
  · obtain ⟨s', hs', hat⟩ := h.last hs (Nat.le_of_not_lt hlt)
    have hafter := (h.playing hat).size
    rw [Nat.succ_mul] at hafter
    exact ⟨len - w, s', m + 1, 0, hs', by omega, by omega, hat, by omega⟩

/-- **Each word of time is a word played.** -/
theorem elapse_ok (h : BlockByBlock step deck len blocks At) (hs : At s m w) (n : Nat) :
    ∃ s' m' w', Run.elapse step n s = .ok () s' ∧ At s' m' w' ∧
      (deck s').played.size = (deck s).played.size + n := by
  let P (t : Nat) (s' : σ) : Prop := (∃ m w, At s' m w) ∧
    (deck s').played.size = (deck s).played.size + t
  have hstep : ∀ t limit s', 0 < limit → P t s' →
      ∃ n s'', step limit s' = .ok n s'' ∧ 0 < n ∧ n ≤ limit ∧ P (t + n) s'' := by
    rintro t limit s' hlimit ⟨⟨m, w, hat⟩, hsize⟩
    obtain ⟨n, s'', m', w', hs'', hpos, hle, hat', hplayed⟩ := h.step_ok hat hlimit
    exact ⟨n, s'', hs'', hpos, hle, ⟨m', w', hat'⟩, by omega⟩
  obtain ⟨s', hs', ⟨m', w', hat⟩, hsize⟩ := Run.elapse_ok hstep n 0 s ⟨⟨m, w, hs⟩, rfl⟩
  exact ⟨s', m', w', hs', hat, by omega⟩

end BlockByBlock

namespace Engine

variable {e e' : Engine} {ch : ChannelId}

/-- Channels have been claimed, and nothing else has been set up. -/
structure Quiet (e : Engine) : Prop where
  channel : ∀ c : ChannelId, (e.channel c).busy = false ∧ (e.channel c).chainTo = none ∧
    (e.channel c).ringWords = none
  pending : e.pending = 0

theorem quiet_fresh : ({} : Engine).Quiet := by
  refine ⟨?_, rfl⟩
  intro c
  simp [channel, Vector.getElem_replicate]

theorem Quiet.solo (h : e.Quiet) (ch : ChannelId) : e.Solo ch :=
  ⟨fun c _ => (h.channel c).1, (h.channel ch).2.1, h.pending⟩

/-- What a claim that is granted comes to. -/
theorem claim_inv {n : Nat} (hclaim : e.claim n = .ok (ch, e')) :
    ∃ hn : n < channelCount, ch = ⟨n, hn⟩ ∧
      e' = e.modifyChannel ⟨n, hn⟩ fun c => { c with claimed := true } := by
  rw [Engine.claim] at hclaim
  split at hclaim
  case isFalse => cases hclaim
  case isTrue hn =>
    simp only at hclaim
    split at hclaim
    · cases hclaim
    · simp only [Except.ok.injEq, Prod.mk.injEq] at hclaim
      exact ⟨hn, hclaim.1.symm, hclaim.2.symm⟩

/-- Claiming a channel keeps an engine quiet. -/
theorem Quiet.claim {n : Nat} (h : e.Quiet) (hclaim : e.claim n = .ok (ch, e')) :
    e'.Quiet ∧ ch.val = n := by
  obtain ⟨hn, rfl, rfl⟩ := claim_inv hclaim
  refine ⟨⟨?_, h.pending⟩, rfl⟩
  intro c
  by_cases hc : c = ⟨n, hn⟩
  · rw [hc, channels_modifyChannel_self]
    exact h.channel ⟨n, hn⟩
  · rw [channels_modifyChannel_ne e _ hc]
    exact h.channel c

/-- A channel that has been claimed cannot be claimed again. -/
theorem claim_again {n : Nat} (hclaim : e.claim n = .ok (ch, e')) :
    e'.claim n = .error (.channelClaimed n) := by
  obtain ⟨hn, rfl, rfl⟩ := claim_inv hclaim
  have hclaimed : ((e.modifyChannel ⟨n, hn⟩ fun c =>
      { c with claimed := true }).channel ⟨n, hn⟩).claimed = true := by
    rw [channels_modifyChannel_self]
  rw [Engine.claim, dif_pos hn]
  exact if_pos hclaimed

/-- The engine once two channels have been chained to each other and loaded. -/
def coupled (e : Engine) (a b : ChannelId) (len : Nat) : Engine :=
  (((e.configure a (some b.val) none).configure b (some a.val) none).arm a (regionAddress 0 0) len
    0).arm b (regionAddress 1 0) len 1

/-- **Two channels are set up** to start each other. -/
theorem Quiet.coupled {a b : ChannelId} (h : e.Quiet) (hne : a ≠ b) (len : Nat) :
    (e.coupled a b len).Linked a b ∧ ((e.coupled a b len).channel a).Armed 0 len ∧
      ((e.coupled a b len).channel b).Armed 1 len := by
  -- The set-up is four changes, two for each channel, and either channel keeps only its own.
  have hfirst : (e.coupled a b len).channel a =
      ({ e.channel a with chainTo := some b.val, ringWords := none } : Channel).arm
        (regionAddress 0 0) len 0 := by
    rw [Engine.coupled, arm, channels_modifyChannel_ne _ _ hne, arm, channels_modifyChannel_self,
      configure, channels_modifyChannel_ne _ _ hne, configure, channels_modifyChannel_self]
  have hsecond : (e.coupled a b len).channel b =
      ({ e.channel b with chainTo := some a.val, ringWords := none } : Channel).arm
        (regionAddress 1 0) len 1 := by
    rw [Engine.coupled, arm, channels_modifyChannel_self, arm,
      channels_modifyChannel_ne _ _ hne.symm, configure, channels_modifyChannel_self, configure,
      channels_modifyChannel_ne _ _ hne.symm]
  refine ⟨⟨hne, ?_, ?_, ?_, h.pending⟩, ?_, ?_⟩
  · intro c ha hb
    rw [Engine.coupled, arm, channels_modifyChannel_ne _ _ hb, arm,
      channels_modifyChannel_ne _ _ ha, configure, channels_modifyChannel_ne _ _ hb, configure,
      channels_modifyChannel_ne _ _ ha]
    exact (h.channel c).1
  · rw [hfirst]
    rfl
  · rw [hsecond]
    rfl
  · rw [hfirst]
    exact ⟨rfl, rfl, rfl, rfl, rfl⟩
  · rw [hsecond]
    exact ⟨rfl, rfl, rfl, rfl, rfl⟩

end Engine

end ConsolePipeline.Playback
