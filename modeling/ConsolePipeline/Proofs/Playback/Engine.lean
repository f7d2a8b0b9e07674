import ConsolePipeline.Proofs.Playback.Transfer

namespace ConsolePipeline.Playback

open Stereo

/-!
# Channels at work

What the transfer engine does while a single channel runs.

* `Channel.Reads` — a channel on its way through a region.
* `Engine.Solo` — no other channel runs, and nothing is chained or pending.
* `Engine.step_within`, `step_last` — a transfer that stops inside a region, or at its end.
* `Engine.step_ring`, `Solo.step_behind` — a transfer in ring mode, and one behind the ring.
* `Engine.Linked` — two channels that start each other; `Linked.complete`, `Linked.rearmed` — one
  goes on where the other has run out, which is then loaded again.
-/

/-! ### Channels -/

/-- The channel runs through region `slot`, of `len` words, and stands at word `w` of it. -/
structure Channel.Reads (c : Channel) (slot w len : Nat) : Prop where
  busy : c.busy = true
  readAddr : c.readAddr = regionAddress slot w
  remaining : c.remaining = len - w
  tag : c.tag = slot
  ring : c.ringWords = none

/-- The channel is loaded with region `slot`, of `len` words, and does not run. -/
structure Channel.Armed (c : Channel) (slot len : Nat) : Prop where
  stopped : c.busy = false
  readAddr : c.readAddr = regionAddress slot 0
  remaining : c.remaining = len
  tag : c.tag = slot
  ring : c.ringWords = none

/-- A channel that is loaded reads from the start. -/
theorem Channel.Armed.start {c : Channel} {slot len : Nat} (h : c.Armed slot len) (hlen : 0 < len) :
    c.start.Reads slot 0 len := by
  refine ⟨?_, h.readAddr, h.remaining, h.tag, h.ring⟩
  show (c.ringWords.isSome || decide (0 < c.remaining)) = true
  rw [h.remaining, decide_eq_true hlen, Bool.or_true]

/-- The channel runs in ring mode through a ring of `size` words, and stands at word `w`. -/
structure Channel.Cycles (c : Channel) (w size : Nat) : Prop where
  busy : c.busy = true
  readAddr : c.readAddr = regionAddress 0 w
  ring : c.ringWords = some size

namespace Engine

variable {e : Engine} {ch c : ChannelId}

/-- The engine once a channel's completion has been served. -/
def served (e : Engine) (ch : ChannelId) : Engine :=
  (e.clearPending (bit ch)).takeMail.2

/-! ### A channel that reads a block -/

section Reading

variable {memory : Array (Array Word)} {words : Array Word} {slot w len limit : Nat}

/-- What one transfer of a block comes down to: as much as asked for and left. -/
theorem step_eq (hrun : e.running? = some ch) (hreads : (e.channel ch).Reads slot w len)
    (hslot : slot < 4096) (hmem : memory[slot]? = some words) (hsize : words.size = len)
    (hlen : len ≤ regionWords) (hw : w < len) (hlimit : 0 < limit) :
    e.step memory limit =
      if len - w - min limit (len - w) = 0 then
        ((e.moved ch (min limit (len - w))).complete ch).map fun e =>
          (⟨min limit (len - w), false, some ch⟩,
            words.extract w (w + min limit (len - w)), e)
      else
        .ok (⟨min limit (len - w), false, none⟩, words.extract w (w + min limit (len - w)),
          e.moved ch (min limit (len - w))) := by
  have hlies : LiesAt memory slot words (e.channel ch).readAddr w := by
    rw [hreads.readAddr]
    exact ⟨addresses_regionAddress hslot (by omega), hmem⟩
  exact step_moves hrun ⟨hreads.busy, hreads.ring, hreads.remaining, hlies, by omega⟩ (by omega)
    hlimit

/-- **A transfer that stops inside a block.** -/
theorem step_within (hrun : e.running? = some ch) (hreads : (e.channel ch).Reads slot w len)
    (hslot : slot < 4096) (hmem : memory[slot]? = some words) (hsize : words.size = len)
    (hlen : len ≤ regionWords) (hlimit : 0 < limit) (hlt : limit < len - w) :
    e.step memory limit =
      .ok (⟨limit, false, none⟩, words.extract w (w + limit), e.moved ch limit) := by
  rw [step_eq hrun hreads hslot hmem hsize hlen (by omega) hlimit,
    if_neg (by omega), Nat.min_eq_left (by omega)]

/-- **A transfer that comes to the end of a block.** -/
theorem step_last (hrun : e.running? = some ch) (hreads : (e.channel ch).Reads slot w len)
    (hslot : slot < 4096) (hmem : memory[slot]? = some words) (hsize : words.size = len)
    (hlen : len ≤ regionWords) (hw : w < len) (hle : len - w ≤ limit) :
    e.step memory limit =
      ((e.moved ch (len - w)).complete ch).map fun e =>
        (⟨len - w, false, some ch⟩, words.extract w (w + (len - w)), e) := by
  rw [step_eq hrun hreads hslot hmem hsize hlen hw (by omega), if_pos (by omega),
    Nat.min_eq_right hle]

theorem reads_moved {n : Nat} (hreads : (e.channel ch).Reads slot w len) :
    ((e.moved ch n).channel ch).Reads slot (w + n) len := by
  rw [moved, channels_modifyChannel_self]
  refine ⟨hreads.busy, ?_, ?_, hreads.tag, hreads.ring⟩
  · show (e.channel ch).readAddr + UInt32.ofNat (n * 4) = _
    rw [hreads.readAddr, regionAddress_add]
  · show (e.channel ch).remaining - n = _
    rw [hreads.remaining]
    omega

end Reading

/-! ### A channel that works alone -/

/-- No channel but `ch` runs; `ch` is chained to none, and no interrupt is pending. -/
structure Solo (e : Engine) (ch : ChannelId) : Prop where
  others : ∀ c : ChannelId, c ≠ ch → (e.channel c).busy = false
  chain : (e.channel ch).chainTo = none
  pending : e.pending = 0

theorem Solo.running? (h : e.Solo ch) (hbusy : (e.channel ch).busy = true) :
    e.running? = some ch :=
  running?_eq_some hbusy h.others

/-- A channel that works alone and does not run leaves the engine idle. -/
theorem Solo.idle (h : e.Solo ch) (hstopped : (e.channel ch).busy = false) (c : ChannelId) :
    (e.channel c).busy = false := by
  by_cases hc : c = ch
  · rw [hc]
    exact hstopped
  · exact h.others c hc

theorem Solo.isPending (h : e.Solo ch) (c : ChannelId) : e.isPending c = false := by
  rw [Engine.isPending, h.pending, UInt32.zero_and]
  rfl

/-- A change to the channel that keeps it unchained. -/
theorem Solo.modifyChannel (h : e.Solo ch) {f : Channel → Channel}
    (hf : (f (e.channel ch)).chainTo = none) : (e.modifyChannel ch f).Solo ch := by
  refine ⟨?_, ?_, h.pending⟩
  · intro c hc
    rw [channels_modifyChannel_ne e f hc]
    exact h.others c hc
  · rw [channels_modifyChannel_self]
    exact hf

theorem Solo.moved (h : e.Solo ch) (n : Nat) : (e.moved ch n).Solo ch :=
  h.modifyChannel h.chain

theorem Solo.complete (h : e.Solo ch) : e.complete ch = .ok (e.finished ch) := by
  rw [complete_eq, h.chain]

/-- A channel that works alone is ready for its next block once its completion is served. -/
theorem Solo.served (h : e.Solo ch) : ((e.finished ch).served ch).Solo ch := by
  have hmod : (e.modifyChannel ch fun c => { c with busy := false }).Solo ch :=
    h.modifyChannel h.chain
  refine ⟨hmod.others, hmod.chain, ?_⟩
  have hbit : ∀ ch : ChannelId, (0 ||| bit ch) &&& ~~~ bit ch = 0 := by decide
  show (e.pending ||| bit ch) &&& ~~~ bit ch = 0
  rw [h.pending]
  exact hbit ch

theorem Solo.isPending_finished (h : e.Solo ch) : (e.finished ch).isPending ch = true := by
  have hbit : ∀ ch : ChannelId, ((0 ||| bit ch) &&& bit ch != 0) = true := by decide
  show ((e.pending ||| bit ch) &&& bit ch != 0) = true
  rw [h.pending]
  exact hbit ch

/-- A completion posts the tag that its channel was given. -/
theorem last_finished {slot : Nat} (htag : (e.channel ch).tag = slot) (hslot : slot < 4096) :
    (e.finished ch).mailbox.last = some slot := by
  show (if (e.channel ch).tag = 4294967295 then none else some (e.channel ch).tag) = some slot
  rw [htag, if_neg (by omega)]

@[simp] theorem ring_served_finished (e : Engine) (ch : ChannelId) :
    (((e.finished ch).served ch).channel ch).ringWords = (e.channel ch).ringWords := by
  show ((e.modifyChannel ch fun c => { c with busy := false }).channel ch).ringWords = _
  rw [channels_modifyChannel_self]

/-- **The next block begins.** -/
theorem Solo.armAndStart (h : e.Solo ch) (addr : UInt32) (count tag : Nat) :
    (e.armAndStart ch addr count tag).Solo ch :=
  (h.modifyChannel (f := fun c => c.arm addr count tag) h.chain).modifyChannel (by
    rw [channels_modifyChannel_self]
    exact h.chain)

theorem reads_armAndStart {slot len : Nat} (hring : (e.channel ch).ringWords = none)
    (hlen : 0 < len) :
    ((e.armAndStart ch (regionAddress slot 0) len slot).channel ch).Reads slot 0 len := by
  rw [Engine.armAndStart, start, channels_modifyChannel_self, arm, channels_modifyChannel_self]
  refine ⟨?_, rfl, rfl, rfl, hring⟩
  show ((e.channel ch).ringWords.isSome || decide (0 < len)) = true
  rw [decide_eq_true hlen, Bool.or_true]

/-! ### A channel in ring mode -/

/-- The engine once a channel in ring mode has come to word `w`. -/
def turned (e : Engine) (ch : ChannelId) (w : Nat) : Engine :=
  e.modifyChannel ch fun c => { c with readAddr := regionAddress 0 w }

section Ring

variable {ring : Array Word} {w limit : Nat}

/-- **A transfer in ring mode** ends at the latest where the ring does, and goes on from its
    start. -/
theorem step_ring (hrun : e.running? = some ch) (hcycles : (e.channel ch).Cycles w ring.size)
    (hpower : ring.size.isPowerOfTwo) (hword : w < regionWords) (hw : w < ring.size)
    (hlimit : 0 < limit) :
    e.step #[ring] limit = .ok (⟨min limit (ring.size - w), false, none⟩,
      ring.extract w (w + min limit (ring.size - w)),
      e.turned ch ((w + min limit (ring.size - w)) % ring.size)) := by
  have hlies : LiesAt #[ring] 0 ring (e.channel ch).readAddr w := by
    rw [hcycles.readAddr]
    exact ⟨addresses_regionAddress (by decide) hword, rfl⟩
  exact step_circles hrun ⟨hcycles.busy, hcycles.ring, hpower, hlies, hw⟩ hlimit

theorem cycles_turned {size : Nat} (h : (e.channel ch).Cycles w size) (w' : Nat) :
    ((e.turned ch w').channel ch).Cycles w' size := by
  rw [turned, channels_modifyChannel_self]
  exact ⟨h.busy, rfl, h.ring⟩

theorem Solo.turned (h : e.Solo ch) (w : Nat) : (e.turned ch w).Solo ch :=
  h.modifyChannel h.chain

theorem Solo.eq_of_running? (h : e.Solo ch) (hrun : e.running? = some c) : c = ch := by
  rw [Engine.running?] at hrun
  have hbusy := List.find?_some hrun
  by_cases hc : c = ch
  · exact hc
  · exact absurd hbusy (by rw [h.others c hc]; decide)

/-- **Behind a ring that ends with its region** there is nothing to read: a channel that has come
    there stops. -/
theorem Solo.step_behind (h : e.Solo ch)
    (haddr : (e.channel ch).readAddr = regionAddress 0 regionWords) (ring : Array Word)
    (limit : Nat) :
    ∃ e', e.step #[ring] limit = .ok (⟨limit, true, none⟩, #[], e') ∧ e'.Solo ch ∧
      (e'.channel ch).readAddr = regionAddress 0 regionWords := by
  by_cases hlimit : limit = 0
  · exact ⟨e, by rw [step, if_pos hlimit], h, haddr⟩
  cases hrun : e.running? with
  | none => exact ⟨e, by simp only [step, hrun, ite_self], h, haddr⟩
  | some c =>
    obtain rfl := h.eq_of_running? hrun
    have hregion : regionOf (e.channel c).readAddr = 1 := by
      rw [haddr]
      decide
    have hmem : (#[ring] : Array (Array Word))[1]? = none := rfl
    refine ⟨e.modifyChannel c fun c => { c with busy := false }, ?_, h.modifyChannel h.chain, ?_⟩
    · simp only [step, hrun, hregion, hmem, hlimit, if_false]
    · rw [channels_modifyChannel_self]
      exact haddr

/-- The engine once a channel has been started in ring mode. -/
def cycled (e : Engine) (ch : ChannelId) (size : Nat) : Engine :=
  (e.configure ch none (some size)).armAndStart ch (regionAddress 0 0) 0 0

theorem Solo.cycled (h : e.Solo ch) (size : Nat) : (e.cycled ch size).Solo ch := by
  refine Solo.armAndStart ?_ _ _ _
  exact h.modifyChannel (f := fun c => { c with chainTo := none, ringWords := some size }) rfl

theorem cycles_cycled (e : Engine) (ch : ChannelId) (size : Nat) :
    ((e.cycled ch size).channel ch).Cycles 0 size := by
  rw [Engine.cycled, armAndStart, start, channels_modifyChannel_self, arm,
    channels_modifyChannel_self, configure, channels_modifyChannel_self]
  exact ⟨rfl, rfl, rfl⟩

end Ring

/-! ### Two channels that start each other -/

section Linked

variable {a b : ChannelId} {slot len : Nat}

/-- Channels `a` and `b` start each other; no other channel runs, and no interrupt is pending. -/
structure Linked (e : Engine) (a b : ChannelId) : Prop where
  ne : a ≠ b
  others : ∀ c : ChannelId, c ≠ a → c ≠ b → (e.channel c).busy = false
  first : (e.channel a).chainTo = some b.val
  second : (e.channel b).chainTo = some a.val
  pending : e.pending = 0

theorem Linked.symm (h : e.Linked a b) : e.Linked b a :=
  ⟨h.ne.symm, fun c hb ha => h.others c ha hb, h.second, h.first, h.pending⟩

/-- A change to one of the channels that keeps it chained. -/
theorem Linked.modifyChannel (h : e.Linked a b) {f : Channel → Channel}
    (hf : (f (e.channel a)).chainTo = (e.channel a).chainTo) :
    (e.modifyChannel a f).Linked a b := by
  refine ⟨h.ne, ?_, ?_, ?_, h.pending⟩
  · intro c ha hb
    rw [channels_modifyChannel_ne e f ha]
    exact h.others c ha hb
  · rw [channels_modifyChannel_self, hf]
    exact h.first
  · rw [channels_modifyChannel_ne e f h.ne.symm]
    exact h.second

theorem Linked.running? (h : e.Linked a b) (hbusy : (e.channel a).busy = true)
    (hother : (e.channel b).busy = false) : e.running? = some a := by
  refine running?_eq_some hbusy fun c hc => ?_
  by_cases hb : c = b
  · rw [hb]
    exact hother
  · exact h.others c hc hb

theorem Linked.moved (h : e.Linked a b) (n : Nat) : (e.moved a n).Linked a b :=
  h.modifyChannel rfl

theorem Linked.channel_moved (h : e.Linked a b) (n : Nat) :
    (e.moved a n).channel b = e.channel b :=
  channels_modifyChannel_ne e _ h.ne.symm

/-- The engine once a channel has run out and has started the one that it is chained to. -/
def relayed (e : Engine) (ch next : ChannelId) : Engine :=
  (e.finished ch).start next

/-- **A channel that runs out starts the other one.** -/
theorem Linked.complete (h : e.Linked a b) : e.complete a = .ok (e.relayed a b) := by
  have hnext : ChannelId.ofNat b.val = .ok b := by
    rw [ChannelId.ofNat, dif_pos b.isLt]
  simp only [complete_eq, h.first, hnext]
  rfl

theorem Linked.isPending (h : e.Linked a b) (c : ChannelId) : e.isPending c = false := by
  rw [Engine.isPending, h.pending, UInt32.zero_and]
  rfl

theorem Linked.isPending_relayed (h : e.Linked a b) : (e.relayed a b).isPending a = true := by
  have hbit : ∀ ch : ChannelId, ((0 ||| bit ch) &&& bit ch != 0) = true := by decide
  show ((e.pending ||| bit a) &&& bit a != 0) = true
  rw [h.pending]
  exact hbit a

theorem Linked.isPending_relayed_other (h : e.Linked a b) :
    (e.relayed a b).isPending b = false := by
  have hbit : ∀ a b : ChannelId, a ≠ b → ((0 ||| bit a) &&& bit b != 0) = false := by decide
  show ((e.pending ||| bit a) &&& bit b != 0) = false
  rw [h.pending]
  exact hbit a b h.ne

theorem last_relayed (htag : (e.channel a).tag = slot) (hslot : slot < 4096) :
    (e.relayed a b).mailbox.last = some slot :=
  last_finished htag hslot

/-- The engine once the completion of a channel has been served, and the channel loaded again. -/
def rearmed (e : Engine) (ch : ChannelId) (slot len : Nat) : Engine :=
  (e.takeMail.2.clearPending (bit ch)).arm ch (regionAddress slot 0) len slot

theorem Linked.rearmed (h : e.Linked a b) (slot len : Nat) :
    ((e.relayed a b).rearmed a slot len).Linked a b := by
  have hstopped : (e.modifyChannel a fun c => { c with busy := false }).Linked a b :=
    h.modifyChannel rfl
  have hstarted : ((e.modifyChannel a fun c => { c with busy := false }).start b).Linked a b :=
    (hstopped.symm.modifyChannel (f := Channel.start) rfl).symm
  have harmed := hstarted.modifyChannel (f := fun c => c.arm (regionAddress slot 0) len slot) rfl
  refine ⟨h.ne, harmed.others, harmed.first, harmed.second, ?_⟩
  have hbit : ∀ ch : ChannelId, (0 ||| bit ch) &&& ~~~ bit ch = 0 := by decide
  show (e.pending ||| bit a) &&& ~~~ bit a = 0
  rw [h.pending]
  exact hbit a

theorem Linked.channel_rearmed (h : e.Linked a b) (slot len : Nat) :
    (((e.relayed a b).rearmed a slot len).channel a) =
      ({ (e.channel a) with busy := false } : Channel).arm (regionAddress slot 0) len slot := by
  show ((((e.modifyChannel a fun c => { c with busy := false }).start b).modifyChannel a
    fun c => c.arm (regionAddress slot 0) len slot).channel a) = _
  rw [channels_modifyChannel_self, start, channels_modifyChannel_ne _ _ h.ne,
    channels_modifyChannel_self]

/-- The channel that has run out is loaded again. -/
theorem Linked.armed_rearmed (h : e.Linked a b) (hring : (e.channel a).ringWords = none)
    (slot len : Nat) : (((e.relayed a b).rearmed a slot len).channel a).Armed slot len := by
  rw [h.channel_rearmed]
  exact ⟨rfl, rfl, rfl, rfl, hring⟩

/-- The other one has begun. -/
theorem Linked.reads_rearmed {other : Nat} (h : e.Linked a b)
    (harmed : (e.channel b).Armed other len) (hlen : 0 < len) (slot : Nat) :
    (((e.relayed a b).rearmed a slot len).channel b).Reads other 0 len := by
  show ((((e.modifyChannel a fun c => { c with busy := false }).start b).modifyChannel a
    fun c => c.arm (regionAddress slot 0) len slot).channel b).Reads other 0 len
  rw [channels_modifyChannel_ne _ _ h.ne.symm, start, channels_modifyChannel_self,
    channels_modifyChannel_ne _ _ h.ne.symm]
  exact harmed.start hlen

end Linked

end Engine

end ConsolePipeline.Playback
