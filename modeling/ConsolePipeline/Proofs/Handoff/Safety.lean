import ConsolePipeline.Proofs.Handoff.Steps
import Mathlib.Logic.ExistsUnique

namespace ConsolePipeline.Handoff

open Sound

/-!
# The safety of a handoff

Both sides reach the same two slots without a lock. That this is safe rests on one fact: besides the
buffers that the bus writes there is one more pair, and it is in one place at a time. Wherever that
pair is, only one side can move it on, and only that side's flag can change.

* `Crossing.pairs` — all buffers there are: those of the bus, and those in each `Place`.
* `Sending.owns`, `Receiving.owns` — the slot that a side may touch until it writes the flag.
* `Stage` — where the other pair is, and with it all that the flags, the slots and the next step of
  either side can be; `Stage.step` — no move leaves the stages.
* `Safe` — what a stage guarantees; `Crossing.run_safe` — every interleaving is safe.
-/

/-! ### Places and slots -/

/-- Where buffers can be besides the bus. -/
inductive Place where
  /-- At hand on the emulation side. -/
  | spare
  /-- In the middle of one of its calls. -/
  | sending
  /-- In the slot of the way there. -/
  | there
  /-- With the audio side. -/
  | receiving
  /-- In the slot of the way back. -/
  | back
  deriving DecidableEq

/-- Every place. -/
def Place.all : List Place :=
  [.spare, .sending, .there, .receiving, .back]

/-- The two slots. -/
inductive Slot where
  | there
  | back

/-- The frame that the emulation side has in hand. -/
def Sending.frame : Sending → Option FrameAudio
  | .lowerDone _ got => got
  | .awaitFree a => some a
  | .putDown a => some a
  | _ => none

/-- The buffers that it has in hand. -/
def Sending.buffers : Sending → Option Buffers
  | .swap _ fresh => some fresh
  | sending => sending.frame.map (·.buffers)

/-- The frame that the audio side has in hand. -/
def Receiving.frame : Receiving → Option FrameAudio
  | .lowerReady got => got
  | .hold a => some a
  | .putBack a => some a
  | _ => none

/-- The slot that the emulation side may touch: from the moment it has read the slot's flag until
    it has written it. -/
def Sending.owns : Sending → Option Slot
  | .takeBack _ => some .back
  | .lowerDone _ _ => some .back
  | .putDown _ => some .there
  | .raiseReady => some .there
  | _ => none

/-- The slot that the audio side may touch. -/
def Receiving.owns : Receiving → Option Slot
  | .take => some .there
  | .lowerReady _ => some .there
  | .putBack _ => some .back
  | .raiseDone => some .back
  | _ => none

namespace Crossing

/-- The buffers in a place. -/
def contents (c : Crossing) : Place → Option Buffers
  | .spare => c.outlet.sender.spare
  | .sending => c.sending.buffers
  | .there => c.outlet.exchange.frame.map (·.buffers)
  | .receiving => c.receiving.frame.map (·.buffers)
  | .back => c.outlet.exchange.returned.map (·.buffers)

/-- **All buffers there are,** with those of the bus first. -/
def pairs (c : Crossing) : List Buffers :=
  c.outlet.bus.buffers :: Place.all.filterMap c.contents

/-- The frames in slots and in hand. -/
def frames (c : Crossing) : List FrameAudio :=
  [c.sending.frame, c.outlet.exchange.frame, c.receiving.frame, c.outlet.exchange.returned]
    |>.filterMap id

end Crossing

/-- A frame that has both of its buffers. -/
def Whole (a : FrameAudio) : Prop :=
  a.fm.isSome = true ∧ a.psg.isSome = true

theorem load_whole (frame : Nat) (fresh : Buffers) (outlet : Outlet) :
    Whole (outlet.load frame fresh).1 :=
  ⟨rfl, rfl⟩

/-! ### The stages -/

/-- The emulation side is at work or at the beginning of a wait. -/
inductive Sending.Behind : Sending → Prop
  | idle : Behind .idle
  | awaitBack (why : Purpose) : Behind (.awaitBack why)

/-- **Where a frame is that was sent off,** until its way back is free to take. The lists in the
    trail differ by this frame. -/
inductive Away (a : FrameAudio) (t : List FrameAudio) : Exchange → Receiving → Trail → Prop
  /-- In the slot of the way there. -/
  | ready : Away a t { frame := some a, frameReady := true } .poll ⟨t ++ [a], t, t, t⟩
  | seen : Away a t { frame := some a, frameReady := true } .take ⟨t ++ [a], t, t, t⟩
  /-- With the audio side. -/
  | taken : Away a t { frameReady := true } (.lowerReady (some a)) ⟨t ++ [a], t ++ [a], t, t⟩
  | held : Away a t {} (.hold a) ⟨t ++ [a], t ++ [a], t, t⟩
  | finished : Away a t {} (.putBack a) ⟨t ++ [a], t ++ [a], t, t⟩
  /-- In the slot of the way back. -/
  | back : Away a t { returned := some a } .raiseDone ⟨t ++ [a], t ++ [a], t ++ [a], t⟩
  | done : Away a t { returned := some a, audioDone := true } .poll
      ⟨t ++ [a], t ++ [a], t ++ [a], t⟩

/-- **Where the other pair is.** -/
inductive Stage : Crossing → Prop
  /-- At hand. -/
  | spare (bus : Bus) (b : Buffers) (n : Nat) (t : List FrameAudio) :
    Stage ⟨⟨bus, ⟨some b, false, n⟩, {}⟩, .idle, .poll, ⟨t, t, t, t⟩⟩
  /-- In the middle of a publication. -/
  | fresh (bus : Bus) (b : Buffers) (f : Bool) (n frame : Nat) (t : List FrameAudio) :
    Stage ⟨⟨bus, ⟨none, f, n⟩, {}⟩, .swap frame b, .poll, ⟨t, t, t, t⟩⟩
  | loaded (bus : Bus) {a : FrameAudio} (ha : Whole a) (f : Bool) (n : Nat) (t : List FrameAudio) :
    Stage ⟨⟨bus, ⟨none, f, n⟩, {}⟩, .awaitFree a, .poll, ⟨t, t, t, t⟩⟩
  | allowed (bus : Bus) {a : FrameAudio} (ha : Whole a) (f : Bool) (n : Nat) (t : List FrameAudio) :
    Stage ⟨⟨bus, ⟨none, f, n⟩, {}⟩, .putDown a, .poll, ⟨t, t, t, t⟩⟩
  /-- In the slot of the way there, where the flag is still down. -/
  | down (bus : Bus) {a : FrameAudio} (ha : Whole a) (f : Bool) (n : Nat) (t : List FrameAudio) :
    Stage ⟨⟨bus, ⟨none, f, n⟩, { frame := some a }⟩, .raiseReady, .poll, ⟨t ++ [a], t, t, t⟩⟩
  /-- Sent off. -/
  | away (bus : Bus) {a : FrameAudio} (ha : Whole a) (n : Nat) {p : Sending} (hp : p.Behind)
      {x : Exchange} {receiving : Receiving} {t : List FrameAudio} {trail : Trail}
      (h : Away a t x receiving trail) :
    Stage ⟨⟨bus, ⟨none, true, n⟩, x⟩, p, receiving, trail⟩
  /-- In the slot of the way back, seen by the emulation side. -/
  | reached (bus : Bus) {a : FrameAudio} (ha : Whole a) (n : Nat) (why : Purpose)
      (t : List FrameAudio) :
    Stage ⟨⟨bus, ⟨none, true, n⟩, { returned := some a, audioDone := true }⟩, .takeBack why, .poll,
      ⟨t ++ [a], t ++ [a], t ++ [a], t⟩⟩
  /-- In the middle of a call that waited for it. -/
  | reclaimed (bus : Bus) {a : FrameAudio} (ha : Whole a) (n : Nat) (why : Purpose)
      (t : List FrameAudio) :
    Stage ⟨⟨bus, ⟨none, true, n⟩, { audioDone := true }⟩, .lowerDone why (some a), .poll,
      ⟨t, t, t, t⟩⟩

/-- A move that goes on to a stage with the same buffers, each of them once. -/
structure Passes (c c' : Crossing) : Prop where
  stage : Stage c'
  kept : c'.pairs.Perm c.pairs

namespace Stage

variable {c : Crossing}

theorem start (bus : Bus) : Stage (.start bus) :=
  .spare bus .empty 0 []

/-- A move without effect. -/
theorem stays (h : Stage c) : Passes c c :=
  ⟨h, .refl _⟩

/-- Work on a frame changes what the bus writes, and nothing else. -/
theorem work (h : Stage c) (f : Bus → Bus) : Stage (c.work f) := by
  cases h with
  | spare bus b n t => exact .spare (f bus) b n t
  | away bus ha n hp h =>
    cases hp with
    | idle => exact .away (f bus) ha n .idle h
    | awaitBack why => exact .away bus ha n (.awaitBack why) h
  | fresh bus b fl n frame t => exact .fresh bus b fl n frame t
  | loaded bus ha fl n t => exact .loaded bus ha fl n t
  | allowed bus ha fl n t => exact .allowed bus ha fl n t
  | down bus ha fl n t => exact .down bus ha fl n t
  | reached bus ha n why t => exact .reached bus ha n why t
  | reclaimed bus ha n why t => exact .reclaimed bus ha n why t

/-- A call begins between two others only: with the buffers at hand, or with a wait. -/
theorem call (h : Stage c) (why : Purpose) : Passes c (c.call why) := by
  have hstays := h.stays
  cases h with
  | spare bus b n t =>
    cases why with
    | publish frame => exact ⟨.fresh bus b false n frame t, .refl _⟩
    | drain => exact hstays
  | away bus ha n hp h =>
    cases hp with
    | idle => exact ⟨.away bus ha n (.awaitBack why) h, .refl _⟩
    | awaitBack why' => exact hstays
  -- In all other stages the emulation side is in the middle of a call.
  | _ => exact hstays

/-- A wait for the way back is over exactly when the frame is there. -/
theorem send_away {a : FrameAudio} {x : Exchange} {receiving : Receiving} {t : List FrameAudio}
    {trail : Trail} (bus : Bus) (ha : Whole a) (n : Nat) (why : Purpose)
    (h : Away a t x receiving trail) :
    Passes ⟨⟨bus, ⟨none, true, n⟩, x⟩, .awaitBack why, receiving, trail⟩
      (Crossing.send ⟨⟨bus, ⟨none, true, n⟩, x⟩, .awaitBack why, receiving, trail⟩) := by
  have hwaits := (Stage.away bus ha n (.awaitBack why) h).stays
  cases h with
  | done => exact ⟨.reached bus ha n why t, .refl _⟩
  | _ => exact hwaits

/-- While a frame is away, the audio side brings it to its way back. -/
theorem receive_away {a : FrameAudio} {x : Exchange} {receiving : Receiving} {t : List FrameAudio}
    {trail : Trail} (bus : Bus) (ha : Whole a) (n : Nat) {p : Sending} (hp : p.Behind)
    (h : Away a t x receiving trail) :
    Passes ⟨⟨bus, ⟨none, true, n⟩, x⟩, p, receiving, trail⟩
      (Crossing.receive ⟨⟨bus, ⟨none, true, n⟩, x⟩, p, receiving, trail⟩) := by
  cases h with
  | ready => exact ⟨.away bus ha n hp .seen, .refl _⟩
  | seen => exact ⟨.away bus ha n hp .taken, .refl _⟩
  | taken => exact ⟨.away bus ha n hp .held, .refl _⟩
  | held => exact ⟨.away bus ha n hp .finished, .refl _⟩
  | finished => exact ⟨.away bus ha n hp .back, .refl _⟩
  | back => exact ⟨.away bus ha n hp .done, .refl _⟩
  | done => exact (Stage.away bus ha n hp .done).stays

/-- **The emulation side moves the other pair on** whenever it has it. -/
theorem send (h : Stage c) : Passes c c.send := by
  have hstays := h.stays
  cases h with
  | spare => exact hstays
  | fresh bus b f n frame t =>
    -- The fresh buffers and those of the bus change places.
    exact ⟨.loaded { bus with buffers := b } (load_whole frame b ⟨bus, ⟨none, f, n⟩, {}⟩) f n t,
      .swap bus.buffers b []⟩
  | loaded bus ha f n t => exact ⟨.allowed bus ha f n t, .refl _⟩
  | allowed bus ha f n t => exact ⟨.down bus ha f n t, .refl _⟩
  | down bus ha f n t => exact ⟨.away bus ha (n + 1) .idle .ready, .refl _⟩
  | away bus ha n hp h =>
    cases hp with
    | idle => exact hstays
    | awaitBack why => exact send_away bus ha n why h
  | reached bus ha n why t => exact ⟨.reclaimed bus ha n why _, .refl _⟩
  | @reclaimed bus a ha n why t =>
    cases why with
    | publish frame => exact ⟨.fresh bus a.buffers true n frame t, .refl _⟩
    | drain => exact ⟨.spare bus a.buffers n t, .refl _⟩

/-- **The audio side moves it on** while it is away. -/
theorem receive (h : Stage c) : Passes c c.receive := by
  have hstays := h.stays
  cases h with
  | away bus ha n hp h => exact receive_away bus ha n hp h
  -- In all other stages it polls a flag that is down.
  | _ => exact hstays

/-- **No move leaves the stages.** -/
theorem step (h : Stage c) (m : Move) : Stage (c.step m) := by
  cases m with
  | work f => exact h.work f
  | call why => exact (h.call why).stage
  | send => exact h.send.stage
  | receive => exact h.receive.stage

theorem run (h : Stage c) (moves : List Move) : Stage (c.run moves) := by
  induction moves generalizing c with
  | nil => exact h
  | cons m moves ih => exact ih (h.step m)

/-- **No protocol step makes or loses buffers.** -/
theorem kept (h : Stage c) {m : Move} (hm : ∀ f, m ≠ .work f) : (c.step m).pairs.Perm c.pairs := by
  cases m with
  | work f => exact absurd rfl (hm f)
  | call why => exact (h.call why).kept
  | send => exact h.send.kept
  | receive => exact h.receive.kept

end Stage

/-! ### What the stages guarantee -/

/-- **A safe state of a handoff.** -/
structure Safe (c : Crossing) : Prop where
  /-- No slot is touched by both sides at once. -/
  exclusive : ∀ slot, c.sending.owns = some slot → c.receiving.owns ≠ some slot
  /-- Whoever has seen a slot's flag raised finds a frame there. -/
  there : c.receiving = .take → c.outlet.exchange.frame.isSome = true
  back : ∀ why, c.sending = .takeBack why → c.outlet.exchange.returned.isSome = true
  /-- Frames come out of the slot of the way there as they went in, and of all but the one in the
      slot. -/
  sent : c.trail.sent = c.trail.taken ++ c.outlet.exchange.frame.toList
  /-- The audio side returns the frames that it took, but for the one in hand. -/
  taken : c.trail.taken = c.trail.returned ++ c.receiving.frame.toList
  /-- They come back as they were returned, but for the one in the slot. -/
  returned : c.trail.returned = c.trail.reclaimed ++ c.outlet.exchange.returned.toList
  /-- At most one frame is under way. -/
  underWay : c.trail.sent.length ≤ c.trail.reclaimed.length + 1
  /-- Whoever is to fill a slot finds its flag down: nobody waits for it. -/
  free : ∀ a, c.sending = .awaitFree a → c.outlet.exchange.frameReady = false
  freeBack : ∀ a, c.receiving = .hold a → c.outlet.exchange.audioDone = false
  /-- There are two pairs of buffers: besides that of the bus, one in one place. -/
  twoPairs : c.pairs.length = 2
  onePlace : ∃! place, (c.contents place).isSome = true
  /-- No frame is without its buffers. -/
  whole : ∀ a ∈ c.frames, Whole a
  /-- The next step of either side makes no buffers and loses none. -/
  kept : ∀ m : Move, (∀ f, m ≠ .work f) → (c.step m).pairs.Perm c.pairs

namespace Sending.Behind

variable {p : Sending}

/-- At work or in a wait, the emulation side has no slot and no buffers. -/
theorem owns (h : p.Behind) : p.owns = none := by
  cases h <;> rfl

theorem frame (h : p.Behind) : p.frame = none := by
  cases h <;> rfl

theorem buffers (h : p.Behind) : p.buffers = none := by
  cases h <;> rfl

theorem ne_takeBack (h : p.Behind) (why : Purpose) : p ≠ .takeBack why := by
  cases h <;> exact nofun

theorem ne_awaitFree (h : p.Behind) (a : FrameAudio) : p ≠ .awaitFree a := by
  cases h <;> exact nofun

end Sending.Behind

namespace Stage

variable {c : Crossing}

/-- Either the other pair is away, and then the emulation side owns nothing, or it is not, and then
    the audio side does not. -/
theorem exclusive (h : Stage c) (slot : Slot) (hs : c.sending.owns = some slot) :
    c.receiving.owns ≠ some slot := by
  cases h with
  | spare | fresh | loaded => cases hs
  -- The audio side polls, which it may do without owning a slot.
  | allowed | down | reached | reclaimed => exact nofun
  | away bus ha n hp h =>
    rw [hp.owns] at hs
    cases hs

theorem there (h : Stage c) (hc : c.receiving = .take) :
    c.outlet.exchange.frame.isSome = true := by
  cases h with
  | away bus ha n hp h => cases h <;> first | rfl | cases hc
  | _ => cases hc

theorem back (h : Stage c) (why : Purpose) (hc : c.sending = .takeBack why) :
    c.outlet.exchange.returned.isSome = true := by
  cases h with
  | reached => rfl
  | away bus ha n hp h => exact absurd hc (hp.ne_takeBack why)
  | _ => cases hc

/-- **Frames pass in order:** each list is the next one with at most the frame in between. -/
theorem inOrder (h : Stage c) :
    c.trail.sent = c.trail.taken ++ c.outlet.exchange.frame.toList ∧
      c.trail.taken = c.trail.returned ++ c.receiving.frame.toList ∧
      c.trail.returned = c.trail.reclaimed ++ c.outlet.exchange.returned.toList := by
  -- The lists of a stage are given by its constructor, and so is the one place of the frame.
  cases h with
  | away bus ha n hp h =>
    cases h <;> simp [Receiving.frame]
  | _ => simp [Receiving.frame]

theorem underWay (h : Stage c) : c.trail.sent.length ≤ c.trail.reclaimed.length + 1 := by
  cases h with
  | away bus ha n hp h => cases h <;> simp
  | _ => simp

/-- Before a slot is filled, its last frame is gone and its flag is down. -/
theorem free (h : Stage c) (a : FrameAudio) (hc : c.sending = .awaitFree a) :
    c.outlet.exchange.frameReady = false := by
  cases h with
  | loaded => rfl
  | away bus ha n hp h => exact absurd hc (hp.ne_awaitFree a)
  | _ => cases hc

theorem freeBack (h : Stage c) (a : FrameAudio) (hc : c.receiving = .hold a) :
    c.outlet.exchange.audioDone = false := by
  cases h with
  | away bus ha n hp h => cases h <;> first | rfl | cases hc
  | _ => cases hc

/-- A frame that is away is in one place. -/
theorem contents_away {a : FrameAudio} {x : Exchange} {receiving : Receiving}
    {t : List FrameAudio} {trail : Trail} (bus : Bus) (n : Nat) {p : Sending} (hp : p.Behind)
    (h : Away a t x receiving trail) :
    ∃ place, ∀ q, Crossing.contents ⟨⟨bus, ⟨none, true, n⟩, x⟩, p, receiving, trail⟩ q =
      if q = place then some a.buffers else none := by
  have hsending : p.buffers = none := hp.buffers
  cases h with
  | ready | seen => exact ⟨.there, fun q => by cases q <;> first | rfl | exact hsending⟩
  | taken | held | finished =>
    exact ⟨.receiving, fun q => by cases q <;> first | rfl | exact hsending⟩
  | back | done => exact ⟨.back, fun q => by cases q <;> first | rfl | exact hsending⟩

/-- **The other pair is in one place.** -/
theorem contents_eq (h : Stage c) :
    ∃ place b, ∀ q, c.contents q = if q = place then some b else none := by
  cases h with
  | spare bus b n t => exact ⟨.spare, b, fun q => by cases q <;> rfl⟩
  | fresh bus b f n frame t => exact ⟨.sending, b, fun q => by cases q <;> rfl⟩
  | @loaded bus a ha f n t => exact ⟨.sending, a.buffers, fun q => by cases q <;> rfl⟩
  | @allowed bus a ha f n t => exact ⟨.sending, a.buffers, fun q => by cases q <;> rfl⟩
  | @down bus a ha f n t => exact ⟨.there, a.buffers, fun q => by cases q <;> rfl⟩
  | @away bus a ha n p hp x receiving t trail h =>
    obtain ⟨place, hplace⟩ := contents_away bus n hp h
    exact ⟨place, a.buffers, hplace⟩
  | @reached bus a ha n why t => exact ⟨.back, a.buffers, fun q => by cases q <;> rfl⟩
  | @reclaimed bus a ha n why t => exact ⟨.sending, a.buffers, fun q => by cases q <;> rfl⟩

theorem twoPairs (h : Stage c) : c.pairs.length = 2 := by
  obtain ⟨place, b, hcontents⟩ := h.contents_eq
  cases place <;> simp [Crossing.pairs, Place.all, hcontents]

theorem onePlace (h : Stage c) : ∃! place, (c.contents place).isSome = true := by
  obtain ⟨place, b, hcontents⟩ := h.contents_eq
  -- The place is unique because every other one is empty.
  refine ⟨place, ?_, ?_⟩
  · show (c.contents place).isSome = true
    rw [hcontents, if_pos rfl]
    rfl
  · intro q hq
    by_cases hne : q = place
    · exact hne
    · rw [hcontents, if_neg hne] at hq
      cases hq

/-- Every frame there is was filled by the bus. -/
theorem whole (h : Stage c) : ∀ a ∈ c.frames, Whole a := by
  cases h with
  | spare | fresh => exact nofun
  | loaded bus ha | allowed bus ha | down bus ha | reached bus ha | reclaimed bus ha =>
    exact List.forall_mem_singleton.2 ha
  | away bus ha n hp h =>
    cases hp <;> cases h <;> exact List.forall_mem_singleton.2 ha

theorem safe (h : Stage c) : Safe c where
  exclusive := h.exclusive
  there := h.there
  back := h.back
  sent := h.inOrder.1
  taken := h.inOrder.2.1
  returned := h.inOrder.2.2
  underWay := h.underWay
  free := h.free
  freeBack := h.freeBack
  twoPairs := h.twoPairs
  onePlace := h.onePlace
  whole := h.whole
  kept := fun _ => h.kept

end Stage

/-- **Every interleaving is safe,** however the steps of both sides, the calls and the work on
    frames follow each other. -/
theorem Crossing.run_safe (bus : Bus) (moves : List Move) : Safe ((start bus).run moves) :=
  ((Stage.start bus).run moves).safe

end ConsolePipeline.Handoff
