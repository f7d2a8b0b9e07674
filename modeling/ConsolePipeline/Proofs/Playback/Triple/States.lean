import ConsolePipeline.Playback.Triple
import ConsolePipeline.Proofs.Playback.Deck
import ConsolePipeline.Proofs.Playback.Triple.Score

namespace ConsolePipeline.Playback

open Stereo

/-!
# Triple buffering: states

Block `m` is read from slot `m % 3`. The other two slots hold the next two blocks already, as far as
they are decided.

* `Triple.Holds` — a slot holds a block that is not yet played.
* `Triple.Preroll`, `Live`, `Held` — the states before the first commit, in playback, and while
  software holds a slot; `Reading`, `Poised` — what they have in common in a block, and before one.
* `Triple.startSlot_ok`, `service_finished` — the handler, piece by piece.
* `Triple.Poised.start`, `Between.start` — a block begins.
-/

namespace Triple

variable {d : Triple} {len pole slot n limit m w : Nat} {history : List Commit} {b : Block}

/-- The calls of triple buffering. -/
def port : Port Triple where
  acquire := acquire
  write := write
  commit := commit
  advance := advance
  place d := d.filling.map d.slots.words
  deck := toDeck

/-! ### The operations, one at a time -/

theorem onDeck_ok {α : Type} {act : Run Deck α} {a : α} {t : Deck} (h : act d.toDeck = .ok a t) :
    onDeck act d = .ok a { d with toDeck := t } :=
  Run.within_ok h

theorem onSlots_ok {α : Type} {act : Run Slots α} {a : α} {t : Slots} (h : act d.slots = .ok a t) :
    onSlots act d = .ok a { d with slots := t } :=
  Run.within_ok h

theorem isPrimed_setPrimed_self (h : slot < 3) (value : Bool) :
    (d.setPrimed slot value).isPrimed slot = value := by
  simp [isPrimed, setPrimed, h]

theorem isPrimed_setPrimed_ne {other : Nat} (h : slot ≠ other) (value : Bool) :
    (d.setPrimed slot value).isPrimed other = d.isPrimed other := by
  simp [isPrimed, setPrimed, Vector.getElem?_setIfInBounds_ne h]

/-- A slot holds a block that is not yet played: a frame or a copy is ready, a decay is left in a
    slot that nobody owns. -/
structure Holds (d : Triple) (slot : Nat) (b : Block) : Prop where
  state : d.slots.state? slot = some (if b.isFade then .free else .ready)
  words : d.slots.words slot = b.words
  primed : d.isPrimed slot = b.isCopy

/-- A slot goes on holding its block while others change. -/
theorem Holds.congr {d' : Triple} (h : d.Holds slot b)
    (hstate : d'.slots.state? slot = d.slots.state? slot)
    (hwords : d'.slots.words slot = d.slots.words slot)
    (hprimed : d'.isPrimed slot = d.isPrimed slot) : d'.Holds slot b :=
  ⟨hstate.trans h.state, hwords.trans h.words, hprimed.trans h.primed⟩

/-- The state once the channel has been started on a slot. -/
def onto (d : Triple) (slot : Nat) : Triple :=
  { d.setPrimed slot false with
    slots := d.slots.setState slot .draining
    engine := d.engine.armAndStart d.channel (regionAddress slot 0) d.slots.slotLength slot
    playing := some slot }

/-- The state once an underrun on a slot has been counted, if it is one. -/
def late (d : Triple) (slot : Nat) (underrun : Bool) : Triple :=
  if underrun then
    { d with
      toDeck := d.toDeck.underrun (s!"triple buffer underrun, slot {slot} plays fade") }
  else d

@[simp] theorem slots_late (d : Triple) (slot : Nat) (underrun : Bool) :
    (d.late slot underrun).slots = d.slots := by
  cases underrun <;> rfl

@[simp] theorem filling_late (d : Triple) (slot : Nat) (underrun : Bool) :
    (d.late slot underrun).filling = d.filling := by
  cases underrun <;> rfl

@[simp] theorem isPrimed_late (d : Triple) (slot : Nat) (underrun : Bool) (other : Nat) :
    (d.late slot underrun).isPrimed other = d.isPrimed other := by
  cases underrun <;> rfl

/-- An underrun touches no other counter. -/
theorem stats_late (d : Triple) (slot : Nat) (underrun : Bool) :
    (d.late slot underrun).stats = { d.stats with
      underruns := d.stats.underruns + if underrun then 1 else 0 } := by
  cases underrun <;> rfl

theorem startSlot_ok (h : d.Holds slot b) :
    startSlot slot d = .ok () ((d.late slot b.isFade).onto slot) := by
  cases hfade : b.isFade with
  | false =>
    have hready : d.slots.state? slot = some .ready := by
      rw [h.state, hfade]
      rfl
    rw [startSlot, Run.bind_ok (onSlots_ok (Slots.beginDrain_ok hready (.inl rfl)))]
    rfl
  | true =>
    have hfree : d.slots.state? slot = some .free := by
      rw [h.state, hfade]
      rfl
    rw [startSlot, Run.bind_ok (onSlots_ok (Slots.beginDrain_ok hfree (.inr rfl)))]
    rfl

/-- The channel must not be started on a slot that software fills. -/
theorem startSlot_filling (h : d.slots.state? slot = some .filling) :
    startSlot slot d = .error (.notDrainable slot .filling) d :=
  Run.bind_error (Run.within_error (Slots.beginDrain_error h))

theorem service_idle (h : d.engine.Solo d.channel) : service d = .ok () d := by
  simp only [service, Run.get_bind, h.isPending, Bool.false_eq_true, if_false]
  rfl

/-- The state once a finished slot has been given back. -/
def retired (d : Triple) (slot : Nat) : Triple :=
  { d with
    toDeck := d.toDeck.served d.channel
    slots := (d.slots.setWords slot
      (afterglow d.slots.pole (d.slots.words slot))).setState slot .free
    playing := none }

/-- **A completion is served:** the finished slot is given back, and the next in turn started. -/
theorem service_finished {e : Engine} (hengine : d.engine = e.finished d.channel)
    (hsolo : e.Solo d.channel) (htag : (e.channel d.channel).tag = slot) (hslot : slot < 3)
    (hplaying : d.playing = some slot) (hshaped : d.slots.Shaped 3 len pole)
    (hdraining : d.slots.state? slot = some .draining) :
    service d = startSlot ((slot + 1) % 3) (d.retired slot) := by
  have hpending : d.engine.isPending d.channel = true := by
    rw [hengine]
    exact hsolo.isPending_finished
  have hmail : d.engine.mailbox.last = some slot := by
    rw [hengine]
    exact Engine.last_finished htag (by omega)
  have hcount : slot < d.slots.count := by
    rw [Slots.count, hshaped.memory_size]
    exact hslot
  simp only [service, Run.get_bind, hpending, if_true]
  rw [Run.bind_ok (onDeck_ok (Deck.serve_ok d.channel d.toDeck))]
  simp only [Run.get_bind, Run.modify_bind, hmail, hplaying, finishedSlot_agreed hcount,
    Bool.false_eq_true, if_false]
  rw [Run.bind_ok (onSlots_ok (Slots.finishDrain_ok (by exact hdraining)))]
  rfl

/-! ### States -/

/-- What holds before playback and in it. -/
structure Steady (len pole : Nat) (history : List Commit) (d : Triple) : Prop where
  shaped : d.slots.Shaped 3 len pole
  solo : d.engine.Solo d.channel
  ring : (d.engine.channel d.channel).ringWords = none
  frames : ∀ c ∈ history, c.frame.size = len
  commits : d.stats.commits = history.length
  waitSpins : d.stats.waitSpins = 0
  tagMismatches : d.stats.tagMismatches = 0

/-- **Before the first commit.** -/
structure Preroll (len pole : Nat) (holding : Bool) (d : Triple) : Prop
    extends Steady len pole [] d where
  stopped : (d.engine.channel d.channel).busy = false
  played : d.played = #[]
  hardwareWords : d.stats.hardwareWords = 0
  irqs : d.stats.irqs = 0
  underruns : d.stats.underruns = 0
  overruns : d.stats.overruns = 0
  playing : d.playing = none
  filling : d.filling = if holding then some 0 else none
  target : d.slots.state? 0 = some (if holding then .filling else .free)
  second : d.slots.state? 1 = some .free
  third : d.slots.state? 2 = some .free
  cleared : holding = true → d.isPrimed 0 = false

/-- **In playback:** block `m` stands at word `w`, and the slot after it holds the next one. -/
structure Running (len pole : Nat) (history : List Commit) (d : Triple) (m w : Nat) : Prop
    extends Steady len pole history d where
  nonempty : history ≠ []
  entries : ∀ c ∈ history, c.entry < (m + 1) * len
  playing : d.playing = some (m % 3)
  reads : (d.engine.channel d.channel).Reads (m % 3) w len
  draining : d.slots.state? (m % 3) = some .draining
  words : d.slots.words (m % 3) = (block len pole history m).words
  unprimed : d.isPrimed (m % 3) = false
  deck : d.toDeck.Playing len (block len pole history) m w
  irqs : d.stats.irqs = m
  underruns : d.stats.underruns = fadeCount (block len pole history) (m + 1)
  next : d.Holds ((m + 1) % 3) (block len pole history (m + 1))

/-- In playback, software holds no slot: the third one holds the block after the next. -/
structure Live (len pole : Nat) (history : List Commit) (d : Triple) (m w : Nat) : Prop
    extends Running len pole history d m w where
  filling : d.filling = none
  later : d.Holds ((m + 2) % 3) (block len pole history (m + 2))
  overruns : d.stats.overruns = lost len history m

/-- In playback, software holds the third slot; if it held a frame, that is lost. -/
structure Held (len pole : Nat) (history : List Commit) (d : Triple) (m w : Nat) : Prop
    extends Running len pole history d m w where
  filling : d.filling = some ((m + 2) % 3)
  target : d.slots.state? ((m + 2) % 3) = some .filling
  cleared : d.isPrimed ((m + 2) % 3) = false
  overruns : d.stats.overruns =
    lost len history m + if during len history m = [] then 0 else 1

/-- Between two blocks: all slots are ready for block `m`, which has not begun. -/
structure Between (len pole : Nat) (history : List Commit) (d : Triple) (m : Nat) : Prop
    extends Steady len pole history d where
  nonempty : history ≠ []
  entries : ∀ c ∈ history, c.entry < (m + 1) * len
  deck : d.toDeck.Playing len (block len pole history) m 0
  irqs : d.stats.irqs = m
  underruns : d.stats.underruns = fadeCount (block len pole history) m
  filling : d.filling = none
  current : d.Holds (m % 3) (block len pole history m)
  next : d.Holds ((m + 1) % 3) (block len pole history (m + 1))
  later : d.Holds ((m + 2) % 3) (block len pole history (m + 2))
  overruns : d.stats.overruns = lost len history m

/-- In playback, whatever the other slots hold: block `m` stands at word `w`. -/
structure Reading (len pole : Nat) (history : List Commit) (d : Triple) (m w : Nat) : Prop
    extends Steady len pole history d where
  nonempty : history ≠ []
  entries : ∀ c ∈ history, c.entry < (m + 1) * len
  playing : d.playing = some (m % 3)
  reads : (d.engine.channel d.channel).Reads (m % 3) w len
  draining : d.slots.state? (m % 3) = some .draining
  words : d.slots.words (m % 3) = (block len pole history m).words
  unprimed : d.isPrimed (m % 3) = false
  deck : d.toDeck.Playing len (block len pole history) m w
  irqs : d.stats.irqs = m
  underruns : d.stats.underruns = fadeCount (block len pole history) (m + 1)

theorem Running.reading (h : Running len pole history d m w) :
    Reading len pole history d m w :=
  ⟨h.toSteady, h.nonempty, h.entries, h.playing, h.reads, h.draining, h.words, h.unprimed, h.deck,
    h.irqs, h.underruns⟩

theorem Reading.running (h : Reading len pole history d m w)
    (hnext : d.Holds ((m + 1) % 3) (block len pole history (m + 1))) :
    Running len pole history d m w :=
  ⟨h.toSteady, h.nonempty, h.entries, h.playing, h.reads, h.draining, h.words, h.unprimed, h.deck,
    h.irqs, h.underruns, hnext⟩

/-- Between two blocks, whatever the slots hold: block `m` has not begun. -/
structure Poised (len pole : Nat) (history : List Commit) (d : Triple) (m : Nat) : Prop
    extends Steady len pole history d where
  nonempty : history ≠ []
  entries : ∀ c ∈ history, c.entry < (m + 1) * len
  deck : d.toDeck.Playing len (block len pole history) m 0
  irqs : d.stats.irqs = m
  underruns : d.stats.underruns = fadeCount (block len pole history) m

/-! ### Nothing that playback depends on -/

section Alike

variable {t : Deck} {holding : Bool} (ht : d.toDeck.Alike t)
  (hspins : t.stats.waitSpins = d.stats.waitSpins)

include ht hspins

theorem Steady.alike (h : Steady len pole history d) :
    Steady len pole history { d with toDeck := t } := by
  obtain ⟨⟨_, _, mailbox⟩, _, held, ⟨_, _, _, _, _, _, _, _, _⟩, notices⟩ := t
  obtain ⟨rfl, rfl, rfl, rfl, rfl, rfl, rfl, rfl, rfl⟩ := ht
  exact ⟨h.shaped, ⟨h.solo.others, h.solo.chain, h.solo.pending⟩, h.ring, h.frames, h.commits,
    hspins.trans h.waitSpins, h.tagMismatches⟩

theorem Preroll.alike (h : Preroll len pole holding d) :
    Preroll len pole holding { d with toDeck := t } := by
  have hsteady := h.toSteady.alike ht hspins
  obtain ⟨⟨_, _, mailbox⟩, _, held, ⟨_, _, _, _, _, _, _, _, _⟩, notices⟩ := t
  obtain ⟨rfl, rfl, rfl, rfl, rfl, rfl, rfl, rfl, rfl⟩ := ht
  exact ⟨hsteady, h.stopped, h.played, h.hardwareWords, h.irqs, h.underruns, h.overruns, h.playing,
    h.filling, h.target, h.second, h.third, h.cleared⟩

theorem Running.alike (h : Running len pole history d m w) :
    Running len pole history { d with toDeck := t } m w := by
  have hsteady := h.toSteady.alike ht hspins
  have hdeck : t.Playing len (block len pole history) m w := h.deck.same ht.played ht.hardwareWords
  obtain ⟨⟨_, _, mailbox⟩, _, held, ⟨_, _, _, _, _, _, _, _, _⟩, notices⟩ := t
  obtain ⟨rfl, rfl, rfl, rfl, rfl, rfl, rfl, rfl, rfl⟩ := ht
  exact ⟨hsteady, h.nonempty, h.entries, h.playing, h.reads, h.draining, h.words, h.unprimed, hdeck,
    h.irqs, h.underruns, h.next.congr rfl rfl rfl⟩

theorem Live.alike (h : Live len pole history d m w) :
    Live len pole history { d with toDeck := t } m w :=
  ⟨h.toRunning.alike ht hspins, h.filling, h.later.congr rfl rfl rfl,
    ht.overruns.trans h.overruns⟩

theorem Held.alike (h : Held len pole history d m w) :
    Held len pole history { d with toDeck := t } m w :=
  ⟨h.toRunning.alike ht hspins, h.filling, h.target, h.cleared, ht.overruns.trans h.overruns⟩

end Alike

/-! ### The start of a block -/

theorem Steady.late (h : Steady len pole history d) (slot : Nat) (underrun : Bool) :
    Steady len pole history (d.late slot underrun) := by
  cases underrun with
  | false => exact h
  | true =>
    exact ⟨h.shaped, h.solo, h.ring, h.frames, h.commits, h.waitSpins, h.tagMismatches⟩

theorem playing_late {blocks : Nat → Block} (h : d.toDeck.Playing len blocks m w) (slot : Nat)
    (underrun : Bool) : (d.late slot underrun).toDeck.Playing len blocks m w := by
  cases underrun with
  | false => exact h
  | true => exact h.same rfl rfl

theorem Holds.late (h : d.Holds slot b) (other : Nat) (underrun : Bool) :
    (d.late other underrun).Holds slot b :=
  h.congr (by rw [slots_late]) (by rw [slots_late]) (by rw [isPrimed_late])

/-- Starting the channel on one slot leaves what the others hold. -/
theorem Holds.onto {other : Nat} (h : d.Holds slot b) (hne : other ≠ slot) :
    (d.onto other).Holds slot b :=
  h.congr (Slots.state?_setState_ne _ _ hne) rfl (isPrimed_setPrimed_ne hne false)

theorem Steady.reads_onto (h : Steady len pole history d) (hlen : 0 < len) (slot : Nat) :
    ((d.onto slot).engine.channel d.channel).Reads slot 0 len := by
  have hlength : d.slots.slotLength = len := h.shaped.slotLength (by decide)
  show ((d.engine.armAndStart d.channel (regionAddress slot 0)
    d.slots.slotLength slot).channel d.channel).Reads slot 0 len
  rw [hlength]
  exact Engine.reads_armAndStart h.ring hlen

/-- **A block begins,** late if it is a decay. -/
theorem Poised.start (h : Poised len pole history d m) (hlen : 0 < len)
    (hholds : d.Holds (m % 3) (block len pole history m)) :
    startSlot (m % 3) d =
        .ok () ((d.late (m % 3) (block len pole history m).isFade).onto (m % 3)) ∧
      Reading len pole history
        ((d.late (m % 3) (block len pole history m).isFade).onto (m % 3)) m 0 := by
  have hslot : m % 3 < 3 := Nat.mod_lt m (by decide)
  refine ⟨startSlot_ok hholds, ?_⟩
  -- Whether the block is a decay only matters for the underruns.
  generalize hfade : (block len pole history m).isFade = fade
  have hsteady := h.toSteady.late (m % 3) fade
  have hreads := hsteady.reads_onto hlen (m % 3)
  have hstats : ((d.late (m % 3) fade).onto (m % 3)).stats = { d.stats with
      underruns := d.stats.underruns + if fade then 1 else 0 } := stats_late d (m % 3) fade
  exact
    { shaped := hsteady.shaped.setState (m % 3) .draining
      solo := hsteady.solo.armAndStart _ _ _
      ring := hreads.ring
      frames := hsteady.frames
      commits := hsteady.commits
      waitSpins := hsteady.waitSpins
      tagMismatches := hsteady.tagMismatches
      nonempty := h.nonempty
      entries := h.entries
      playing := rfl
      reads := hreads
      draining := Slots.state?_setState_self hsteady.shaped hslot .draining
      words := (hholds.late (m % 3) fade).words
      unprimed := isPrimed_setPrimed_self hslot false
      deck := (playing_late h.deck (m % 3) fade).same rfl rfl
      irqs := by rw [hstats]; exact h.irqs
      underruns := by rw [hstats, fadeCount_succ, hfade, ← h.underruns] }

/-- A block begins, and software holds no slot. -/
theorem Between.start (h : Between len pole history d m) (hlen : 0 < len) :
    ∃ d', startSlot (m % 3) d = .ok () d' ∧ Live len pole history d' m 0 := by
  have hpoised : Poised len pole history d m :=
    ⟨h.toSteady, h.nonempty, h.entries, h.deck, h.irqs, h.underruns⟩
  obtain ⟨hstart, hreading⟩ := hpoised.start hlen h.current
  generalize (block len pole history m).isFade = fade at hstart hreading
  have hstats : ((d.late (m % 3) fade).onto (m % 3)).stats = { d.stats with
      underruns := d.stats.underruns + if fade then 1 else 0 } := stats_late d (m % 3) fade
  refine ⟨_, hstart, hreading.running ((h.next.late (m % 3) fade).onto (by omega)),
    (filling_late d (m % 3) fade).trans h.filling,
    (h.later.late (m % 3) fade).onto (by omega), ?_⟩
  rw [hstats]
  exact h.overruns

end Triple

end ConsolePipeline.Playback
