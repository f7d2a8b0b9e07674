import ConsolePipeline.Playback.Double
import ConsolePipeline.Proofs.Playback.Loading

namespace ConsolePipeline.Playback

open Stereo

/-!
# Double buffering: blocks and states

* `Double.block` — the blocks that a history of commits calls for.
* `Double.Preroll`, `Double.Live` — the states before playback and in it.
* `Double.startSlot_ready`, `startSlot_free`, `service_finished` — the handler, piece by piece.
* `Double.live_onto` — a block begins.
-/

namespace Double

variable {d : Double} {len pole slot n limit count : Nat} {history : List Commit}
  {holding : Bool}

/-- The calls of double buffering. -/
def port : Port Double where
  acquire := acquire
  write := write
  commit := commit
  advance := advance
  place d := d.filling.map d.slots.words
  deck := toDeck

/-- **Block `n`:** the next committed frame, if there was one when the block before ended, and else
    a decay of that block's last sample. -/
def block (len pole : Nat) (history : List Commit) : Nat → Block
  | 0 => .frame ((history.head?.map Commit.frame).getD #[])
  | n + 1 => match due len history (n + 1) with
    | some c => .frame c.frame
    | none => .fade (afterglow pole (block len pole history n).words)

/-! ### The blocks of a history -/

theorem block_succ_due {c : Commit} (h : due len history (n + 1) = some c) :
    block len pole history (n + 1) = .frame c.frame := by
  rw [block, h]

theorem block_of_due {c : Commit} (h : due len history n = some c) :
    block len pole history n = .frame c.frame := by
  cases n with
  | zero => rw [block, show history.head? = some c from h]; rfl
  | succ n => exact block_succ_due h

theorem block_succ_none (h : due len history (n + 1) = none) :
    block len pole history (n + 1) = .fade (afterglow pole (block len pole history n).words) := by
  rw [block, h]

theorem size_block (hne : history ≠ []) (hframes : ∀ c ∈ history, c.frame.size = len) (n : Nat) :
    (block len pole history n).words.size = len := by
  induction n with
  | zero =>
    obtain ⟨c, rest, rfl⟩ := List.exists_cons_of_ne_nil hne
    exact hframes c List.mem_cons_self
  | succ n ih =>
    cases hdue : due len history (n + 1) with
    | some c =>
      rw [block_succ_due hdue]
      exact hframes c (due_mem hdue)
    | none =>
      rw [block_succ_none hdue]
      exact (size_afterglow pole _).trans ih

theorem isFrame_block (hne : history ≠ []) (n : Nat) :
    (block len pole history n).isFrame = (due len history n).isSome := by
  cases n with
  | zero =>
    obtain ⟨c, rest, rfl⟩ := List.exists_cons_of_ne_nil hne
    rfl
  | succ n =>
    cases hdue : due len history (n + 1) with
    | some c => rw [block_succ_due hdue]; rfl
    | none => rw [block_succ_none hdue]; rfl

/-- Each commit is played by one block or still waits. -/
theorem length_eq_waiting_add_frameCount (len pole : Nat) (hne : history ≠ []) (n : Nat) :
    history.length =
      (waiting len history n).length + frameCount (block len pole history) (n + 1) := by
  rw [length_eq_waiting_add hne n, frameCount]
  congr 1
  exact List.countP_congr fun k _ => by rw [isFrame_block hne]

/-- A commit leaves the blocks that have begun as they were. -/
theorem block_append {c : Commit} (hne : history ≠ []) (h : n * len ≤ c.entry) :
    block len pole (history ++ [c]) n = block len pole history n := by
  induction n with
  | zero => rw [block, block, List.head?_append_of_ne_nil history hne]
  | succ n ih =>
    have hn : n * len ≤ (n + 1) * len := Nat.mul_le_mul_right len (Nat.le_succ n)
    rw [block, block, due_append hne h, ih (Nat.le_trans hn h)]

/-! ### The operations, one at a time -/

theorem onDeck_ok {α : Type} {act : Run Deck α} {a : α} {t : Deck} (h : act d.toDeck = .ok a t) :
    onDeck act d = .ok a { d with toDeck := t } :=
  Run.within_ok h

theorem onSlots_ok {α : Type} {act : Run Slots α} {a : α} {t : Slots} (h : act d.slots = .ok a t) :
    onSlots act d = .ok a { d with slots := t } :=
  Run.within_ok h

/-- The state once the channel has been started on a slot. -/
def onto (d : Double) (slot : Nat) : Double :=
  { d with
    slots := d.slots.setState slot .draining
    engine := d.engine.armAndStart d.channel (regionAddress slot 0) d.slots.slotLength slot
    playing := some slot }

theorem startSlot_ready (h : d.slots.state? slot = some .ready) :
    startSlot slot d = .ok () (d.onto slot) := by
  rw [startSlot, Run.bind_ok (onSlots_ok (Slots.beginDrain_ok h (.inl rfl)))]
  rfl

/-- The state once an underrun on a slot has been counted. -/
def late (d : Double) (slot : Nat) : Double :=
  { d with
    toDeck := d.toDeck.underrun (s!"double buffer underrun, slot {slot} replays fade") }

/-- A slot without a frame is played as well. -/
theorem startSlot_free (h : d.slots.state? slot = some .free) :
    startSlot slot d = .ok () ((d.late slot).onto slot) := by
  rw [startSlot, Run.bind_ok (onSlots_ok (Slots.beginDrain_ok h (.inr rfl)))]
  rfl

theorem service_idle (h : d.engine.Solo d.channel) : service d = .ok () d := by
  simp only [service, Run.get_bind, h.isPending, Bool.false_eq_true, if_false]
  rfl

/-- The state once a finished slot has been given back. -/
def retired (d : Double) (slot : Nat) : Double :=
  { d with
    toDeck := d.toDeck.served d.channel
    slots := (d.slots.setWords slot
      (afterglow d.slots.pole (d.slots.words slot))).setState slot .free
    playing := none
    queued := none }

/-- **A completion is served:** the finished slot is given back, and the queued one started, or the
    same again if none is. -/
theorem service_finished {e : Engine} (hengine : d.engine = e.finished d.channel)
    (hsolo : e.Solo d.channel) (htag : (e.channel d.channel).tag = slot) (hslot : slot < 2)
    (hplaying : d.playing = some slot) (hshaped : d.slots.Shaped 2 len pole)
    (hdraining : d.slots.state? slot = some .draining) :
    service d = startSlot (d.queued.getD slot) (d.retired slot) := by
  have hpending : d.engine.isPending d.channel = true := by
    rw [hengine]
    exact hsolo.isPending_finished
  have hmail : d.engine.mailbox.last = some slot := by
    rw [hengine]
    exact Engine.last_finished htag (by omega)
  have hcount : slot < d.slots.count := by
    rw [Slots.count, hshaped.memory_size]
    exact hslot
  simp only [service, Run.get_bind, hpending, if_true]
  rw [Run.bind_ok (onDeck_ok (Deck.serve_ok d.channel d.toDeck))]
  simp only [Run.get_bind, Run.modify_bind, hmail, hplaying, finishedSlot_agreed hcount,
    Bool.false_eq_true, if_false]
  rw [Run.bind_ok (onSlots_ok (Slots.finishDrain_ok (by exact hdraining)))]
  rfl

/-- The state once words have been played. -/
def heard (d : Double) (out : Array Word) (engine : Engine) : Double :=
  { d with toDeck := d.toDeck.heard out engine }

/-! ### States -/

/-- What holds before playback and in it. -/
structure Steady (len pole : Nat) (history : List Commit) (d : Double) : Prop where
  shaped : d.slots.Shaped 2 len pole
  solo : d.engine.Solo d.channel
  ring : (d.engine.channel d.channel).ringWords = none
  frames : ∀ c ∈ history, c.frame.size = len
  commits : d.stats.commits = history.length
  overruns : d.stats.overruns = 0
  tagMismatches : d.stats.tagMismatches = 0

/-- **Before playback:** at most one frame has been committed. -/
structure Preroll (len pole : Nat) (history : List Commit) (holding : Bool) (d : Double) : Prop
    extends Steady len pole history d where
  stopped : (d.engine.channel d.channel).busy = false
  played : d.played = #[]
  hardwareWords : d.stats.hardwareWords = 0
  irqs : d.stats.irqs = 0
  underruns : d.stats.underruns = 0
  playing : d.playing = none
  queued : d.queued = none
  loading : Loading len pole history holding d.slots d.nextFill d.filling

/-- No frame waits: software may fill the slot that does not play. -/
structure Open (len : Nat) (history : List Commit) (holding : Bool) (d : Double) (m p : Nat) :
    Prop where
  waiting : waiting len history m = []
  queued : d.queued = none
  nextFill : d.nextFill = 1 - p
  filling : d.filling = if holding then some (1 - p) else none
  target : d.slots.state? (1 - p) = some (if holding then .filling else .free)

/-- One frame waits, in the slot that does not play. -/
structure Queued (len : Nat) (history : List Commit) (holding : Bool) (d : Double) (m p : Nat)
    (c : Commit) : Prop where
  waiting : waiting len history m = [c]
  entry : c.entry < (m + 1) * len
  holding : holding = false
  queued : d.queued = some (1 - p)
  nextFill : d.nextFill = p
  filling : d.filling = none
  ready : d.slots.state? (1 - p) = some .ready
  words : d.slots.words (1 - p) = c.frame

/-- **In playback:** block `m` is read from slot `p` and stands at word `w`. -/
structure Live (len pole : Nat) (history : List Commit) (holding : Bool) (d : Double)
    (m w p : Nat) : Prop extends Steady len pole history d where
  many : 2 ≤ history.length
  slot : p < 2
  playing : d.playing = some p
  reads : (d.engine.channel d.channel).Reads p w len
  draining : d.slots.state? p = some .draining
  words : d.slots.words p = (block len pole history m).words
  deck : d.toDeck.Playing len (block len pole history) m w
  irqs : d.stats.irqs = m
  underruns : d.stats.underruns = fadeCount (block len pole history) (m + 1)
  next : Open len history holding d m p ∨ ∃ c, Queued len history holding d m p c

/-- The states that a run can be in. -/
def Sound (len pole : Nat) (history : List Commit) (holding : Bool) (d : Double) : Prop :=
  Preroll len pole history holding d ∨ ∃ m w p, Live len pole history holding d m w p

/-! ### Nothing that playback depends on -/

theorem Steady.alike {t : Deck} (h : Steady len pole history d) (ht : d.toDeck.Alike t) :
    Steady len pole history { d with toDeck := t } := by
  obtain ⟨⟨_, _, mailbox⟩, _, held, ⟨_, _, _, _, _, _, _, _, _⟩, notices⟩ := t
  obtain ⟨rfl, rfl, rfl, rfl, rfl, rfl, rfl, rfl, rfl⟩ := ht
  exact ⟨h.shaped, ⟨h.solo.others, h.solo.chain, h.solo.pending⟩, h.ring, h.frames, h.commits,
    h.overruns, h.tagMismatches⟩

theorem Preroll.alike {t : Deck} (h : Preroll len pole history holding d) (ht : d.toDeck.Alike t) :
    Preroll len pole history holding { d with toDeck := t } := by
  have hsteady := h.toSteady.alike ht
  obtain ⟨⟨_, _, mailbox⟩, _, held, ⟨_, _, _, _, _, _, _, _, _⟩, notices⟩ := t
  obtain ⟨rfl, rfl, rfl, rfl, rfl, rfl, rfl, rfl, rfl⟩ := ht
  exact ⟨hsteady, h.stopped, h.played, h.hardwareWords, h.irqs, h.underruns, h.playing, h.queued,
    h.loading⟩

theorem Live.alike {t : Deck} {m w p : Nat} (h : Live len pole history holding d m w p)
    (ht : d.toDeck.Alike t) : Live len pole history holding { d with toDeck := t } m w p := by
  have hsteady := h.toSteady.alike ht
  have hdeck : t.Playing len (block len pole history) m w := h.deck.same ht.played ht.hardwareWords
  obtain ⟨⟨_, _, mailbox⟩, _, held, ⟨_, _, _, _, _, _, _, _, _⟩, notices⟩ := t
  obtain ⟨rfl, rfl, rfl, rfl, rfl, rfl, rfl, rfl, rfl⟩ := ht
  refine ⟨hsteady, h.many, h.slot, h.playing, h.reads, h.draining, h.words, hdeck, h.irqs,
    h.underruns, ?_⟩
  exact h.next.imp (fun o => ⟨o.waiting, o.queued, o.nextFill, o.filling, o.target⟩)
    fun ⟨c, q⟩ => ⟨c, q.waiting, q.entry, q.holding, q.queued, q.nextFill, q.filling, q.ready,
      q.words⟩

/-! ### The start of a block -/

/-- A slot is given back once its channel has run out. -/
theorem Steady.retired (h : Steady len pole history d) (hslot : slot < 2) {e : Engine}
    (hsolo : e.Solo d.channel) (hring : (e.channel d.channel).ringWords = none)
    (out : Array Word) :
    Steady len pole history ((d.heard out (e.finished d.channel)).retired slot) := by
  have hwords : (afterglow d.slots.pole (d.slots.words slot)).size = len := by
    rw [size_afterglow, h.shaped.words_size slot hslot]
  refine ⟨?_, hsolo.served, ?_, h.frames, h.commits, h.overruns, h.tagMismatches⟩
  · exact (h.shaped.setWords hwords slot).setState slot .free
  · exact (Engine.ring_served_finished e d.channel).trans hring

/-- **A block begins.** -/
theorem live_onto {m : Nat} (h : Steady len pole history d) (hlen : 0 < len)
    (hmany : 2 ≤ history.length) (hslot : slot < 2)
    (hwords : d.slots.words slot = (block len pole history m).words)
    (hdeck : d.toDeck.Playing len (block len pole history) m 0) (hirqs : d.stats.irqs = m)
    (hunderruns : d.stats.underruns = fadeCount (block len pole history) (m + 1))
    (hnext : Open len history holding (d.onto slot) m slot ∨
      ∃ c, Queued len history holding (d.onto slot) m slot c) :
    Live len pole history holding (d.onto slot) m 0 slot := by
  have hlength : d.slots.slotLength = len := h.shaped.slotLength (by decide)
  have hreads : ((d.onto slot).engine.channel d.channel).Reads slot 0 len := by
    show ((d.engine.armAndStart d.channel (regionAddress slot 0)
      d.slots.slotLength slot).channel d.channel).Reads slot 0 len
    rw [hlength]
    exact Engine.reads_armAndStart h.ring hlen
  exact
    { shaped := h.shaped.setState slot .draining
      solo := h.solo.armAndStart _ _ _
      ring := hreads.ring
      frames := h.frames
      commits := h.commits
      overruns := h.overruns
      tagMismatches := h.tagMismatches
      many := hmany
      slot := hslot
      playing := rfl
      reads := hreads
      draining := Slots.state?_setState_self h.shaped hslot .draining
      words := hwords
      deck := (hdeck.same rfl rfl)
      irqs := hirqs
      underruns := hunderruns
      next := hnext }

end Double

end ConsolePipeline.Playback
