import ConsolePipeline.Playback.Chained
import ConsolePipeline.Proofs.Playback.Loading

namespace ConsolePipeline.Playback

open Stereo

/-!
# Chained ping-pong: blocks and states

Block `m` is read from slot `m % 2` by the channel of that slot, while the other channel is loaded
with the other slot, so that the hardware can go on to it by itself.

* `Chained.block` — the blocks that a history of commits calls for.
* `Chained.Preroll`, `Live`, `Held` — the states before playback, in it, and while software holds a
  slot.
* `Chained.Holds` — a slot holds a block that is not yet played.
* `Chained.markPlaying_ok`, `service_finished` — the handler, piece by piece.
-/

namespace Chained

variable {d : Chained} {len pole slot n limit m w : Nat} {history : List Commit} {holding : Bool}

/-- The calls of chained ping-pong. -/
def port : Port Chained where
  acquire := acquire
  write := write
  commit := commit
  advance := advance
  place d := d.filling.map d.slots.words
  deck := toDeck

/-! ### The blocks of a history -/

/-- **Block `n`:** the first two frames, then the next committed frame, if there was one when the
    block before ended, and else a decay of what the slot held before. -/
def block (len pole : Nat) (history : List Commit) : Nat → Block
  | 0 => .frame ((history[0]?.map Commit.frame).getD #[])
  | 1 => .frame ((history[1]?.map Commit.frame).getD #[])
  | n + 2 => match due len history (n + 2) with
    | some c => .frame c.frame
    | none => .fade (afterglow pole (block len pole history n).words)

theorem block_due {c : Commit} (h : due len history (n + 2) = some c) :
    block len pole history (n + 2) = .frame c.frame := by
  rw [block, h]

theorem block_of_due {n : Nat} {c : Commit} (h : due len history n = some c) :
    block len pole history n = .frame c.frame := by
  match n, h with
  | 0, h =>
    rw [block, ← List.head?_eq_getElem?, show history.head? = some c from h]
    rfl
  | 1, h =>
    have hget := getElem?_dueCount h
    rw [dueCount_one (List.ne_nil_of_mem (due_mem h))] at hget
    rw [block, hget]
    rfl
  | n + 2, h => exact block_due h

theorem block_none (h : due len history (n + 2) = none) :
    block len pole history (n + 2) = .fade (afterglow pole (block len pole history n).words) := by
  rw [block, h]

/-- A commit leaves the blocks that have begun as they were. -/
theorem block_append {c : Commit} (hmany : 2 ≤ history.length) (h : n * len ≤ c.entry) :
    block len pole (history ++ [c]) n = block len pole history n := by
  have hne : history ≠ [] := List.ne_nil_of_length_pos (by omega)
  induction n using Nat.strongRecOn with
  | ind n ih =>
    match n, h, ih with
    | 0, _, _ => rw [block, block, List.getElem?_append_left (by omega)]
    | 1, _, _ => rw [block, block, List.getElem?_append_left (by omega)]
    | n + 2, h, ih =>
      have hn : n * len ≤ (n + 2) * len := Nat.mul_le_mul_right len (by omega)
      rw [block, block, due_append hne h, ih n (by omega) (Nat.le_trans hn h)]

/-! ### The operations, one at a time -/

theorem onDeck_ok {α : Type} {act : Run Deck α} {a : α} {t : Deck} (h : act d.toDeck = .ok a t) :
    onDeck act d = .ok a { d with toDeck := t } :=
  Run.within_ok h

theorem onSlots_ok {α : Type} {act : Run Slots α} {a : α} {t : Slots} (h : act d.slots = .ok a t) :
    onSlots act d = .ok a { d with slots := t } :=
  Run.within_ok h

/-- The state once the hardware has gone on to a slot. -/
def onto (d : Chained) (slot : Nat) : Chained :=
  { d with
    slots := d.slots.setState slot .draining
    playing := some slot }

/-- The state once an underrun on a slot has been counted, if it is one. -/
def late (d : Chained) (slot : Nat) (underrun : Bool) : Chained :=
  if underrun then
    { d with toDeck := d.toDeck.underrun (s!"chained underrun, slot {slot} plays fade") }
  else d

/-- A slot holds a block that is not yet played: a frame is ready, a decay is left in a slot that
    nobody owns. -/
structure Holds (d : Chained) (slot : Nat) (b : Block) : Prop where
  state : d.slots.state? slot = some (if b.isFade then .free else .ready)
  words : d.slots.words slot = b.words

/-- The hardware goes on to a slot with whatever it holds. -/
theorem markPlaying_ok {b : Block} (h : d.Holds slot b) :
    markPlaying slot d = .ok () ((d.late slot b.isFade).onto slot) := by
  cases hfade : b.isFade with
  | false =>
    have hready : d.slots.state? slot = some .ready := by
      rw [h.state, hfade]
      rfl
    rw [markPlaying, Run.bind_ok (onSlots_ok (Slots.beginDrain_ok hready (.inl rfl)))]
    rfl
  | true =>
    have hfree : d.slots.state? slot = some .free := by
      rw [h.state, hfade]
      rfl
    rw [markPlaying, Run.bind_ok (onSlots_ok (Slots.beginDrain_ok hfree (.inr rfl)))]
    rfl

/-- The hardware must not go on to a slot that software fills. -/
theorem markPlaying_filling (h : d.slots.state? slot = some .filling) :
    markPlaying slot d = .error (.notDrainable slot .filling) d :=
  Run.bind_error (Run.within_error (Slots.beginDrain_error h))

/-- The state once the completion of a slot's channel has been noted and the slot given back. -/
def retired (d : Chained) (slot : Nat) : Chained :=
  rearm slot
    { d with
      engine := d.engine.takeMail.2.clearPending (Engine.bit (d.channelOf slot))
      stats := { d.stats with irqs := d.stats.irqs + 1 }
      slots := (d.slots.setWords slot (afterglow d.slots.pole (d.slots.words slot))).setState slot
        .free }

theorem engine_retired (hshaped : d.slots.Shaped 2 len pole) (hslot : slot < 2) :
    (d.retired slot).engine = d.engine.rearmed (d.channelOf slot) slot len := by
  have hwords : (afterglow d.slots.pole (d.slots.words slot)).size = len := by
    rw [size_afterglow, hshaped.words_size slot hslot]
  have hlength := ((hshaped.setWords hwords slot).setState slot .free).slotLength (by decide)
  rw [Engine.rearmed, ← hlength]
  rfl

/-- What serving the completion of one channel comes to, if its tag agrees. -/
theorem retire_ok (hcount : slot < d.slots.count)
    (hdraining : d.slots.state? slot = some .draining) :
    retire (some slot) slot { d with engine := d.engine.takeMail.2 } =
      markPlaying (1 - slot) (d.retired slot) := by
  simp only [retire, Run.modify_bind, Run.get_bind, finishedSlot_agreed hcount, Bool.false_eq_true,
    if_false]
  rw [Run.bind_ok (onSlots_ok (Slots.finishDrain_ok (by exact hdraining)))]
  rfl

/-- The state once the mailbox has been emptied. -/
def emptied (d : Chained) : Chained :=
  { d with engine := d.engine.takeMail.2 }

theorem alike_emptied (d : Chained) : d.toDeck.Alike d.emptied.toDeck :=
  ⟨rfl, rfl, rfl, rfl, rfl, rfl, rfl, rfl, rfl⟩

/-- With nothing to serve, only the mailbox is emptied. -/
theorem service_idle (h : d.engine.Linked (d.channelOf 0) (d.channelOf 1)) :
    service d = .ok () d.emptied := by
  simp only [service, Run.get_bind, h.isPending, Bool.false_eq_true, if_false]
  rfl

/-- **A completion is served:** the finished slot is given back, its channel loaded again, and the
    hardware found to have gone on to the other slot. -/
theorem service_finished {e : Engine}
    (hengine : d.engine = e.relayed (d.channelOf (m % 2)) (d.channelOf ((m + 1) % 2)))
    (hlinked : e.Linked (d.channelOf (m % 2)) (d.channelOf ((m + 1) % 2)))
    (htag : (e.channel (d.channelOf (m % 2))).tag = m % 2) (hshaped : d.slots.Shaped 2 len pole)
    (hdraining : d.slots.state? (m % 2) = some .draining) :
    service d = markPlaying ((m + 1) % 2) (d.retired (m % 2)) := by
  have hmail : d.engine.mailbox.last = some (m % 2) := by
    rw [hengine]
    exact Engine.last_relayed htag (by omega)
  have hcount : m % 2 < d.slots.count := by
    rw [Slots.count, hshaped.memory_size]
    omega
  have hplays : d.engine.isPending (d.channelOf (m % 2)) = true := by
    rw [hengine]
    exact hlinked.isPending_relayed
  have hother : d.engine.isPending (d.channelOf ((m + 1) % 2)) = false := by
    rw [hengine]
    exact hlinked.isPending_relayed_other
  have hretire := retire_ok hcount hdraining
  rw [← hmail] at hretire
  -- Which of the two completions is pending depends on the parity of the block.
  obtain hm | hm : m % 2 = 0 ∨ m % 2 = 1 := by omega
  · rw [hm] at hplays hretire ⊢
    rw [show (m + 1) % 2 = 1 by omega] at hother ⊢
    simp only [service, Run.get_bind, Run.modify_bind, Engine.takeMail, hplays, hother, if_true,
      Bool.false_eq_true, if_false]
    rw [Run.bind_unit]
    exact hretire
  · rw [hm] at hplays hretire ⊢
    rw [show (m + 1) % 2 = 0 by omega] at hother ⊢
    simp only [service, Run.get_bind, Run.modify_bind, Engine.takeMail, hplays, hother, if_true,
      Bool.false_eq_true, if_false]
    exact hretire

/-! ### States -/

/-- What holds before playback and in it. -/
structure Steady (len pole : Nat) (history : List Commit) (d : Chained) : Prop where
  shaped : d.slots.Shaped 2 len pole
  linked : d.engine.Linked (d.channelOf 0) (d.channelOf 1)
  frames : ∀ c ∈ history, c.frame.size = len
  commits : d.stats.commits = history.length
  overruns : d.stats.overruns = 0
  tagMismatches : d.stats.tagMismatches = 0

/-- **Before playback:** both channels are loaded, and at most one frame has been committed. -/
structure Preroll (len pole : Nat) (history : List Commit) (holding : Bool) (d : Chained) : Prop
    extends Steady len pole history d where
  first : (d.engine.channel (d.channelOf 0)).Armed 0 len
  second : (d.engine.channel (d.channelOf 1)).Armed 1 len
  played : d.played = #[]
  hardwareWords : d.stats.hardwareWords = 0
  irqs : d.stats.irqs = 0
  underruns : d.stats.underruns = 0
  playing : d.playing = none
  loading : Loading len pole history holding d.slots d.nextFill d.filling

/-- **In playback:** block `m` stands at word `w`, and the other channel is loaded. -/
structure Running (len pole : Nat) (history : List Commit) (d : Chained) (m w : Nat) : Prop
    extends Steady len pole history d where
  many : 2 ≤ history.length
  playing : d.playing = some (m % 2)
  reads : (d.engine.channel (d.channelOf (m % 2))).Reads (m % 2) w len
  armed : (d.engine.channel (d.channelOf ((m + 1) % 2))).Armed ((m + 1) % 2) len
  draining : d.slots.state? (m % 2) = some .draining
  words : d.slots.words (m % 2) = (block len pole history m).words
  deck : d.toDeck.Playing len (block len pole history) m w
  irqs : d.stats.irqs = m
  underruns : d.stats.underruns = fadeCount (block len pole history) (m + 1)

/-- **A block begins:** the hardware has gone on to the slot of block `m`, and it has not been
    looked at yet whether that holds a frame. -/
structure Poised (len pole : Nat) (history : List Commit) (d : Chained) (m : Nat) : Prop
    extends Steady len pole history d where
  many : 2 ≤ history.length
  reads : (d.engine.channel (d.channelOf (m % 2))).Reads (m % 2) 0 len
  armed : (d.engine.channel (d.channelOf ((m + 1) % 2))).Armed ((m + 1) % 2) len
  deck : d.toDeck.Playing len (block len pole history) m 0
  irqs : d.stats.irqs = m
  underruns : d.stats.underruns = fadeCount (block len pole history) m

/-- No frame waits, or one does, and software fills the slot that plays next. -/
inductive Queue (len : Nat) (history : List Commit) (m next : Nat) : Prop
  | empty (waiting : waiting len history m = []) (turn : next < 2)
  | one (c : Commit) (waiting : waiting len history m = [c]) (entry : c.entry < (m + 1) * len)
      (turn : next = m % 2)

/-- With a block more nothing waits: a frame that did is what that block plays. -/
theorem Queue.succ {next : Nat} (h : Queue len history m next) :
    Playback.waiting len history (m + 1) = [] ∧ next < 2 := by
  cases h with
  | empty hwait hturn => exact ⟨waiting_succ_of_nil hwait, hturn⟩
  | one c hwait hentry hturn => exact ⟨waiting_succ_of_lt hwait hentry, by omega⟩

/-- In playback, software holds no slot: the one that does not play holds the next block. -/
structure Live (len pole : Nat) (history : List Commit) (d : Chained) (m w : Nat) : Prop
    extends Running len pole history d m w where
  filling : d.filling = none
  next : d.Holds ((m + 1) % 2) (block len pole history (m + 1))
  queue : Queue len history m d.nextFill

/-- In playback, software holds the slot that does not play. -/
structure Held (len pole : Nat) (history : List Commit) (d : Chained) (m w : Nat) : Prop
    extends Running len pole history d m w where
  waiting : waiting len history m = []
  turn : d.nextFill = (m + 1) % 2
  filling : d.filling = some ((m + 1) % 2)
  target : d.slots.state? ((m + 1) % 2) = some .filling

/-- Which of the channels plays makes no difference to their being chained. -/
theorem linked_of_at {e : Engine} (m : Nat)
    (h : e.Linked (d.channelOf (m % 2)) (d.channelOf ((m + 1) % 2))) :
    e.Linked (d.channelOf 0) (d.channelOf 1) := by
  obtain hm | hm : m % 2 = 0 ∨ m % 2 = 1 := by omega
  · rw [hm, show (m + 1) % 2 = 1 by omega] at h
    exact h
  · rw [hm, show (m + 1) % 2 = 0 by omega] at h
    exact h.symm

/-- The channel that plays and the other one, whichever slot it is. -/
theorem Steady.linkedAt (h : Steady len pole history d) (m : Nat) :
    d.engine.Linked (d.channelOf (m % 2)) (d.channelOf ((m + 1) % 2)) := by
  obtain hm | hm : m % 2 = 0 ∨ m % 2 = 1 := by omega
  · rw [hm, show (m + 1) % 2 = 1 by omega]
    exact h.linked
  · rw [hm, show (m + 1) % 2 = 0 by omega]
    exact h.linked.symm

theorem Running.running? (h : Running len pole history d m w) :
    d.engine.running? = some (d.channelOf (m % 2)) :=
  (h.linkedAt m).running? h.reads.busy h.armed.stopped

/-! ### Nothing that playback depends on -/

theorem Steady.alike {t : Deck} (h : Steady len pole history d) (ht : d.toDeck.Alike t) :
    Steady len pole history { d with toDeck := t } := by
  obtain ⟨⟨_, _, mailbox⟩, _, held, ⟨_, _, _, _, _, _, _, _, _⟩, notices⟩ := t
  obtain ⟨rfl, rfl, rfl, rfl, rfl, rfl, rfl, rfl, rfl⟩ := ht
  exact ⟨h.shaped, ⟨h.linked.ne, h.linked.others, h.linked.first, h.linked.second,
    h.linked.pending⟩, h.frames, h.commits, h.overruns, h.tagMismatches⟩

theorem Preroll.alike {t : Deck} (h : Preroll len pole history holding d) (ht : d.toDeck.Alike t) :
    Preroll len pole history holding { d with toDeck := t } := by
  have hsteady := h.toSteady.alike ht
  obtain ⟨⟨_, _, mailbox⟩, _, held, ⟨_, _, _, _, _, _, _, _, _⟩, notices⟩ := t
  obtain ⟨rfl, rfl, rfl, rfl, rfl, rfl, rfl, rfl, rfl⟩ := ht
  exact ⟨hsteady, h.first, h.second, h.played, h.hardwareWords, h.irqs, h.underruns, h.playing,
    h.loading⟩

theorem Running.alike {t : Deck} (h : Running len pole history d m w) (ht : d.toDeck.Alike t) :
    Running len pole history { d with toDeck := t } m w := by
  have hsteady := h.toSteady.alike ht
  have hdeck : t.Playing len (block len pole history) m w := h.deck.same ht.played ht.hardwareWords
  obtain ⟨⟨_, _, mailbox⟩, _, held, ⟨_, _, _, _, _, _, _, _, _⟩, notices⟩ := t
  obtain ⟨rfl, rfl, rfl, rfl, rfl, rfl, rfl, rfl, rfl⟩ := ht
  exact ⟨hsteady, h.many, h.playing, h.reads, h.armed, h.draining, h.words, hdeck, h.irqs,
    h.underruns⟩

theorem Live.alike {t : Deck} (h : Live len pole history d m w) (ht : d.toDeck.Alike t) :
    Live len pole history { d with toDeck := t } m w :=
  ⟨h.toRunning.alike ht, h.filling, ⟨h.next.state, h.next.words⟩, h.queue⟩

theorem Held.alike {t : Deck} (h : Held len pole history d m w) (ht : d.toDeck.Alike t) :
    Held len pole history { d with toDeck := t } m w :=
  ⟨h.toRunning.alike ht, h.waiting, h.turn, h.filling, h.target⟩

end Chained

end ConsolePipeline.Playback
