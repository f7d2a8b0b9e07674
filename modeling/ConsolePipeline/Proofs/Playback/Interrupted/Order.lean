import ConsolePipeline.Proofs.Playback.Loading

namespace ConsolePipeline.Playback

open Stereo

/-!
# Time at any moment: what should hold

Hardware time may also pass while software holds a slot. Whatever a strategy makes of that, what it
plays is accounted for block by block, and it reads no slot but one that is given to the hardware.

* `Block.Owed`, `Accounted` — every block that has begun is a frame handed over before, or a decay
  that counts as an underrun.
* `Orderly` — the hardware reads the slot that is drained; `Overtaken` — it has come to the slot
  that software fills.
* `wordsBefore` — how far off that is; `Call.Within` — a call that does not let it happen.
* `Port.Throughout` — a condition on every call of a run; `Port.perform_throughout` — runs that may
  stop, and that fail exactly where a call breaks the condition.
-/

/-! ### Conditions on the calls of a run -/

namespace Port

variable {σ : Type} {P : Port σ} {d : σ} {history : List Commit}

/-- **Every call of a run is made in a state that admits it.** -/
def Throughout (P : Port σ) (admits : Call → σ → Prop) : List Call → σ → Prop
  | [], _ => True
  | c :: rest, d => admits c d ∧ ∀ d', P.call c d = .ok () d' → P.Throughout admits rest d'

end Port

/-- A call that lets fewer words pass than there are before the hardware comes to a slot that it
    must not read, if it comes to one. -/
def Call.Within (leeway : Option Nat) : Call → Prop
  | .advance n => ∀ k, leeway = some k → n < k
  | _ => True

/-! ### What is played -/

/-- **Where block `n` may come from** if there are `count` slots: a frame, or a copy of one, was
    handed over before the block began; a decay follows one of the last `count` blocks. -/
def Block.Owed (count len pole : Nat) (history : List Commit) (blocks : Nat → Block) (n : Nat) :
    Block → Prop
  | .frame words => ∃ c ∈ history, c.frame = words ∧ c.entry ≤ n * len
  | .copy words => ∃ c ∈ history, c.frame = words ∧ c.entry ≤ n * len
  | .fade words => ∃ k < n, n ≤ k + count ∧ words = afterglow pole (blocks k).words

/-- How many blocks have begun: those whose end has been served, and one more while a slot is
    drained. -/
def blocksBegun (d : Deck) (s : Slots) : Nat :=
  d.stats.irqs + if .draining ∈ s.states then 1 else 0

/-- **What has been played is accounted for:** it is the opening of a stream of blocks as they may
    be, of which so many are decays as underruns have been counted. -/
structure Accounted (len pole : Nat) (history : List Commit) (d : Deck) (s : Slots) : Prop where
  blocks : ∃ blocks : Nat → Block,
    d.played.toList = opening (blockWord len blocks) d.played.size ∧
    d.stats.underruns = fadeCount blocks (blocksBegun d s) ∧
    ∀ n < blocksBegun d s, (blocks n).Owed s.count len pole history blocks n
  served : d.stats.irqs * len ≤ d.played.size
  heard : d.played.size ≤ blocksBegun d s * len

/-- **The hardware keeps to its slot:** a channel that runs reads a slot that is drained, which is
    one at most and not the one that software fills. -/
structure Orderly (len pole : Nat) (history : List Commit) (d : Deck) (s : Slots)
    (filling : Option Nat) : Prop where
  reads : ∀ ch : ChannelId, (d.engine.channel ch).busy = true →
    s.state? (regionOf (d.engine.channel ch).readAddr) = some .draining
  alone : ∀ i j, s.state? i = some .draining → s.state? j = some .draining → i = j
  held : ∀ slot, filling = some slot → s.state? slot = some .filling
  accounted : Accounted len pole history d s

/-- **The hardware has come to the slot that software fills.** All blocks before have been played to
    their end, and no slot is drained any more. -/
structure Overtaken (len pole : Nat) (history : List Commit) (slot : Nat) (d : Deck) (s : Slots)
    (filling : Option Nat) : Prop where
  held : filling = some slot
  filled : s.state? slot = some .filling
  none : ∀ i, s.state? i ≠ some .draining
  accounted : Accounted len pole history d s

section Accounted

variable {d : Deck} {s : Slots} {len pole m w slot : Nat} {history : List Commit}
  {blocks : Nat → Block}

theorem blocksBegun_of_draining (h : s.state? slot = some .draining) :
    blocksBegun d s = d.stats.irqs + 1 := by
  rw [blocksBegun, if_pos (Array.mem_iff_getElem?.mpr ⟨slot, h⟩)]

theorem blocksBegun_of_none (h : ∀ i, s.state? i ≠ some .draining) :
    blocksBegun d s = d.stats.irqs := by
  rw [blocksBegun, if_neg, Nat.add_zero]
  intro hmem
  obtain ⟨i, hi⟩ := Array.mem_iff_getElem?.mp hmem
  exact h i hi

/-- While a block is played, it is the last one that has begun. -/
theorem Accounted.of_playing (h : d.Playing len blocks m w) (hirqs : d.stats.irqs = m)
    (hdraining : s.state? slot = some .draining)
    (hunderruns : d.stats.underruns = fadeCount blocks (m + 1))
    (howed : ∀ n ≤ m, (blocks n).Owed s.count len pole history blocks n) :
    Accounted len pole history d s := by
  have hbegun : blocksBegun d s = m + 1 := by
    rw [blocksBegun_of_draining hdraining, hirqs]
  have hword := h.word
  refine ⟨⟨blocks, h.played, ?_, fun n hn => ?_⟩, ?_, ?_⟩
  · rw [hbegun, hunderruns]
  · rw [hbegun] at hn
    exact howed n (Nat.lt_succ_iff.mp hn)
  · rw [hirqs, h.size]
    exact Nat.le_add_right _ _
  · rw [hbegun, h.size, Nat.succ_mul]
    omega

/-- Between two blocks, the one before is the last one that has begun. -/
theorem Accounted.of_between (h : d.Playing len blocks m 0) (hirqs : d.stats.irqs = m)
    (hnone : ∀ i, s.state? i ≠ some .draining)
    (hunderruns : d.stats.underruns = fadeCount blocks m)
    (howed : ∀ n < m, (blocks n).Owed s.count len pole history blocks n) :
    Accounted len pole history d s := by
  have hbegun : blocksBegun d s = m := by
    rw [blocksBegun_of_none hnone, hirqs]
  have hsize : d.played.size = m * len := h.size
  refine ⟨⟨blocks, h.played, ?_, fun n hn => ?_⟩, ?_, ?_⟩
  · rw [hbegun, hunderruns]
  · rw [hbegun] at hn
    exact howed n hn
  · exact Nat.le_of_eq (by rw [hirqs, hsize])
  · exact Nat.le_of_eq (by rw [hbegun, hsize])

/-- Before playback no block has begun. -/
theorem Accounted.of_silent (hlen : 0 < len) (hplayed : d.played = #[])
    (hwords : d.stats.hardwareWords = 0) (hirqs : d.stats.irqs = 0)
    (hunderruns : d.stats.underruns = 0) (hnone : ∀ i, s.state? i ≠ some .draining) :
    Accounted len pole history d s :=
  .of_between (Deck.playing_start hlen hplayed hwords fun _ => .fade #[]) hirqs hnone hunderruns
    fun _ hn => absurd hn (Nat.not_lt_zero _)

/-- While nothing runs and no slot is drained, there is nothing that could be misread. -/
theorem Orderly.of_idle {filling : Option Nat}
    (hidle : ∀ c : ChannelId, (d.engine.channel c).busy = false)
    (hnone : ∀ i, s.state? i ≠ some .draining)
    (hheld : ∀ slot, filling = some slot → s.state? slot = some .filling)
    (haccounted : Accounted len pole history d s) : Orderly len pole history d s filling where
  reads ch hbusy := by
    rw [hidle ch] at hbusy
    cases hbusy
  alone i _ hi _ := absurd hi (hnone i)
  held := hheld
  accounted := haccounted

/-- One channel runs, through the one slot that is drained. -/
theorem Orderly.of_reads {ch : ChannelId} {filling : Option Nat}
    (hreads : (d.engine.channel ch).Reads slot w len) (hslot : slot < 4096) (hw : w < regionWords)
    (hothers : ∀ c : ChannelId, c ≠ ch → (d.engine.channel c).busy = false)
    (hdraining : ∀ i, s.state? i = some .draining ↔ i = slot)
    (hheld : ∀ slot, filling = some slot → s.state? slot = some .filling)
    (haccounted : Accounted len pole history d s) : Orderly len pole history d s filling where
  reads c hbusy := by
    obtain rfl : c = ch := by
      by_contra hne
      rw [hothers c hne] at hbusy
      cases hbusy
    rw [hreads.readAddr, regionOf_regionAddress hslot hw]
    exact (hdraining slot).mpr rfl
  alone i j hi hj := ((hdraining i).mp hi).trans ((hdraining j).mp hj).symm
  held := hheld
  accounted := haccounted

end Accounted

/-! ### The first frame -/

/-- The first frame was handed over before anything was played. -/
def Begins (history : List Commit) : Prop :=
  ∀ c, history.head? = some c → c.entry = 0

theorem Begins.nil : Begins [] := by
  intro c hc
  cases hc

/-- It stays the first frame whatever is handed over later. -/
theorem Begins.append {σ : Type} {P : Port σ} {c : Call} {d d' : σ} {history : List Commit}
    (h : Begins history) (hsilent : history = [] → (P.deck d).played.size = 0) :
    Begins (history ++ P.noted c d d') := by
  intro b hb
  cases history with
  | nil =>
    -- The first frame is the one that this call hands over.
    have hmem : b ∈ P.noted c d d' := List.mem_of_mem_head? hb
    rw [Port.entry_of_mem_noted hmem]
    exact hsilent rfl
  | cons a rest => exact h b hb

/-- A frame that is due has been handed over before its block begins. -/
theorem Begins.entry_le_of_due {len n : Nat} {history : List Commit} {c : Commit}
    (h : Begins history) (hdue : due len history n = some c) : c.entry ≤ n * len := by
  cases n with
  | zero =>
    rw [h c hdue]
    exact Nat.zero_le _
  | succ n =>
    obtain ⟨-, hlt⟩ := Option.filter_eq_some_iff.mp hdue
    exact Nat.le_of_lt (of_decide_eq_true hlt)

/-! ### How far off the slot that software fills is -/

/-- **The words before the hardware comes to the slot that software fills,** if it takes the slots
    in turn: what is left of the one that plays, and those in between. -/
def wordsBefore (d : Deck) (s : Slots) (playing filling : Option Nat) : Option Nat := do
  let ch ← d.engine.running?
  let current ← playing
  let next ← filling
  return (d.engine.channel ch).remaining +
    (next + s.count - 1 - current) % s.count * s.slotLength

section WordsBefore

variable {d : Deck} {s : Slots} {playing filling : Option Nat}

@[simp] theorem wordsBefore_not_filling (d : Deck) (s : Slots) (playing : Option Nat) :
    wordsBefore d s playing none = none := by
  cases hrun : d.engine.running? <;> cases playing <;> simp [wordsBefore, hrun]

@[simp] theorem wordsBefore_not_playing (d : Deck) (s : Slots) (filling : Option Nat) :
    wordsBefore d s none filling = none := by
  cases hrun : d.engine.running? <;> simp [wordsBefore, hrun]

theorem wordsBefore_eq {ch : ChannelId} {count len pole slot next w : Nat}
    (hrun : d.engine.running? = some ch) (hreads : (d.engine.channel ch).Reads slot w len)
    (hshaped : s.Shaped count len pole) (hcount : 0 < count) :
    wordsBefore d s (some slot) (some next) =
      some (len - w + (next + count - 1 - slot) % count * len) := by
  have hsize : s.count = count := hshaped.memory_size
  have hlength : s.slotLength = len := hshaped.slotLength hcount
  have hremaining : (d.engine.channel ch).remaining = len - w := hreads.remaining
  simp only [wordsBefore, hrun, hsize, hlength, hremaining, Option.bind_eq_bind, Option.bind_some,
    Option.pure_def]

end WordsBefore

/-- A call is in time if the hardware comes to no slot that it must not read. -/
theorem Call.within_none (c : Call) : c.Within none := by
  cases c with
  | advance n => exact fun k hk => absurd hk (Option.some_ne_none k).symm
  | acquire => trivial
  | write words => trivial
  | commit count => trivial

theorem Call.within_advance {n k : Nat} : (Call.advance n).Within (some k) ↔ n < k :=
  ⟨fun h => h k rfl, fun h _ hk => Option.some.inj hk ▸ h⟩

end ConsolePipeline.Playback
