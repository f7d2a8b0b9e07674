import Mathlib.Data.List.Basic
import ConsolePipeline.Playback.Deck
import ConsolePipeline.Proofs.Run

namespace ConsolePipeline.Playback

open Stereo

/-!
# What the slot operations do

Each operation is described by its effect on two views of the table, the owner of a slot (`state?`)
and its words, for the states in which the operation is allowed.

* `Slots.Shaped` — a table of so many slots of equal length.
* `Slots.beginFill_ok`, `overwrite_ok`, `finishFill_ok`, `beginDrain_ok`, `finishDrain_ok`,
  `duplicate_ok` — the operations.
* `finishedSlot_agreed` — a completion whose tag is that of the slot software had started.
* `overlay`, `afterglow` — the words that writing and draining leave in a slot.
-/

/-- Words put over the start of others; what does not fit is left out. -/
def overlay (words old : Array Word) : Array Word :=
  words.extract 0 old.size ++ old.extract words.size old.size

@[simp] theorem size_overlay (words old : Array Word) : (overlay words old).size = old.size := by
  simp only [overlay, Array.size_append, Array.size_extract]
  omega

theorem overlay_of_size_eq {words old : Array Word} (h : words.size = old.size) :
    overlay words old = words := by
  simp [overlay, ← h]

/-- The decay that follows words once heard, as long as they were. -/
def afterglow (pole : Nat) (words : Array Word) : Array Word :=
  fade (left (words.back?.getD silence)) pole words.size

@[simp] theorem size_afterglow (pole : Nat) (words : Array Word) :
    (afterglow pole words).size = words.size := by
  rw [afterglow, size_fade]

@[simp] theorem size_padded (words : Array Word) (count : Nat) (fallback : Word) :
    (padded words count fallback).1.size = words.size := by
  simp only [padded, Array.size_append, Array.size_extract, Array.size_replicate]
  omega

/-- A frame that is given in full is not padded. -/
theorem padded_of_size_le {words : Array Word} {count : Nat} (h : words.size ≤ count)
    (fallback : Word) : (padded words count fallback).1 = words := by
  simp [padded, Nat.min_eq_right h]

namespace Slots

variable {s : Slots} {i j count len pole : Nat} {state : SlotState}

/-- The table has `count` slots of `len` words each. -/
structure Shaped (s : Slots) (count len pole : Nat) : Prop where
  states_size : s.states.size = count
  memory_size : s.memory.size = count
  words_size : ∀ i < count, (s.words i).size = len
  pole : s.pole = pole

/-! ### Views -/

@[simp] theorem state?_setWords (i j : Nat) (words : Array Word) (s : Slots) :
    (s.setWords i words).state? j = s.state? j := rfl

theorem state?_setState_self (h : s.Shaped count len pole) (hi : i < count) (state : SlotState) :
    (s.setState i state).state? i = some state := by
  show (s.states.setIfInBounds i state)[i]? = some state
  rw [Array.getElem?_setIfInBounds_self_of_lt (by rw [h.states_size]; exact hi)]

/-- There is no slot past the last one. -/
theorem state?_eq_none (h : s.Shaped count len pole) (hi : count ≤ i) : s.state? i = none := by
  rw [state?, Array.getElem?_eq_none]
  rw [h.states_size]
  exact hi

theorem lt_of_state? (h : s.Shaped count len pole) (hi : s.state? i = some state) : i < count := by
  by_contra hge
  rw [state?_eq_none h (Nat.le_of_not_lt hge)] at hi
  cases hi

theorem state?_setState_ne (s : Slots) (state : SlotState) (hij : i ≠ j) :
    (s.setState i state).state? j = s.state? j :=
  Array.getElem?_setIfInBounds_ne hij

theorem words_setWords_self (h : s.Shaped count len pole) (hi : i < count) (words : Array Word) :
    (s.setWords i words).words i = words := by
  show (s.memory.setIfInBounds i words).getD i #[] = words
  have hsize : i < s.memory.size := by rw [h.memory_size]; exact hi
  simp [Array.getD, hsize]

theorem words_setWords_ne (s : Slots) (words : Array Word) (hij : i ≠ j) :
    (s.setWords i words).words j = s.words j := by
  show (s.memory.setIfInBounds i words).getD j #[] = s.memory.getD j #[]
  simp only [Array.getD_eq_getD_getElem?, Array.getElem?_setIfInBounds_ne hij]

/-- A slot whose words are all replaced holds the new ones. -/
theorem words_overwritten (h : s.Shaped count len pole) (hi : i < count) {words : Array Word}
    (hwords : words.size = len) : (s.setWords i (overlay words (s.words i))).words i = words := by
  rw [words_setWords_self h hi, overlay_of_size_eq (hwords.trans (h.words_size i hi).symm)]

/-- The place that is held shows the words written to it. -/
theorem place_overwritten (h : s.Shaped count len pole) (hi : i < count) {words : Array Word}
    {held : Option Nat} (hheld : held = some i) (hwords : words.size = len) :
    held.map (s.setWords i (overlay words (s.words i))).words = some words := by
  rw [hheld, Option.map_some, words_overwritten h hi hwords]

theorem memory_eq_some_words (h : s.Shaped count len pole) (hi : i < count) :
    s.memory[i]? = some (s.words i) := by
  have hsize : i < s.memory.size := by rw [h.memory_size]; exact hi
  rw [Array.getElem?_eq_getElem hsize, words, Array.getD_eq_getD_getElem?,
    Array.getElem?_eq_getElem hsize, Option.getD_some]

/-- The slot that software holds is the one that it is writing. -/
theorem held_of_some {held : Option Nat} (hheld : held = some i)
    (hstate : s.state? i = some .filling) : ∀ j, held = some j → s.state? j = some .filling := by
  intro j hj
  obtain rfl : i = j := Option.some.inj (hheld.symm.trans hj)
  exact hstate

theorem held_of_none {held : Option Nat} (hheld : held = none) :
    ∀ j, held = some j → s.state? j = some .filling := by
  intro j hj
  rw [hheld] at hj
  cases hj

/-! ### Shape -/

theorem Shaped.setState (h : s.Shaped count len pole) (i : Nat) (state : SlotState) :
    (s.setState i state).Shaped count len pole := by
  refine ⟨?_, h.memory_size, h.words_size, h.pole⟩
  show (s.states.setIfInBounds i state).size = count
  rw [Array.size_setIfInBounds, h.states_size]

theorem Shaped.setWords (h : s.Shaped count len pole) {words : Array Word}
    (hwords : words.size = len) (i : Nat) : (s.setWords i words).Shaped count len pole := by
  refine ⟨h.states_size, ?_, ?_, h.pole⟩
  · show (s.memory.setIfInBounds i words).size = count
    rw [Array.size_setIfInBounds, h.memory_size]
  · intro j hj
    by_cases hij : i = j
    · subst hij
      rw [words_setWords_self h hj, hwords]
    · rw [words_setWords_ne s words hij, h.words_size j hj]

theorem Shaped.slotLength (h : s.Shaped count len pole) (hcount : 0 < count) :
    s.slotLength = len := by
  rw [Slots.slotLength, memory_eq_some_words h hcount, Option.map_some, Option.getD_some,
    h.words_size 0 hcount]

theorem shaped_new (count len pole : Nat) : (Slots.new count len pole).Shaped count len pole := by
  refine ⟨Array.size_replicate, Array.size_replicate, ?_, rfl⟩
  intro i hi
  show ((Array.replicate count (Array.replicate len silence)).getD i #[]).size = len
  simp [Array.getD, hi]

theorem state?_new {count : Nat} (hi : i < count) (len pole : Nat) :
    (Slots.new count len pole).state? i = some .free := by
  show (Array.replicate count SlotState.free)[i]? = some .free
  simp [hi]

theorem countIn_eq {a b : SlotState} (h : s.Shaped 2 len pole) (ha : s.state? 0 = some a)
    (hb : s.state? 1 = some b) (state : SlotState) :
    s.countIn state = (if a = state then 1 else 0) + (if b = state then 1 else 0) := by
  obtain ⟨⟨states⟩, memory, pole'⟩ := s
  have hsize : states.length = 2 := h.states_size
  obtain ⟨x, y, rfl⟩ := List.length_eq_two.mp hsize
  obtain rfl : x = a := Option.some.inj ha
  obtain rfl : y = b := Option.some.inj hb
  show (#[x, y] : Array SlotState).count state = _
  simp only [List.count_toArray, List.count_cons, List.count_nil, beq_iff_eq]
  omega

/-! ### Operations -/

theorem owner_ok (h : s.state? i = some state) : owner i s = .ok state s := by
  rw [owner, h]

theorem beginFill_ok (h : s.state? i = some state) (hstate : state = .free ∨ state = .ready) :
    beginFill i s = .ok (decide (state = .ready)) (s.setState i .filling) := by
  rw [beginFill, Run.bind_ok (owner_ok h), if_pos hstate, Run.modify_bind]
  rfl

theorem overwrite_ok (h : s.state? i = some .filling) (words : Array Word) :
    overwrite i words s = .ok () (s.setWords i (overlay words (s.words i))) := by
  rw [overwrite, Run.bind_ok (owner_ok h), if_pos rfl]
  rfl

theorem finishFill_ok (h : s.state? i = some .filling) :
    finishFill i s = .ok () (s.setState i .ready) := by
  rw [finishFill, Run.bind_ok (owner_ok h), if_pos rfl]
  rfl

theorem beginDrain_ok (h : s.state? i = some state) (hstate : state = .ready ∨ state = .free) :
    beginDrain i s = .ok (decide (state = .free)) (s.setState i .draining) := by
  rw [beginDrain, Run.bind_ok (owner_ok h), if_pos hstate, Run.modify_bind]
  rfl

/-- A slot that software is writing is not drained. -/
theorem beginDrain_error (h : s.state? i = some .filling) :
    beginDrain i s = .error (.notDrainable i .filling) s := by
  rw [beginDrain, Run.bind_ok (owner_ok h), if_neg (by decide)]
  rfl

/-- A drained slot is free and holds the decay of what it held. -/
theorem finishDrain_ok (h : s.state? i = some .draining) :
    finishDrain i s =
      .ok () ((s.setWords i (afterglow s.pole (s.words i))).setState i .free) := by
  rw [finishDrain, Run.bind_ok (owner_ok h), if_pos rfl]
  rfl

theorem duplicate_ok (h : s.state? i = some .ready) (hother : s.state? j = some state)
    (hstate : state = .free ∨ state = .ready) :
    duplicate i j s = .ok () ((s.setWords j (s.words i)).setState j .ready) := by
  rw [duplicate, Run.bind_ok (owner_ok h), if_pos rfl, Run.bind_ok (owner_ok hother),
    if_pos hstate]
  rfl

end Slots

/-- A completion that bears the tag of the slot software had started has read that slot. -/
theorem finishedSlot_agreed {s : Slots} {slot : Nat} (h : slot < s.count) :
    finishedSlot (some slot) (some slot) s = (some slot, false) := by
  simp [finishedSlot, Option.filter, h]

end ConsolePipeline.Playback
