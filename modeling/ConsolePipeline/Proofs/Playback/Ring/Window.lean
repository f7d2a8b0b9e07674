import Mathlib.Data.Nat.ModEq
import ConsolePipeline.Playback.Ring
import ConsolePipeline.Proofs.Playback.Score

namespace ConsolePipeline.Playback

open Stereo

/-!
# The window that a ring shows of a stream

A ring holds as many words of an unbounded stream as fit: those from some position on. Positions
count without wrapping, and a position is found in the ring at its remainder.

* `ringAt` — the word that a ring holds for a position.
* `ringAt_silenceWrapped_of_mem`, `ringAt_writeWrapped_of_mem` and their counterparts — what
  silencing and writing do to a position.
* `Shows` — the ring holds the words of a stream from a position on; `Shows.pass`, `write`, `cut`
  move and change the window.
-/

/-- The word that a ring holds for a position. -/
def ringAt (ring : Array Word) (i : Nat) : Word :=
  ring.getD (i % ring.size) silence

variable {ring words : Array Word} {pos n i j : Nat}

/-! ### One position -/

/-- Two positions less than a lap apart are in different places. -/
theorem mod_ne_of_ne (hne : i ≠ j) (hij : i < j + n) (hji : j < i + n) : i % n ≠ j % n := by
  intro hmod
  rcases Nat.lt_or_gt_of_ne hne with hlt | hgt
  · have hzero := Nat.sub_mod_eq_zero_of_mod_eq hmod.symm
    rw [Nat.mod_eq_of_lt (by omega)] at hzero
    omega
  · have hzero := Nat.sub_mod_eq_zero_of_mod_eq hmod
    rw [Nat.mod_eq_of_lt (by omega)] at hzero
    omega

/-- A lap later, a position is in the same place. -/
theorem ringAt_add_size (ring : Array Word) (i : Nat) :
    ringAt ring (i + ring.size) = ringAt ring i := by
  rw [ringAt, Nat.add_mod_right, ringAt]

theorem ringAt_set_self (h : 0 < ring.size) (w : Word) :
    ringAt (ring.setIfInBounds (pos % ring.size) w) pos = w := by
  have hlt : pos % ring.size < ring.size := Nat.mod_lt pos h
  rw [ringAt, Array.size_setIfInBounds, Array.getD_eq_getD_getElem?,
    Array.getElem?_setIfInBounds_self_of_lt hlt, Option.getD_some]

theorem ringAt_set_ne (hne : pos % ring.size ≠ i % ring.size) (w : Word) :
    ringAt (ring.setIfInBounds (pos % ring.size) w) i = ringAt ring i := by
  rw [ringAt, ringAt, Array.size_setIfInBounds, Array.getD_eq_getD_getElem?,
    Array.getD_eq_getD_getElem?, Array.getElem?_setIfInBounds_ne hne]

/-! ### Silencing -/

@[simp] theorem size_silenceWrapped (n pos : Nat) (ring : Array Word) :
    (silenceWrapped n pos ring).size = ring.size := by
  induction n generalizing pos ring with
  | zero => rfl
  | succ n ih => rw [silenceWrapped, ih, Array.size_setIfInBounds]

theorem ringAt_silenceWrapped_of_ne (h : ∀ k < n, (pos + k) % ring.size ≠ i % ring.size) :
    ringAt (silenceWrapped n pos ring) i = ringAt ring i := by
  induction n generalizing pos ring with
  | zero => rfl
  | succ n ih =>
    rw [silenceWrapped, ih, ringAt_set_ne (by exact h 0 (Nat.succ_pos n))]
    intro k hk
    rw [Array.size_setIfInBounds, Nat.add_assoc, Nat.add_comm 1 k]
    exact h (k + 1) (by omega)

theorem ringAt_silenceWrapped_of_mem (hn : n ≤ ring.size) (hle : pos ≤ i) (hlt : i < pos + n) :
    ringAt (silenceWrapped n pos ring) i = silence := by
  induction n generalizing pos ring with
  | zero => omega
  | succ n ih =>
    rw [silenceWrapped]
    by_cases hi : i = pos
    · subst hi
      rw [ringAt_silenceWrapped_of_ne, ringAt_set_self (by omega)]
      intro k hk
      rw [Array.size_setIfInBounds]
      exact mod_ne_of_ne (by omega) (by omega) (by omega)
    · exact ih (by rw [Array.size_setIfInBounds]; omega) (by omega) (by omega)

/-! ### Writing -/

@[simp] theorem size_writeWrapped (words : Array Word) (pos : Nat) (ring : Array Word) :
    (writeWrapped words pos ring).size = ring.size := by
  have hgo : ∀ n ring, (writeWrapped.go words pos n ring).size = ring.size := by
    intro n
    induction n with
    | zero => exact fun _ => rfl
    | succ n ih =>
      intro ring
      rw [writeWrapped.go, ih, Array.size_setIfInBounds]
  exact hgo _ _

/-- The last `n` words do not reach a position that is not theirs. -/
theorem ringAt_go_of_ne (hn : n ≤ words.size)
    (h : ∀ k < words.size, (pos + k) % ring.size ≠ i % ring.size) :
    ringAt (writeWrapped.go words pos n ring) i = ringAt ring i := by
  induction n generalizing ring with
  | zero => rfl
  | succ n ih =>
    rw [writeWrapped.go, ih (by omega), ringAt_set_ne (h _ (by omega))]
    rw [Array.size_setIfInBounds]
    exact h

/-- The last `n` words, each at its place. -/
theorem ringAt_go_of_mem (hn : n ≤ words.size) (hsize : words.size ≤ ring.size)
    (hle : words.size - n ≤ j) (hlt : j < words.size) :
    ringAt (writeWrapped.go words pos n ring) (pos + j) = words.getD j silence := by
  -- The words that are still to come lie at other places of the ring, so a word stays once it is
  -- written.
  have hgo : ∀ n ring, words.size ≤ ring.size → j < words.size - n →
      ringAt (writeWrapped.go words pos n ring) (pos + j) = ringAt ring (pos + j) := by
    intro n
    induction n with
    | zero => exact fun _ _ _ => rfl
    | succ n ih =>
      intro ring hsize hj
      rw [writeWrapped.go, ih _ (by rw [Array.size_setIfInBounds]; exact hsize) (by omega),
        ringAt_set_ne (mod_ne_of_ne (by omega) (by omega) (by omega))]
  induction n generalizing ring with
  | zero => omega
  | succ n ih =>
    rw [writeWrapped.go]
    by_cases hj : j = words.size - (n + 1)
    · rw [hgo n _ (by rw [Array.size_setIfInBounds]; exact hsize) (by omega), ← hj,
        ringAt_set_self (by omega)]
    · exact ih (by omega) (by rw [Array.size_setIfInBounds]; exact hsize) (by omega)

theorem ringAt_writeWrapped_of_ne (h : ∀ k < words.size, (pos + k) % ring.size ≠ i % ring.size) :
    ringAt (writeWrapped words pos ring) i = ringAt ring i :=
  ringAt_go_of_ne (Nat.le_refl _) h

theorem ringAt_writeWrapped_of_mem (hsize : words.size ≤ ring.size) (hlt : j < words.size) :
    ringAt (writeWrapped words pos ring) (pos + j) = words.getD j silence :=
  ringAt_go_of_mem (Nat.le_refl _) hsize (by omega) hlt

/-! ### Windows -/

/-- **The ring shows a stream** from a position on: it holds the words of one lap. -/
def Shows (ring : Array Word) (stream : Nat → Word) (pos : Nat) : Prop :=
  ∀ i, pos ≤ i → i < pos + ring.size → ringAt ring i = stream i

variable {stream : Nat → Word} {a : Nat}

theorem Shows.congr {stream' : Nat → Word} (h : Shows ring stream a)
    (heq : ∀ i, a ≤ i → i < a + ring.size → stream i = stream' i) : Shows ring stream' a :=
  fun i hle hlt => (h i hle hlt).trans (heq i hle hlt)

/-- **The window moves on** over words that are silenced behind it, if silence follows. -/
theorem Shows.pass (h : Shows ring stream a) (hn : n ≤ ring.size)
    (hsilent : ∀ i, a + ring.size ≤ i → stream i = silence) :
    Shows (silenceWrapped n a ring) stream (a + n) := by
  intro i hle hlt
  rw [size_silenceWrapped] at hlt
  by_cases hi : i < a + ring.size
  · rw [ringAt_silenceWrapped_of_ne, h i (by omega) hi]
    exact fun k hk => mod_ne_of_ne (by omega) (by omega) (by omega)
  · -- A position of the next lap, in the place of a word that has been passed.
    obtain ⟨k, rfl⟩ : ∃ k, i = k + ring.size := ⟨i - ring.size, by omega⟩
    have hsame := ringAt_add_size (silenceWrapped n a ring) k
    rw [size_silenceWrapped] at hsame
    rw [hsame, ringAt_silenceWrapped_of_mem hn (by omega) (by omega), hsilent _ (by omega)]

/-- Words put into a stream at a position. -/
def splice (stream : Nat → Word) (pos : Nat) (words : Array Word) (i : Nat) : Word :=
  if pos ≤ i ∧ i < pos + words.size then words.getD (i - pos) silence else stream i

/-- **Words written inside the window.** -/
theorem Shows.write (h : Shows ring stream a) (hle : a ≤ pos)
    (hfit : pos + words.size ≤ a + ring.size) :
    Shows (writeWrapped words pos ring) (splice stream pos words) a := by
  intro i hi hlt
  rw [size_writeWrapped] at hlt
  by_cases hin : pos ≤ i ∧ i < pos + words.size
  · obtain ⟨j, rfl⟩ := Nat.exists_eq_add_of_le hin.1
    rw [splice, if_pos hin, ringAt_writeWrapped_of_mem (by omega) (by omega),
      Nat.add_sub_cancel_left]
  · rw [splice, if_neg hin, ringAt_writeWrapped_of_ne, h i hi hlt]
    exact fun k hk => mod_ne_of_ne (by omega) (by omega) (by omega)

/-- A stream up to a position, and silence from there on. -/
def cut (stream : Nat → Word) (pos i : Nat) : Word :=
  if i < pos then stream i else silence

/-- **The rest of the window silenced.** -/
theorem Shows.cut (h : Shows ring stream a) (hle : a ≤ pos) (hend : pos + n = a + ring.size) :
    Shows (silenceWrapped n pos ring) (cut stream pos) a := by
  intro i hi hlt
  rw [size_silenceWrapped] at hlt
  by_cases hin : i < pos
  · rw [Playback.cut, if_pos hin, ringAt_silenceWrapped_of_ne, h i hi hlt]
    exact fun k hk => mod_ne_of_ne (by omega) (by omega) (by omega)
  · rw [Playback.cut, if_neg hin,
      ringAt_silenceWrapped_of_mem (by omega) (by omega) (by omega)]

/-- **Reading:** the words from the place of the window's first word on, as far as the ring goes. -/
theorem Shows.extract (h : Shows ring stream a) (hn : a % ring.size + n ≤ ring.size) :
    (ring.extract (a % ring.size) (a % ring.size + n)).toList =
      (List.range n).map fun i => stream (a + i) := by
  have hlength : (ring.extract (a % ring.size) (a % ring.size + n)).toList.length = n := by
    rw [Array.length_toList, Array.size_extract]
    omega
  apply List.ext_getElem
  · rw [hlength, List.length_map, List.length_range]
  · intro i hi _
    rw [hlength] at hi
    have hplace : (a + i) % ring.size = a % ring.size + i := by
      rw [Nat.add_mod, Nat.mod_eq_of_lt (by omega : i < ring.size), Nat.mod_eq_of_lt (by omega)]
    rw [List.getElem_map, List.getElem_range, ← h (a + i) (by omega) (by omega), ringAt, hplace,
      Array.getElem_toList, Array.getElem_extract, Array.getD_eq_getD_getElem?,
      Array.getElem?_eq_getElem (by omega), Option.getD_some]

end ConsolePipeline.Playback
