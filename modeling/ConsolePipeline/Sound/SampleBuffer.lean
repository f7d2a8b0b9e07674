namespace ConsolePipeline.Sound

/-!
# Sample buffers

A sound chip writes one frame of mono samples into a buffer of fixed capacity. Clearing rewinds the
length and keeps the storage, so whoever reads by a separately published count sees what each place
last held.

* `SampleBuffer.push`, `clear`, `live` — the operations and the view.
* `live_push`, `push_of_isFull` — a push appends to the view, or leaves a full buffer alone.
-/

/-- Mono samples a chip can leave in one frame; more are dropped. -/
def bufferCapacity : Nat := 4096

/-- Storage of fixed size, of which the first `length` places are live. -/
structure SampleBuffer where
  storage : Array Int16
  length : Nat
  length_le : length ≤ storage.size
  deriving DecidableEq

namespace SampleBuffer

/-- An empty buffer whose storage holds zeros. -/
def ofCapacity (n : Nat) : SampleBuffer :=
  ⟨Array.replicate n 0, 0, Nat.zero_le _⟩

/-- An empty buffer of the usual capacity. -/
def empty : SampleBuffer :=
  ofCapacity bufferCapacity

instance : Inhabited SampleBuffer := ⟨empty⟩

def capacity (b : SampleBuffer) : Nat :=
  b.storage.size

def isFull (b : SampleBuffer) : Bool :=
  b.length == b.capacity

/-- Append one sample; a full buffer drops it. -/
def push : SampleBuffer → Int16 → SampleBuffer
  | ⟨storage, length, le⟩, s =>
    if h : length < storage.size then
      ⟨storage.set length s, length + 1, by rw [Array.size_set]; exact h⟩
    else
      ⟨storage, length, le⟩

/-- Rewind the length; the storage keeps its samples. -/
def clear (b : SampleBuffer) : SampleBuffer :=
  ⟨b.storage, 0, Nat.zero_le _⟩

/-- The samples pushed since the last `clear`. -/
def live (b : SampleBuffer) : Array Int16 :=
  b.storage.extract 0 b.length

@[simp] theorem capacity_push (b : SampleBuffer) (s : Int16) :
    (b.push s).capacity = b.capacity := by
  unfold push capacity
  dsimp only
  split <;> simp

@[simp] theorem capacity_clear (b : SampleBuffer) : b.clear.capacity = b.capacity := rfl

@[simp] theorem live_clear (b : SampleBuffer) : b.clear.live = #[] := by
  simp [live, clear]

theorem isFull_iff {b : SampleBuffer} : b.isFull = true ↔ b.storage.size ≤ b.length := by
  have := b.length_le
  rw [isFull, capacity, beq_iff_eq]
  omega

theorem push_of_isFull {b : SampleBuffer} (h : b.isFull = true) (s : Int16) : b.push s = b := by
  have hfull := isFull_iff.1 h
  cases b
  exact dif_neg (Nat.not_lt.2 hfull)

theorem length_lt {b : SampleBuffer} (h : b.isFull = false) : b.length < b.capacity := by
  show b.length < b.storage.size
  rw [← Nat.not_le, ← isFull_iff, h]
  decide

theorem live_push {b : SampleBuffer} (h : b.isFull = false) (s : Int16) :
    (b.push s).live = b.live.push s := by
  have hroom : b.length < b.storage.size := length_lt h
  obtain ⟨storage, length, le⟩ := b
  change length < storage.size at hroom
  show (push ⟨storage, length, le⟩ s).live = (storage.extract 0 length).push s
  rw [show push ⟨storage, length, le⟩ s = ⟨storage.set length s hroom, length + 1, _⟩ from
    dif_pos hroom]
  apply Array.ext
  · simp only [live, Array.size_extract, Array.size_set, Array.size_push]
    omega
  · intro i hi _
    simp only [live, Array.size_extract, Array.size_set] at hi
    rw [Array.getElem_push]
    split
    · next hlive =>
      have hi : i ≠ length := by
        rw [Array.size_extract] at hlive
        omega
      simp [live, Array.getElem_set, Ne.symm hi]
    · next hlive =>
      have hi : i = length := by
        rw [Array.size_extract] at hlive
        omega
      simp [live, hi]

end SampleBuffer

end ConsolePipeline.Sound
