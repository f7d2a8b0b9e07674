import Mathlib.Algebra.Order.BigOperators.Group.List
import Mathlib.Algebra.Order.Ring.Nat
import Mathlib.Data.List.Induction
import Mathlib.Order.Bounds.Basic
import ConsolePipeline.Profile

namespace ConsolePipeline

/-!
# Intervals of a run

A profiler has one running profile, and the call that ends an interval gives it away and begins
another. Here its calls are played with the frames since the last reset written down beside it, so
that each profile can be held against the frames that it is of.

* `TimedFrame`, `FrameProfile.ofFrames` — a frame as a profiler is told of it; frames recorded in
  turn.
* `FrameProfile.Describes` — counts, totals and extremes that are those of the frames;
  `Describes.record`, `describes_ofFrames` — one frame more, any number of them.
* `Describes.covers`, `fits` — what a block of frames says, and that it fits into its words.
* `Profiler.block` — a run cut into blocks; `flatMap_block` — no frame is lost or taken twice.
* `Profiler.Call`, `Session` — what is asked of a profiler, the frames so far and the answers.
* `Session.Tracked` — where a profiler stands in its run; `Tracked.frame`, `Tracked.reset`.
* `Profiler.intervals_partition` — any interval, any calls.
-/

/-- One frame of a run, as a profiler is told of it. -/
structure TimedFrame where
  times : PhaseTimes := {}
  rendered : Bool := false
  deriving DecidableEq, Repr, Inhabited

/-- The time that the frame took in all. -/
def TimedFrame.us (f : TimedFrame) : Nat :=
  f.times.frameUs.toNat

/-! ### Profiles of frames -/

namespace FrameProfile

variable {p : FrameProfile} {f : TimedFrame} {fs : List TimedFrame} {n : Nat}

/-- The profile of some frames, each recorded in turn. -/
def ofFrames (fs : List TimedFrame) : FrameProfile :=
  fs.foldl (fun p f => p.record f.times f.rendered) {}

@[simp] theorem ofFrames_nil : ofFrames [] = {} := rfl

theorem ofFrames_concat (fs : List TimedFrame) (f : TimedFrame) :
    ofFrames (fs ++ [f]) = (ofFrames fs).record f.times f.rendered := by
  simp [ofFrames]

/-- The sum of one kind of time over some frames. -/
def total (phase : PhaseTimes → UInt32) (fs : List TimedFrame) : Nat :=
  (fs.map fun f => (phase f.times).toNat).sum

@[simp] theorem total_nil (phase : PhaseTimes → UInt32) : total phase [] = 0 := rfl

@[simp] theorem total_concat (phase : PhaseTimes → UInt32) (fs : List TimedFrame) (f : TimedFrame) :
    total phase (fs ++ [f]) = total phase fs + (phase f.times).toNat := by
  simp [total]

/-- The times that the least may be: those of the frames, and what stands for no frame at all. -/
def leastOf (fs : List TimedFrame) : Set Nat :=
  {us | us = 4294967295 ∨ ∃ f ∈ fs, f.us = us}

/-- The times that the most may be. -/
def mostOf (fs : List TimedFrame) : Set Nat :=
  {us | us = 0 ∨ ∃ f ∈ fs, f.us = us}

/-- **The profile describes the frames:** each number of it is a count, a total or an extreme of
    theirs. -/
structure Describes (p : FrameProfile) (fs : List TimedFrame) : Prop where
  frames : p.frames = fs.length
  rendered : p.rendered = fs.countP (·.rendered)
  m68kUs : p.m68kUs = total (·.m68kUs) fs
  z80Us : p.z80Us = total (·.z80Us) fs
  soundUs : p.soundUs = total (·.soundUs) fs
  renderUs : p.renderUs = total (·.renderUs) fs
  audioWaitUs : p.audioWaitUs = total (·.audioWaitUs) fs
  frameUs : p.frameUs = total (·.frameUs) fs
  minFrameUs : IsLeast (leastOf fs) p.minFrameUs.toNat
  maxFrameUs : IsGreatest (mostOf fs) p.maxFrameUs.toNat
  slowFrames : p.slowFrames = fs.countP (slowFrameUs < ·.times.frameUs)
  fastFrames : p.fastFrames = fs.countP (·.times.frameUs < fastFrameUs)

theorem toNat_min (a b : UInt32) : (min a b).toNat = min a.toNat b.toNat := by
  show (if a ≤ b then a else b).toNat = _
  rw [apply_ite UInt32.toNat, Nat.min_def]
  simp only [UInt32.le_iff_toNat_le]

theorem toNat_max (a b : UInt32) : (max a b).toNat = max a.toNat b.toNat := by
  show (if a ≤ b then b else a).toNat = _
  rw [apply_ite UInt32.toNat, Nat.max_def]
  simp only [UInt32.le_iff_toNat_le]

theorem leastOf_concat (fs : List TimedFrame) (f : TimedFrame) :
    leastOf (fs ++ [f]) = insert f.us (leastOf fs) := by
  ext us
  simp only [leastOf, Set.mem_ofPred_eq, Set.mem_insert_iff, List.mem_append, List.mem_singleton]
  grind

theorem mostOf_concat (fs : List TimedFrame) (f : TimedFrame) :
    mostOf (fs ++ [f]) = insert f.us (mostOf fs) := by
  ext us
  simp only [mostOf, Set.mem_ofPred_eq, Set.mem_insert_iff, List.mem_append, List.mem_singleton]
  grind

theorem describes_empty : Describes {} [] := by
  constructor <;> simp [leastOf, mostOf]

/-- **One frame more.** -/
theorem Describes.record (h : p.Describes fs) (f : TimedFrame) :
    (p.record f.times f.rendered).Describes (fs ++ [f]) where
  frames := by simp [FrameProfile.record, h.frames]
  rendered := by simp [FrameProfile.record, h.rendered]
  m68kUs := by simp [FrameProfile.record, h.m68kUs]
  z80Us := by simp [FrameProfile.record, h.z80Us]
  soundUs := by simp [FrameProfile.record, h.soundUs]
  renderUs := by simp [FrameProfile.record, h.renderUs]
  audioWaitUs := by simp [FrameProfile.record, h.audioWaitUs]
  frameUs := by simp [FrameProfile.record, h.frameUs]
  minFrameUs := by
    rw [leastOf_concat, FrameProfile.record, toNat_min, min_comm]
    exact h.minFrameUs.insert f.us
  maxFrameUs := by
    rw [mostOf_concat, FrameProfile.record, toNat_max, max_comm]
    exact h.maxFrameUs.insert f.us
  slowFrames := by simp [FrameProfile.record, h.slowFrames]
  fastFrames := by simp [FrameProfile.record, h.fastFrames]

theorem describes_ofFrames (fs : List TimedFrame) : (ofFrames fs).Describes fs := by
  induction fs using List.reverseRecOn with
  | nil => exact describes_empty
  | append_singleton fs f ih =>
    rw [ofFrames_concat]
    exact ih.record f

/-! ### What a profile says -/

/-- No frame is slow and fast at once. -/
theorem Describes.slow_add_fast_le (h : p.Describes fs) :
    p.slowFrames + p.fastFrames ≤ fs.length := by
  have hfast : fs.countP (·.times.frameUs < fastFrameUs) ≤
      fs.countP fun f => ¬(decide (slowFrameUs < f.times.frameUs) = true) := by
    apply List.countP_mono_left
    intro f _ hf
    have hlimits : fastFrameUs.toNat ≤ slowFrameUs.toNat := by decide
    simp only [decide_eq_true_eq, UInt32.lt_iff_toNat_lt] at hf ⊢
    omega
  have hall := fs.length_eq_countP_add_countP fun f => decide (slowFrameUs < f.times.frameUs)
  rw [h.slowFrames, h.fastFrames]
  omega

theorem total_le (phase : PhaseTimes → UInt32) (fs : List TimedFrame) :
    total phase fs ≤ fs.length * 4294967295 := by
  have hle := List.sum_le_card_nsmul (fs.map fun f => (phase f.times).toNat) 4294967295 (by
    intro us hus
    obtain ⟨f, -, rfl⟩ := List.mem_map.mp hus
    have := (phase f.times).toNat_lt
    omega)
  simpa [total] using hle

theorem Describes.le_frameUs (h : p.Describes fs) : fs.length * p.minFrameUs.toNat ≤ p.frameUs := by
  have hle := List.card_nsmul_le_sum (fs.map TimedFrame.us) p.minFrameUs.toNat (by
    intro us hus
    obtain ⟨f, hf, rfl⟩ := List.mem_map.mp hus
    exact h.minFrameUs.2 (.inr ⟨f, hf, rfl⟩))
  rw [List.length_map, Nat.nsmul_eq_mul] at hle
  rw [h.frameUs]
  exact hle

theorem Describes.frameUs_le (h : p.Describes fs) : p.frameUs ≤ fs.length * p.maxFrameUs.toNat := by
  have hle := List.sum_le_card_nsmul (fs.map TimedFrame.us) p.maxFrameUs.toNat (by
    intro us hus
    obtain ⟨f, hf, rfl⟩ := List.mem_map.mp hus
    exact h.maxFrameUs.2 (.inr ⟨f, hf, rfl⟩))
  rw [List.length_map, Nat.nsmul_eq_mul] at hle
  rw [h.frameUs]
  exact hle

/-- **The profile of a whole block** of `n` frames. -/
structure Covers (p : FrameProfile) (n : Nat) (fs : List TimedFrame) : Prop where
  describes : p.Describes fs
  frames : p.frames = n
  rendered : p.rendered + fs.countP (!·.rendered) = n
  slow_add_fast_le : p.slowFrames + p.fastFrames ≤ n
  /-- What is reported of a total is its share for one of the frames. -/
  average : ∀ us, p.average us = us / n
  min_le : p.minFrameUs.toNat ≤ p.frameUs / n
  le_max : p.frameUs / n ≤ p.maxFrameUs.toNat

theorem Describes.covers (h : p.Describes fs) (hlength : fs.length = n) (hn : 0 < n) :
    p.Covers n fs := by
  subst hlength
  refine ⟨h, h.frames, ?_, h.slow_add_fast_le, ?_, ?_, ?_⟩
  · rw [h.rendered, fs.length_eq_countP_add_countP (·.rendered)]
    simp
  · intro us
    rw [FrameProfile.average, h.frames, Nat.max_eq_left hn]
  · rw [Nat.le_div_iff_mul_le hn, Nat.mul_comm]
    exact h.le_frameUs
  · exact Nat.div_le_of_le_mul h.frameUs_le

/-- Every number of the profile fits into its word: counts have 32 bits and totals have 64. -/
structure Fits (p : FrameProfile) : Prop where
  frames : p.frames < 2 ^ 32
  rendered : p.rendered < 2 ^ 32
  m68kUs : p.m68kUs < 2 ^ 64
  z80Us : p.z80Us < 2 ^ 64
  soundUs : p.soundUs < 2 ^ 64
  renderUs : p.renderUs < 2 ^ 64
  audioWaitUs : p.audioWaitUs < 2 ^ 64
  frameUs : p.frameUs < 2 ^ 64
  slowFrames : p.slowFrames < 2 ^ 32
  fastFrames : p.fastFrames < 2 ^ 32

theorem Describes.fits (h : p.Describes fs) (hlength : fs.length < 2 ^ 32) : p.Fits := by
  -- A phase takes less than `2 ^ 32` microseconds, and there are fewer than `2 ^ 32` frames.
  have htotal : ∀ phase, total phase fs < 2 ^ 64 := by
    intro phase
    have := total_le phase fs
    omega
  have hcount : ∀ q : TimedFrame → Bool, fs.countP q < 2 ^ 32 := by
    intro q
    exact Nat.lt_of_le_of_lt List.countP_le_length hlength
  exact {
    frames := h.frames ▸ hlength
    rendered := h.rendered ▸ hcount _
    m68kUs := h.m68kUs ▸ htotal _
    z80Us := h.z80Us ▸ htotal _
    soundUs := h.soundUs ▸ htotal _
    renderUs := h.renderUs ▸ htotal _
    audioWaitUs := h.audioWaitUs ▸ htotal _
    frameUs := h.frameUs ▸ htotal _
    slowFrames := h.slowFrames ▸ hcount _
    fastFrames := h.fastFrames ▸ hcount _ }

end FrameProfile

/-! ### A run in blocks -/

namespace Profiler

variable {f : TimedFrame} {fs : List TimedFrame} {n k : Nat}

/-- The `k`-th block of `n` frames. -/
def block (n : Nat) (fs : List TimedFrame) (k : Nat) : List TimedFrame :=
  (fs.drop (n * k)).take n

/-- The frames that do not make a whole block yet. -/
def leftOver (n : Nat) (fs : List TimedFrame) : List TimedFrame :=
  fs.drop (n * (fs.length / n))

theorem block_whole (hk : k < fs.length / n) : n * k + n ≤ fs.length := by
  calc n * k + n = n * (k + 1) := by rw [Nat.mul_succ]
    _ ≤ n * (fs.length / n) := Nat.mul_le_mul_left n hk
    _ ≤ fs.length := Nat.mul_div_le _ _

theorem length_block (hk : k < fs.length / n) : (block n fs k).length = n := by
  have := block_whole hk
  rw [block, List.length_take, List.length_drop]
  omega

theorem length_leftOver (n : Nat) (fs : List TimedFrame) :
    (leftOver n fs).length = fs.length % n := by
  have := Nat.div_add_mod fs.length n
  rw [leftOver, List.length_drop]
  omega

/-- The blocks that are there stay as they are when there are more frames. -/
theorem block_concat (hk : k < fs.length / n) (f : TimedFrame) :
    block n (fs ++ [f]) k = block n fs k := by
  have hwhole := block_whole hk
  rw [block, List.drop_append_of_le_length (by omega), List.take_append_of_le_length, block]
  rw [List.length_drop]
  omega

/-- **No frame is lost or taken twice:** the blocks and what is left over are the whole run. -/
theorem flatMap_block (n : Nat) (fs : List TimedFrame) :
    (List.range (fs.length / n)).flatMap (block n fs) ++ leftOver n fs = fs := by
  have htake : ∀ q, (List.range q).flatMap (block n fs) = fs.take (n * q) := by
    intro q
    induction q with
    | zero => simp
    | succ q ih =>
      rw [List.range_succ, List.flatMap_append, ih, List.flatMap_singleton, block, Nat.mul_succ,
        List.take_add]
  rw [htake, leftOver, List.take_append_drop]

section Succ

variable {m : Nat}

theorem succ_eq (m n : Nat) : m + 1 = n * (m / n) + (m % n + 1) := by
  have := Nat.div_add_mod m n
  omega

/-- Inside a block. -/
theorem succ_of_lt (h : m % n + 1 < n) : (m + 1) / n = m / n ∧ ¬n ∣ m + 1 := by
  rw [Nat.dvd_iff_mod_eq_zero, succ_eq m n, Nat.mul_add_div (by omega), Nat.mul_add_mod,
    Nat.div_eq_of_lt h, Nat.mod_eq_of_lt h]
  simp

/-- At the end of a block. -/
theorem succ_of_eq (h : m % n + 1 = n) : (m + 1) / n = m / n + 1 ∧ n ∣ m + 1 := by
  rw [succ_eq m n, h, ← Nat.mul_succ]
  exact ⟨Nat.mul_div_cancel_left _ (by omega), Nat.dvd_mul_right n _⟩

end Succ

/-- A frame inside a block is left over. -/
theorem leftOver_concat (h : fs.length % n + 1 < n) (f : TimedFrame) :
    leftOver n (fs ++ [f]) = leftOver n fs ++ [f] := by
  rw [leftOver, List.length_append, List.length_singleton, (succ_of_lt h).1,
    List.drop_append_of_le_length (Nat.mul_div_le _ _), leftOver]

/-- The last frame of a block leaves nothing over. -/
theorem leftOver_last (h : fs.length % n + 1 = n) (f : TimedFrame) :
    leftOver n (fs ++ [f]) = [] := by
  apply List.eq_nil_of_length_eq_zero
  rw [length_leftOver, List.length_append, List.length_singleton,
    Nat.mod_eq_zero_of_dvd (succ_of_eq h).2]

/-- The block that it ends is what was left over, and that frame. -/
theorem block_last (h : fs.length % n + 1 = n) (f : TimedFrame) :
    block n (fs ++ [f]) (fs.length / n) = leftOver n fs ++ [f] := by
  rw [block, List.drop_append_of_le_length (Nat.mul_div_le _ _), ← leftOver, List.take_of_length_le]
  rw [List.length_append, length_leftOver, List.length_singleton]
  omega

/-! ### Calls -/

/-- What is asked of a profiler. -/
inductive Call
  | frame (f : TimedFrame)
  | reset
  deriving DecidableEq, Repr, Inhabited

/-- A profiler, the frames since it was built or last reset, and its answers to them. -/
structure Session where
  profiler : Profiler
  frames : List TimedFrame := []
  answers : List (Option FrameProfile) := []
  deriving DecidableEq, Repr, Inhabited

namespace Session

/-- A new profiler. -/
def new (n : Nat) : Session where
  profiler := { interval := n }

def call (s : Session) : Call → Session
  | .frame f =>
    { profiler := (s.profiler.onFrame f.times f.rendered).2
      frames := s.frames ++ [f]
      answers := s.answers ++ [(s.profiler.onFrame f.times f.rendered).1] }
  | .reset => { profiler := s.profiler.reset }

/-- Any number of calls. -/
def run (s : Session) (calls : List Call) : Session :=
  calls.foldl call s

/-- What the call on the `i`-th frame has to be answered. -/
def answerAt (n : Nat) (fs : List TimedFrame) (i : Nat) : Option FrameProfile :=
  if n ∣ i + 1 then some (.ofFrames (block n fs (i / n))) else none

/-- The profile of the last whole block, if there is one. -/
def lastBlock (n : Nat) (fs : List TimedFrame) : Option FrameProfile :=
  if fs.length < n then none else some (.ofFrames (block n fs (fs.length / n - 1)))

variable {s : Session}

/-- Later frames change no answer. -/
theorem answerAt_concat {i : Nat} (hn : 0 < n) (hi : i < fs.length) (f : TimedFrame) :
    answerAt n (fs ++ [f]) i = answerAt n fs i := by
  unfold answerAt
  by_cases hend : n ∣ i + 1
  · -- The block that this frame ends is whole before the later one comes.
    obtain ⟨q, hq⟩ := hend
    have hblock : i / n < fs.length / n := by
      have hlt : i / n < q := by
        rw [Nat.div_lt_iff_lt_mul hn, Nat.mul_comm]
        omega
      have hle : q ≤ fs.length / n := by
        rw [Nat.le_div_iff_mul_le hn, Nat.mul_comm]
        omega
      omega
    rw [block_concat hblock]
  · simp [hend]

/-- One answer more. -/
theorem answers_concat (hn : 0 < n) (fs : List TimedFrame) (f : TimedFrame) :
    (List.range (fs ++ [f]).length).map (answerAt n (fs ++ [f])) =
      (List.range fs.length).map (answerAt n fs) ++ [answerAt n (fs ++ [f]) fs.length] := by
  have hearlier : (List.range fs.length).map (answerAt n (fs ++ [f])) =
      (List.range fs.length).map (answerAt n fs) := by
    apply List.map_congr_left
    intro i hi
    exact answerAt_concat hn (List.mem_range.mp hi) f
  rw [List.length_append, List.length_singleton, List.range_succ, List.map_append, hearlier,
    List.map_singleton]

theorem lastBlock_concat (h : fs.length % n + 1 < n) (f : TimedFrame) :
    lastBlock n (fs ++ [f]) = lastBlock n fs := by
  unfold lastBlock
  rw [List.length_append, List.length_singleton, (succ_of_lt h).1]
  by_cases hlt : fs.length < n
  · rw [Nat.mod_eq_of_lt hlt] at h
    rw [if_pos h, if_pos hlt]
  · have hpos : 0 < fs.length / n := Nat.div_pos (by omega) (by omega)
    rw [if_neg (by omega), if_neg hlt, block_concat (by omega)]

theorem lastBlock_last (h : fs.length % n + 1 = n) (f : TimedFrame) :
    lastBlock n (fs ++ [f]) = some (.ofFrames (leftOver n fs ++ [f])) := by
  have hle := Nat.mod_le fs.length n
  unfold lastBlock
  rw [List.length_append, List.length_singleton, (succ_of_eq h).1, Nat.add_sub_cancel,
    block_last h, if_neg (by omega)]

/-- **Where a profiler stands** that reports every `n` frames. -/
structure Tracked (n : Nat) (s : Session) : Prop where
  pos : 0 < n
  interval : s.profiler.interval = n
  current : s.profiler.current = .ofFrames (leftOver n s.frames)
  last : s.profiler.last = lastBlock n s.frames
  answers : s.answers = (List.range s.frames.length).map (answerAt n s.frames)

/-- A profiler that has seen no frame, new or reset. -/
theorem tracked_fresh (hn : 0 < n) : Tracked n { profiler := { interval := n } } := by
  refine ⟨hn, rfl, by simp [leftOver], ?_, rfl⟩
  simp [lastBlock, hn]

/-- The running profile, with one frame more. -/
theorem Tracked.record (h : s.Tracked n) (f : TimedFrame) :
    s.profiler.current.record f.times f.rendered = .ofFrames (leftOver n s.frames ++ [f]) := by
  rw [FrameProfile.ofFrames_concat, h.current]

/-- It counts the frames since the last block. -/
theorem Tracked.frames_record (h : s.Tracked n) (f : TimedFrame) :
    (s.profiler.current.record f.times f.rendered).frames = s.frames.length % n + 1 := by
  rw [h.record, (FrameProfile.describes_ofFrames _).frames, List.length_append, length_leftOver,
    List.length_singleton]

/-- **One frame more** inside a block: it is recorded, and nothing is answered. -/
theorem Tracked.within (h : s.Tracked n) (hlt : s.frames.length % n + 1 < n) (f : TimedFrame) :
    (s.call (.frame f)).Tracked n := by
  have hanswer : s.profiler.onFrame f.times f.rendered =
      (none, ⟨n, .ofFrames (leftOver n s.frames ++ [f]), s.profiler.last⟩) := by
    unfold Profiler.onFrame
    rw [h.interval, if_neg h.pos.ne', if_pos (by rwa [h.frames_record]), h.record]
  unfold call
  simp only [hanswer]
  refine ⟨h.pos, rfl, ?_, ?_, ?_⟩
  · rw [leftOver_concat hlt]
  · rw [lastBlock_concat hlt]
    exact h.last
  · rw [answers_concat h.pos, ← h.answers]
    simp [answerAt, (succ_of_lt hlt).2]

/-- **The last frame of a block:** the profile of the block is given away, and another begun. -/
theorem Tracked.closes (h : s.Tracked n) (hend : s.frames.length % n + 1 = n) (f : TimedFrame) :
    (s.call (.frame f)).Tracked n := by
  have hanswer : s.profiler.onFrame f.times f.rendered =
      (some (.ofFrames (leftOver n s.frames ++ [f])),
        ⟨n, {}, some (.ofFrames (leftOver n s.frames ++ [f]))⟩) := by
    unfold Profiler.onFrame
    rw [h.interval, if_neg h.pos.ne', if_neg (by rw [h.frames_record]; omega), h.record]
  unfold call
  simp only [hanswer]
  -- Nothing is left over, and the new profile is that of no frame.
  refine ⟨h.pos, rfl, ?_, ?_, ?_⟩
  · rw [leftOver_last hend, FrameProfile.ofFrames_nil]
  · rw [lastBlock_last hend]
  · rw [answers_concat h.pos, ← h.answers]
    simp [answerAt, (succ_of_eq hend).2, block_last hend]

theorem Tracked.call (h : s.Tracked n) (c : Call) : (s.call c).Tracked n := by
  cases c with
  | frame f =>
    have hmod := Nat.mod_lt s.frames.length h.pos
    obtain hlt | hend : s.frames.length % n + 1 < n ∨ s.frames.length % n + 1 = n := by omega
    · exact h.within hlt f
    · exact h.closes hend f
  | reset =>
    have hreset : s.call .reset = { profiler := { interval := n } } := by
      simp [Session.call, Profiler.reset, h.interval]
    rw [hreset]
    exact tracked_fresh h.pos

theorem Tracked.run (h : s.Tracked n) (calls : List Call) : (s.run calls).Tracked n := by
  induction calls generalizing s with
  | nil => exact h
  | cons c calls ih => exact ih (h.call c)

/-! ### The law -/

/-- **The intervals of a profiler that reports every `n` frames** partition the run since it was
    built or last reset. -/
structure Partitioned (n : Nat) (s : Session) : Prop where
  /-- The blocks, and what is left over, are the frames of the run, each of them once. -/
  whole : (List.range (s.frames.length / n)).flatMap (block n s.frames) ++
    leftOver n s.frames = s.frames
  /-- A frame is answered with a profile exactly if it is the last of a block; it is that
      block's. -/
  answers : s.answers = (List.range s.frames.length).map (answerAt n s.frames)
  /-- What is kept is the profile of the last block that is complete. -/
  last : s.profiler.last = lastBlock n s.frames
  /-- The profile of a block says what its frames come to. -/
  covers : ∀ k < s.frames.length / n,
    (FrameProfile.ofFrames (block n s.frames k)).Covers n (block n s.frames k)
  /-- The running profile is that of the frames left over. -/
  current : s.profiler.current = .ofFrames (leftOver n s.frames)
  /-- With an interval of 32 bits nothing outgrows its word. -/
  fits : n < 2 ^ 32 → s.profiler.current.Fits ∧
    ∀ k < s.frames.length / n, (FrameProfile.ofFrames (block n s.frames k)).Fits

theorem Tracked.partitioned (h : s.Tracked n) : s.Partitioned n where
  whole := flatMap_block n s.frames
  answers := h.answers
  last := h.last
  covers := by
    intro k hk
    exact (FrameProfile.describes_ofFrames _).covers (length_block hk) h.pos
  current := h.current
  fits := by
    intro hn
    have hmod := Nat.mod_lt s.frames.length h.pos
    constructor
    · rw [h.current]
      apply (FrameProfile.describes_ofFrames _).fits
      rw [length_leftOver]
      omega
    · intro k hk
      apply (FrameProfile.describes_ofFrames _).fits
      rwa [length_block hk]

end Session

/-- **Intervals partition the run.** For any interval and any calls: exactly the last frame of each
    block is answered, with the profile of that block, which is kept until the next one; no frame is
    lost or counted twice. -/
theorem intervals_partition (n : Nat) (hn : 0 < n) (calls : List Call) :
    ((Session.new n).run calls).Partitioned n :=
  ((Session.tracked_fresh hn).run calls).partitioned

/-- One frame, a reset, and seven frames in intervals of three. -/
theorem intervals_of_three_partition :
    0 < 3 ∧ ((Session.new 3).run ([.frame {}, .reset] ++
      [10000, 16500, 20000, 15000, 16500, 18000, 9000].map fun us =>
        .frame ⟨{ frameUs := us }, us < 17000⟩)).Partitioned 3 :=
  ⟨by decide, intervals_partition 3 (by decide) _⟩

/-- What is kept then is the profile of the second three of the seven. -/
example :
    ((Session.new 3).run ([.frame {}, .reset] ++
      [10000, 16500, 20000, 15000, 16500, 18000, 9000].map fun us =>
        .frame ⟨{ frameUs := us }, us < 17000⟩)).profiler.last =
      some { frames := 3, rendered := 2, frameUs := 49500, minFrameUs := 15000,
             maxFrameUs := 18000, slowFrames := 1, fastFrames := 1 } := by
  decide

end Profiler

end ConsolePipeline
