import Mathlib.Data.List.Iterate
import ConsolePipeline.Proofs.Sound.FullFrame

namespace ConsolePipeline.Sound

/-!
# Timed writes and the steps between them

A processor runs a chip on whenever it writes to it, so the cycles up to which a chip is run come in
any number and any order. None of it can be heard: to run a chip to one cycle and then to another is
to run it to the later one, also where its buffer fills up on the way.

* `SampleBuffer.live_foldl_push` — a buffer shows as many samples as it had room for.
* `Psg.moments`, `Psg.samples`, `Psg.take_eq` — what the sound generator plays, apart from where it
  goes.
* `Psg.runTo_runTo`, `Waveform.runTo_runTo`, `Chip.runOn_runOn` — one run after another.
* `Act`, `Timely` — what happens to a chip within a frame, with no run past the next write.
* `Chip.finish_writes` — only the writes matter.
* `stepping_unheard` — any runs, any frame, and what a frame leaves.
-/

/-! ### What goes into a buffer -/

/-- **A buffer shows as many samples as it had room for.** -/
theorem SampleBuffer.live_foldl_push (samples : List Int16) (b : SampleBuffer) :
    (samples.foldl push b).live = b.live ++ (samples.take (b.capacity - b.length)).toArray := by
  have hle : b.length ≤ b.capacity := b.length_le
  induction samples generalizing b with
  | nil => simp
  | cons s rest ih =>
    rw [List.foldl_cons, ih _ (b.push s).length_le, capacity_push]
    cases hfull : b.isFull with
    | true =>
      have hroom : b.capacity - b.length = 0 := Nat.sub_eq_zero_of_le (isFull_iff.mp hfull)
      rw [push_of_isFull hfull, hroom]
      rfl
    | false =>
      have hroom : b.length < b.capacity := length_lt hfull
      have hplaces : b.capacity - b.length = b.capacity - (b.length + 1) + 1 := by omega
      rw [length_push hfull, live_push hfull, hplaces, List.take_succ_cons]
      simp

/-! ### One run after another -/

/-- The samples due by the later of two cycles: those due by the first, and those due after them. -/
theorem samples_due (clock first second : Nat) :
    (first - clock) / cyclesPerSample +
        (second - (clock + (first - clock) / cyclesPerSample * cyclesPerSample)) / cyclesPerSample =
      (max first second - clock) / cyclesPerSample := by
  have hmax := max_div (first - clock) (second - clock)
  rw [Nat.sub_max_sub_right] at hmax
  rw [← Nat.sub_sub, Nat.mul_comm, Nat.sub_mul_div, hmax]
  omega

namespace Psg

/-- The chip at each of the next `n` samples. -/
def moments (n : Nat) (p : Psg) : List Psg :=
  List.iterate nextSample p.nextSample n

/-- The next `n` samples. -/
def samples (n : Nat) (p : Psg) : List Int16 :=
  (p.moments n).map output

/-- **What the chip plays does not depend on where it goes.** -/
theorem take_eq (n : Nat) (p : Psg) (out : SampleBuffer) :
    take n p out = (nextSample^[n] p, (samples n p).foldl SampleBuffer.push out) := by
  induction n generalizing p out with
  | zero => rfl
  | succ n ih => exact ih p.nextSample (out.push p.nextSample.output)

/-- Samples taken in two parts. -/
theorem take_add (m n : Nat) (p : Psg) (out : SampleBuffer) :
    take (m + n) p out = take n (take m p out).1 (take m p out).2 := by
  induction m generalizing p out with
  | zero => rw [Nat.zero_add]; rfl
  | succ m ih =>
    rw [Nat.succ_add]
    exact ih p.nextSample (out.push p.nextSample.output)

/-- **To run to one cycle and then to another** is to run to the later one. -/
theorem runTo_runTo (p : Psg) (out : SampleBuffer) (first second : Nat) :
    (p.runTo first out).1.runTo second (p.runTo first out).2 = p.runTo (max first second) out := by
  obtain ⟨hclock, -⟩ := take_counts ((first - p.clock) / cyclesPerSample) p out
  show take ((second - (take _ p out).1.clock) / cyclesPerSample) (take _ p out).1
    (take _ p out).2 = take _ p out
  rw [← take_add, hclock, samples_due]

end Psg

namespace Waveform

variable {w : Waveform} {out : SampleBuffer}

/-- A full buffer stops the chip. -/
theorem take_of_isFull (h : out.isFull = true) (n : Nat) : take n w out = (w, out) := by
  cases n with
  | zero => rfl
  | succ n => rw [take, if_pos h]

/-- Samples left in two parts, which is no difference where the buffer fills up. -/
theorem take_add (m n : Nat) (w : Waveform) (out : SampleBuffer) :
    take (m + n) w out = take n (take m w out).1 (take m w out).2 := by
  induction m generalizing w out with
  | zero => rw [Nat.zero_add]; rfl
  | succ m ih =>
    rw [Nat.succ_add, take, take]
    cases hfull : out.isFull with
    | true => exact (take_of_isFull hfull n).symm
    | false => exact ih w.advance (out.push w.output)

/-- All of the samples are left, unless the buffer is full afterwards. -/
theorem take_produced_or (n : Nat) (w : Waveform) (out : SampleBuffer) :
    (take n w out).1.produced = w.produced + n ∨ (take n w out).2.isFull = true := by
  induction n generalizing w out with
  | zero => exact .inl rfl
  | succ n ih =>
    rw [take]
    cases hfull : out.isFull with
    | true => exact .inr hfull
    | false =>
      rcases ih w.advance (out.push w.output) with hproduced | hstopped
      · exact .inl (hproduced.trans (Nat.add_right_comm w.produced 1 n))
      · exact .inr hstopped

/-- **To run to one cycle and then to another** is to run to the later one. -/
theorem runTo_runTo (w : Waveform) (out : SampleBuffer) (first second : Nat) :
    (w.runTo first out).1.runTo second (w.runTo first out).2 = w.runTo (max first second) out := by
  have hdue : max first second / cyclesPerSample - w.produced =
      first / cyclesPerSample - w.produced +
        (second / cyclesPerSample - (w.produced + (first / cyclesPerSample - w.produced))) := by
    rw [max_div]
    omega
  show take (second / cyclesPerSample - (take _ w out).1.produced) (take _ w out).1
    (take _ w out).2 = take _ w out
  rw [hdue, take_add]
  rcases take_produced_or (first / cyclesPerSample - w.produced) w out with hproduced | hfull
  · rw [hproduced]
  · -- Nothing is left in a full buffer, however much is due.
    rw [take_of_isFull hfull, take_of_isFull hfull]

end Waveform

namespace Chip

/-- A chip with its buffer, run to a cycle of the frame. -/
def runOn (target : Nat) (s : Chip × SampleBuffer) : Chip × SampleBuffer :=
  s.1.runTo target s.2

/-- **To run a chip to one cycle and then to another** is to run it to the later one. -/
theorem runOn_runOn (first second : Nat) (s : Chip × SampleBuffer) :
    runOn second (runOn first s) = runOn (max first second) s := by
  obtain ⟨c, out⟩ := s
  cases c with
  | psg p =>
    have h := p.runTo_runTo out first second
    exact congrArg (fun s : Psg × SampleBuffer => (psg s.1, s.2)) h
  | waveform w =>
    have h := w.runTo_runTo out first second
    exact congrArg (fun s : Waveform × SampleBuffer => (waveform s.1, s.2)) h

/-- To run a chip nowhere. -/
theorem runOn_zero (s : Chip × SampleBuffer) : runOn 0 s = s := by
  obtain ⟨c, out⟩ := s
  cases c with
  | psg p => simp [runOn, runTo, Psg.runTo, Psg.take]
  | waveform w => simp [runOn, runTo, Waveform.runTo, Waveform.take]

/-- **Any runs, in any order,** come to one run to the latest cycle. -/
theorem foldl_runOn (targets : List Nat) (s : Chip × SampleBuffer) :
    targets.foldl (fun s target => runOn target s) s = runOn (targets.foldl max 0) s := by
  have hfrom : ∀ reach, targets.foldl (fun s target => runOn target s) (runOn reach s) =
      runOn (targets.foldl max reach) s := by
    induction targets with
    | nil => exact fun _ => rfl
    | cons target rest ih =>
      intro reach
      rw [List.foldl_cons, List.foldl_cons, runOn_runOn]
      exact ih (max reach target)
  have h := hfrom 0
  rwa [runOn_zero] at h

end Chip

/-! ### The writes of a frame -/

/-- What happens to a chip within a frame. -/
inductive Act
  | write (value : UInt8) (cycle : Nat)
  | runTo (target : Nat)
  deriving DecidableEq, Repr, Inhabited

namespace Act

def isWrite : Act → Bool
  | write .. => true
  | runTo _ => false

/-- The cycle of the next write, or the last cycle of the frame if none follows. -/
def nextWrite (last : Nat) : List Act → Nat
  | [] => last
  | write _ cycle :: _ => cycle
  | runTo _ :: rest => nextWrite last rest

/-- **A frame in which no run goes past the next write.** The writes themselves may come in any
    order. -/
def Timely (last : Nat) : List Act → Prop
  | [] => True
  | write .. :: rest => Timely last rest
  | runTo target :: rest => target ≤ nextWrite last rest ∧ Timely last rest

instance decidableTimely (last : Nat) : (acts : List Act) → Decidable (Timely last acts)
  | [] => .isTrue trivial
  | write .. :: rest => decidableTimely last rest
  | runTo target :: rest =>
    have := decidableTimely last rest
    inferInstanceAs (Decidable (target ≤ nextWrite last rest ∧ Timely last rest))

end Act

namespace Chip

open Act

variable {last : Nat}

def act (s : Chip × SampleBuffer) : Act → Chip × SampleBuffer
  | .write value cycle => s.1.writeAt value cycle s.2
  | .runTo target => runOn target s

/-- The rest of a frame: what happens in it, and then the chip is run to its last cycle. -/
def finish (last : Nat) (acts : List Act) (s : Chip × SampleBuffer) : Chip × SampleBuffer :=
  runOn last (acts.foldl act s)

/-- A run that does not go past the next write is part of what the write does anyway. -/
theorem finish_runOn {target : Nat} {acts : List Act} (h : target ≤ nextWrite last acts)
    (s : Chip × SampleBuffer) : finish last acts (runOn target s) = finish last acts s := by
  induction acts generalizing s with
  | nil =>
    have hlast : target ≤ last := h
    show runOn last (runOn target s) = runOn last s
    rw [runOn_runOn, Nat.max_eq_right hlast]
  | cons first rest ih =>
    cases first with
    | write value cycle =>
      have hcycle : target ≤ cycle := h
      have hsame : runOn cycle (runOn target s) = runOn cycle s := by
        rw [runOn_runOn, Nat.max_eq_right hcycle]
      have hwrite : act (runOn target s) (.write value cycle) = act s (.write value cycle) := by
        show (((runOn cycle (runOn target s)).1.write value), (runOn cycle (runOn target s)).2) = _
        rw [hsame]
        rfl
      show finish last rest (act (runOn target s) _) = finish last rest (act s _)
      rw [hwrite]
    | runTo next =>
      -- Two runs can change places.
      have hswap : runOn next (runOn target s) = runOn target (runOn next s) := by
        rw [runOn_runOn, runOn_runOn, Nat.max_comm]
      show finish last rest (runOn next (runOn target s)) = finish last rest (runOn next s)
      rw [hswap]
      exact ih h (runOn next s)

/-- **Only the writes of a frame matter.** -/
theorem finish_writes {acts : List Act} (h : Timely last acts) (s : Chip × SampleBuffer) :
    finish last acts s = finish last (acts.filter isWrite) s := by
  induction acts generalizing s with
  | nil => rfl
  | cons first rest ih =>
    cases first with
    | write value cycle => exact ih h (act s (.write value cycle))
    | runTo target =>
      obtain ⟨hnext, hrest⟩ := h
      exact (finish_runOn hnext s).trans (ih hrest s)

end Chip

/-- **How a chip is stepped cannot be heard.** For either chip in any state and a buffer of any
    capacity, runs to any cycles in any order come to one run to the latest of them; runs that do
    not go past the next write make no difference to a frame; and from the beginning of a frame, the
    sound generator counts every sample due, while the buffer gets as many as it has room for. -/
theorem stepping_unheard :
    (∀ (s : Chip × SampleBuffer) (targets : List Nat),
      targets.foldl (fun s target => Chip.runOn target s) s =
        Chip.runOn (targets.foldl max 0) s) ∧
    (∀ (s : Chip × SampleBuffer) (last : Nat) (acts : List Act), Act.Timely last acts →
      Chip.finish last acts s = Chip.finish last (acts.filter Act.isWrite) s) ∧
    ∀ (p : Psg) (out : SampleBuffer) (target : Nat),
      let after := (Chip.psg p).beginFrame.runTo target out
      after.1.sampleCount = (target / cyclesPerSample : Nat) ∧
        after.2.length = min (out.length + target / cyclesPerSample) out.capacity ∧
        after.2.live = out.live ++ ((p.beginFrame.samples (target / cyclesPerSample)).take
          (out.capacity - out.length)).toArray := by
  refine ⟨fun s targets => Chip.foldl_runOn targets s,
    fun s last acts htimely => Chip.finish_writes htimely s, ?_⟩
  intro p out target after
  have hafter : after.1 = .psg (Psg.take (target / cyclesPerSample) p.beginFrame out).1 ∧
      after.2 = (Psg.take (target / cyclesPerSample) p.beginFrame out).2 := ⟨rfl, rfl⟩
  obtain ⟨hchip, hout⟩ := hafter
  obtain ⟨-, hproduced, hlength, -⟩ :=
    Psg.take_counts (target / cyclesPerSample) p.beginFrame out
  refine ⟨?_, hout ▸ hlength, ?_⟩
  · rw [hchip, Chip.sampleCount, hproduced]
    simp [Psg.beginFrame]
  · rw [hout, Psg.take_eq]
    exact SampleBuffer.live_foldl_push _ out

/-- A processor that looks at the chip time and again before it writes: the frame is the one in
    which it had not looked. -/
theorem looks_unheard :
    Chip.finish 9000 [.runTo 2000, .runTo 500, .write 0x90 5000, .runTo 9000] (.psg {}, .empty) =
      Chip.finish 9000 [.write 0x90 5000] (.psg {}, .empty) := by
  obtain ⟨-, hframes, -⟩ := stepping_unheard
  have htimely : Act.Timely 9000
      [.runTo 2000, .runTo 500, .write 0x90 5000, .runTo 9000] := by decide
  exact hframes (.psg {}, .empty) 9000 _ htimely

end ConsolePipeline.Sound
