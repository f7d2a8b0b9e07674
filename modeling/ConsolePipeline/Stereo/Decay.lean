import ConsolePipeline.Stereo.Word

namespace ConsolePipeline.Stereo

/-!
# The decay that conceals missing audio

Wherever audio is missing, the last value heard decays toward silence: each step keeps
`(256 - pole) / 256` of the level, rounded toward zero, so a level never changes sign and comes to
rest at exactly zero.

* `decayStep`, `decay` — one step, and any number of steps.
* `fade` — the decay written as mono words.
* `fade_toList` — word `i` of a fade is the level after `i + 1` steps.
-/

/-- One step of the decay; a pole above 256 acts as 256, which silences at once. -/
def decayStep (level : Int) (pole : Nat) : Int :=
  (level * (256 - (min pole 256 : Nat))).tdiv 256

/-- The level after `n` steps. -/
def decay (level : Int) (pole : Nat) : Nat → Int
  | 0 => level
  | n + 1 => decay (decayStep level pole) pole n

/-- Append `n` words of decay to `out`. -/
def fadeOnto (pole : Nat) : (n : Nat) → (level : Int) → (out : Array Word) → Array Word
  | 0, _, out => out
  | n + 1, level, out =>
    let next := decayStep level pole
    fadeOnto pole n next (out.push (mono (sample next)))

/-- The `n` words that follow the sample `start` when nothing but its decay is heard. -/
def fade (start : Int16) (pole n : Nat) : Array Word :=
  fadeOnto pole n start.toInt (Array.emptyWithCapacity n)

theorem decayStep_zero (pole : Nat) : decayStep 0 pole = 0 := by
  simp [decayStep]

theorem decay_succ (level : Int) (pole n : Nat) :
    decay level pole (n + 1) = decayStep (decay level pole n) pole := by
  induction n generalizing level with
  | zero => rfl
  | succ n ih => rw [decay, ih]; rfl

theorem fadeOnto_toList (pole n : Nat) (level : Int) (out : Array Word) :
    (fadeOnto pole n level out).toList =
      out.toList ++ (List.range n).map fun i => mono (sample (decay level pole (i + 1))) := by
  induction n generalizing level out with
  | zero => simp [fadeOnto]
  | succ n ih =>
    rw [fadeOnto, ih, List.range_succ_eq_map]
    simp [decay, Function.comp_def]

/-- **The words of a fade.** Word `i` shows the level after `i + 1` steps. -/
theorem fade_toList (start : Int16) (pole n : Nat) :
    (fade start pole n).toList =
      (List.range n).map fun i => mono (sample (decay start.toInt pole (i + 1))) := by
  simp [fade, fadeOnto_toList]

@[simp] theorem size_fade (start : Int16) (pole n : Nat) : (fade start pole n).size = n := by
  rw [← Array.length_toList, fade_toList]; simp

end ConsolePipeline.Stereo
