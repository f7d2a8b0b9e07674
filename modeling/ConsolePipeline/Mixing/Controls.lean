namespace ConsolePipeline.Mixing

/-!
# Audio controls

Volume and switches. They may change at any time and are read once for each frame mixed.
-/

/-- The volume at which samples pass unchanged, and the loudest there is. -/
def unityVolume : UInt8 := 128

/-- Volume and switches. -/
structure Controls where
  enabled : Bool := true
  fmEnabled : Bool := true
  psgEnabled : Bool := true
  volume : UInt8 := 128
  deriving DecidableEq, Repr, Inhabited

namespace Controls

/-- Set the volume; more than unity counts as unity. -/
def setVolume (c : Controls) (volume : UInt8) : Controls :=
  { c with volume := min volume unityVolume }

/-- The controls that settings of any volume stand for. -/
def ofSettings (c : Controls) : Controls :=
  c.setVolume c.volume

theorem setVolume_le (c : Controls) (v : UInt8) : (c.setVolume v).volume ≤ unityVolume := by
  show min v unityVolume ≤ unityVolume
  rw [UInt8.le_iff_toNat_le]
  by_cases h : v ≤ unityVolume
  · simp only [Std.min_eq_if, h, if_true]; exact UInt8.le_iff_toNat_le.1 h
  · simp only [Std.min_eq_if, h, if_false]; exact Nat.le_refl _

end Controls

end ConsolePipeline.Mixing
