namespace ConsolePipeline

/-!
# The modelled clock

Time is modelled, not measured: processors and the renderer charge what they cost to a counter of
microseconds, so every run is reproducible to the microsecond.
-/

/-- A reading of the clock in microseconds; it wraps around after 64 bits. -/
abbrev Instant := UInt64

/-- The clock after so many microseconds. -/
def Instant.after (now : Instant) (us : UInt64) : Instant :=
  now + us

/-- Microseconds from `start` to `now`, at least 0 and at most what 32 bits hold. -/
def elapsedUs (start now : Instant) : UInt32 :=
  UInt32.ofNat (min (now.toNat - start.toNat) 4294967295)

/-- The low 32 bits of the microseconds from `start` to `now`, which are at least 0. -/
def elapsedLowUs (start now : Instant) : UInt32 :=
  UInt32.ofNat (now.toNat - start.toNat)

@[simp] theorem elapsedUs_self (t : Instant) : elapsedUs t t = 0 := by
  simp [elapsedUs]

end ConsolePipeline
