import ConsolePipeline.Proofs.Sound.Bounds

namespace ConsolePipeline.Sound

/-!
# The pitch of a tone

A tone's counter is decremented down to 0, and the step after that one reloads it. So a period of
`N` puts `N + 1` steps between two toggles, and a wave lasts `32 * (N + 1)` clocks of the chip.

* `Tone.counter_iterate`, `Tone.wave_succ_ne_iff` — the steps that toggle a tone.
* `Tone.wave_from_toggle`, `Tone.repeats_iff` — the wave from its first toggle on, and its length.
* `Psg.steps`, `Psg.iterate_tone` — counter steps in so many master cycles.
* `Psg.Holds`, `Psg.calls_tone` — calls that hold a tone's period.
* `tone_pitch` — a tone of a chip after any calls, while its period is held.
-/

/-! ### One tone -/

namespace Tone

variable {t : Tone} {n : Nat}

/-- The side of the wave that is heard after `n` counter steps. -/
def wave (t : Tone) (n : Nat) : Bool :=
  (tick^[n] t).high

/-- What a tone is apart from its loudness. -/
def muted (t : Tone) : Tone :=
  { t with attenuation := 15 }

theorem counter_tick (t : Tone) :
    t.tick.counter = if 0 < t.counter then t.counter - 1 else t.period := by
  unfold tick
  split_ifs <;> rfl

theorem muted_tick (t : Tone) : t.tick.muted = t.muted.tick := by
  have hcounter : t.muted.counter = t.counter := rfl
  have hperiod : t.muted.period = t.period := rfl
  rw [tick, tick, hcounter, hperiod]
  split_ifs <;> rfl

theorem muted_iterate (t : Tone) (n : Nat) : (tick^[n] t).muted = tick^[n] t.muted :=
  (show Function.Semiconj muted tick tick from muted_tick).iterate_right n t

/-- A wave does not depend on how loud it is. -/
theorem wave_eq_of_muted {t t' : Tone} (h : t'.muted = t.muted) (n : Nat) :
    t'.wave n = t.wave n := by
  have hsame : (tick^[n] t').muted = (tick^[n] t).muted := by
    rw [muted_iterate, muted_iterate, h]
  show (tick^[n] t').muted.high = (tick^[n] t).muted.high
  rw [hsame]

theorem period_tick (t : Tone) : t.tick.period = t.period := by
  unfold tick
  split_ifs <;> rfl

theorem period_iterate (t : Tone) (n : Nat) : (tick^[n] t).period = t.period := by
  induction n with
  | zero => rfl
  | succ n ih => rw [Function.iterate_succ_apply', period_tick, ih]

/-- Until it comes to 0, the counter counts the steps. -/
theorem counter_iterate_of_le (h : n ≤ t.counter) : (tick^[n] t).counter = t.counter - n := by
  induction n with
  | zero => rfl
  | succ n ih =>
    have hcounter := ih (by omega)
    rw [Function.iterate_succ_apply', counter_tick, if_pos (by omega), hcounter]
    omega

/-- **From then on** it stands at the number of steps to the next multiple of `period + 1`. -/
theorem counter_iterate (t : Tone) (m : Nat) :
    (tick^[t.counter + m] t).counter ≤ t.period ∧
      t.period + 1 ∣ m + (tick^[t.counter + m] t).counter := by
  induction m with
  | zero =>
    rw [Nat.add_zero, counter_iterate_of_le (Nat.le_refl _), Nat.sub_self]
    exact ⟨Nat.zero_le _, Nat.dvd_zero _⟩
  | succ m ih =>
    obtain ⟨hle, hdvd⟩ := ih
    rw [← Nat.add_assoc, Function.iterate_succ_apply', counter_tick, period_iterate]
    split_ifs with hcounter
    · have hsame : m + 1 + ((tick^[t.counter + m] t).counter - 1) =
          m + (tick^[t.counter + m] t).counter := by omega
      exact ⟨by omega, hsame ▸ hdvd⟩
    · -- The counter was at 0 and is reloaded.
      have hreloaded : m + 1 + t.period =
          m + (tick^[t.counter + m] t).counter + (t.period + 1) := by omega
      exact ⟨Nat.le_refl _, hreloaded ▸ Nat.dvd_add hdvd (Nat.dvd_refl _)⟩

/-- The counter is at 0 at every multiple of `period + 1`, once it has been there. -/
theorem counter_iterate_eq_zero_iff (t : Tone) (n : Nat) :
    (tick^[n] t).counter = 0 ↔ t.counter ≤ n ∧ t.period + 1 ∣ n - t.counter := by
  by_cases hn : t.counter ≤ n
  · obtain ⟨m, rfl⟩ := Nat.exists_eq_add_of_le hn
    obtain ⟨hle, hdvd⟩ := t.counter_iterate m
    rw [Nat.add_sub_cancel_left]
    constructor
    · intro hzero
      rw [hzero] at hdvd
      exact ⟨hn, hdvd⟩
    · rintro ⟨-, hm⟩
      exact Nat.eq_zero_of_dvd_of_lt ((Nat.dvd_add_right hm).mp hdvd) (Nat.lt_succ_of_le hle)
  · rw [counter_iterate_of_le (by omega)]
    omega

/-- **The steps that toggle a tone:** the one that finds the counter at 0 for the first time, and
    every `period + 1` steps after it another one. -/
theorem wave_succ_ne_iff (hperiod : 0 < t.period) (n : Nat) :
    t.wave (n + 1) ≠ t.wave n ↔ t.counter ≤ n ∧ t.period + 1 ∣ n - t.counter := by
  rw [← counter_iterate_eq_zero_iff, wave, wave, Function.iterate_succ_apply', tick]
  split_ifs with hcounter hpos
  · exact iff_of_false (fun h => h rfl) (by omega)
  · exact iff_of_true (Bool.not_ne_self _) (by omega)
  · rw [period_iterate] at hpos
    exact absurd hperiod hpos

/-- Until the first toggle the wave stays on its side. -/
theorem wave_of_le (hperiod : 0 < t.period) (h : n ≤ t.counter) : t.wave n = t.high := by
  induction n with
  | zero => rfl
  | succ n ih =>
    rw [← ih (by omega)]
    by_contra hne
    obtain ⟨hle, -⟩ := (wave_succ_ne_iff hperiod n).mp hne
    omega

/-- **The wave from its first toggle on:** each side lasts `period + 1` steps. -/
theorem wave_from_toggle (hperiod : 0 < t.period) (m : Nat) :
    t.wave (t.counter + 1 + m) = (t.high ^^ decide (m / (t.period + 1) % 2 = 0)) := by
  induction m with
  | zero =>
    have htoggle := (wave_succ_ne_iff hperiod t.counter).mpr ⟨Nat.le_refl _, by simp⟩
    rw [wave_of_le hperiod (Nat.le_refl _)] at htoggle
    simpa using Bool.eq_not.mpr htoggle
  | succ m ih =>
    have htoggle := wave_succ_ne_iff hperiod (t.counter + 1 + m)
    rw [show t.counter + 1 + m - t.counter = m + 1 by omega, ih] at htoggle
    show t.wave (t.counter + 1 + m + 1) = _
    rw [Nat.succ_div]
    split_ifs with hdvd
    · -- The step is a toggle, and the number of the side changes with it.
      have hflip : decide ((m / (t.period + 1) + 1) % 2 = 0) =
          !decide (m / (t.period + 1) % 2 = 0) := by
        rw [← decide_not, decide_eq_decide]
        omega
      rw [Bool.eq_not.mpr (htoggle.mpr ⟨by omega, hdvd⟩), hflip, Bool.xor_not]
    · have hsame := not_not.mp (mt htoggle.mp fun h => hdvd h.2)
      exact hsame

/-- Sides of a length `L`, in turn, are the same again after `2 * L` steps, and after no time that
    is not a multiple of that. -/
theorem sides_repeat_iff {L : Nat} (hL : 0 < L) (d : Nat) :
    (∀ m, (m + d) / L % 2 = 0 ↔ m / L % 2 = 0) ↔ 2 * L ∣ d := by
  constructor
  · intro hat
    have heven : d / L % 2 = 0 := by simpa using hat 0
    have hsplit := Nat.div_add_mod d L
    have hrest : d % L = 0 := by
      by_contra hne
      -- So many steps stay within the first side, but `d` more are just enough to end one.
      have hearly := (hat (L - d % L)).mpr (by rw [Nat.div_eq_of_lt (by omega)])
      have hnext : L - d % L + d = L * (d / L + 1) := by
        have hlt := Nat.mod_lt d hL
        rw [Nat.mul_succ]
        omega
      rw [hnext, Nat.mul_div_cancel_left _ hL] at hearly
      omega
    obtain ⟨k, hk⟩ := Nat.dvd_of_mod_eq_zero heven
    refine ⟨k, ?_⟩
    rw [hrest, hk] at hsplit
    rw [← hsplit, Nat.add_zero, Nat.mul_left_comm, Nat.mul_assoc]
  · rintro ⟨k, rfl⟩ m
    rw [Nat.mul_comm 2, Nat.mul_assoc, Nat.add_mul_div_left _ _ hL, Nat.add_mul_mod_self_left]

/-- **How long the wave is:** from its first toggle on it repeats itself after `2 * (period + 1)`
    steps, and after no time that is not a multiple of that. -/
theorem repeats_iff (hperiod : 0 < t.period) (d : Nat) :
    (∀ n, t.counter < n → t.wave (n + d) = t.wave n) ↔ 2 * (t.period + 1) ∣ d := by
  have hsides : ∀ m, t.wave (t.counter + 1 + m + d) = t.wave (t.counter + 1 + m) ↔
      ((m + d) / (t.period + 1) % 2 = 0 ↔ m / (t.period + 1) % 2 = 0) := by
    intro m
    rw [Nat.add_assoc _ m d, wave_from_toggle hperiod, wave_from_toggle hperiod, Bool.xor_right_inj,
      decide_eq_decide]
  rw [← sides_repeat_iff (Nat.succ_pos t.period)]
  constructor
  · intro hrepeats m
    exact (hsides m).mp (hrepeats _ (by omega))
  · intro hat n hn
    obtain ⟨m, rfl⟩ := Nat.exists_eq_add_of_le (Nat.succ_le_of_lt hn)
    exact (hsides m).mpr (hat m)

end Tone

/-! ### A tone of the chip -/

/-- Master cycles of one clock of the chip. -/
def chipClock : Nat := 15

namespace Psg

variable {p : Psg} {channel : Fin 3}

/-- Counter steps in the next `cycles` master cycles. -/
def steps (p : Psg) (cycles : Nat) : Nat :=
  (p.remainder + cycles) / cyclesPerTick

theorem ticks_tone (n : Nat) (p : Psg) (channel : Fin 3) :
    (ticks n p).tones[channel] = Tone.tick^[n] p.tones[channel] := by
  induction n generalizing p with
  | zero => rfl
  | succ n ih =>
    have htick : p.tick.tones[channel] = p.tones[channel].tick := by simp [tick]
    rw [ticks, ih, htick, Function.iterate_succ_apply]

/-- **Every counter step is taken in its sample:** what a sample leaves is less than a step. -/
theorem iterate_tone (h : p.Bounded) (channel : Fin 3) (n : Nat) :
    (nextSample^[n] p).tones[channel] =
        Tone.tick^[p.steps (n * cyclesPerSample)] p.tones[channel] ∧
      (nextSample^[n] p).remainder = (p.remainder + n * cyclesPerSample) % cyclesPerTick := by
  induction n with
  | zero =>
    rw [Nat.zero_mul, steps, Nat.add_zero, Nat.div_eq_of_lt h.remainder]
    exact ⟨rfl, (Nat.mod_eq_of_lt h.remainder).symm⟩
  | succ n ih =>
    obtain ⟨htone, hremainder⟩ := ih
    rw [Function.iterate_succ_apply', nextSample]
    dsimp only
    rw [ticks_tone, hremainder, htone, ← Function.iterate_add_apply]
    -- What one sample leaves is carried into the next, so no part of a step is lost between them.
    have hsteps : ((p.remainder + n * cyclesPerSample) % cyclesPerTick + cyclesPerSample) /
          cyclesPerTick + p.steps (n * cyclesPerSample) = p.steps ((n + 1) * cyclesPerSample) := by
      unfold steps cyclesPerTick cyclesPerSample
      omega
    rw [hsteps]
    refine ⟨rfl, ?_⟩
    unfold cyclesPerTick cyclesPerSample
    omega

/-- What a byte leaves of a tone: it moves no counter and passes no time. -/
structure Still (channel : Fin 3) (p p' : Psg) : Prop where
  counter : p'.tones[channel].counter = p.tones[channel].counter
  high : p'.tones[channel].high = p.tones[channel].high
  remainder : p'.remainder = p.remainder

theorem modifyTone_still (p : Psg) (n : Nat) {f : Tone → Tone} (channel : Fin 3)
    (hf : ∀ t : Tone, (f t).counter = t.counter ∧ (f t).high = t.high) :
    Still channel p (p.modifyTone n f) := by
  unfold modifyTone
  split_ifs with hn
  · by_cases hsame : n = channel.val
    · subst hsame
      exact ⟨by simp [hf], by simp [hf], rfl⟩
    · exact ⟨by simp [hsame], by simp [hsame], rfl⟩
  · exact ⟨rfl, rfl, rfl⟩

theorem write_still (p : Psg) (data : UInt8) (channel : Fin 3) :
    Still channel p (p.write data) := by
  unfold write setAttenuation
  dsimp only
  have hlatch : ∀ (latched n : Nat) {f : Tone → Tone},
      (∀ t : Tone, (f t).counter = t.counter ∧ (f t).high = t.high) →
        Still channel p (modifyTone { p with latched } n f) := fun latched n _ hf =>
    have h := modifyTone_still { p with latched } n channel hf
    ⟨h.counter, h.high, h.remainder⟩
  split_ifs
  · exact ⟨rfl, rfl, rfl⟩
  · exact hlatch _ _ fun _ => ⟨rfl, rfl⟩
  · exact ⟨rfl, rfl, rfl⟩
  · exact hlatch _ _ fun _ => ⟨rfl, rfl⟩
  · exact modifyTone_still _ _ channel fun _ => ⟨rfl, rfl⟩

/-- Master cycles of the samples that a call takes. -/
def cycles (p : Psg) : Call → Nat
  | .runTo target _ => (target - p.clock) / cyclesPerSample * cyclesPerSample
  | _ => 0

/-- Master cycles of all the samples that some calls take. -/
def elapsed : Psg → List Call → Nat
  | _, [] => 0
  | p, c :: rest => p.cycles c + (p.call c).elapsed rest

/-- **Calls that hold a tone's period.** They may set it again, and change anything else. -/
def Holds (channel : Fin 3) (period : Nat) : Psg → List Call → Prop
  | _, [] => True
  | p, c :: rest =>
    (p.call c).tones[channel].period = period ∧ (p.call c).Holds channel period rest

/-- **One call more,** if the tone's period is still the same after it. -/
theorem call_tone (h : p.Bounded) (c : Call) (hpos : 0 < p.tones[channel].period)
    (hholds : (p.call c).tones[channel].period = p.tones[channel].period) :
    (p.call c).tones[channel].muted =
        (Tone.tick^[p.steps (p.cycles c)] p.tones[channel]).muted ∧
      (p.call c).remainder = (p.remainder + p.cycles c) % cyclesPerTick := by
  have hnone : (Tone.tick^[p.steps 0] p.tones[channel]) = p.tones[channel] := by
    rw [steps, Nat.add_zero, Nat.div_eq_of_lt h.remainder]
    rfl
  have hless : p.remainder % cyclesPerTick = p.remainder := Nat.mod_eq_of_lt h.remainder
  cases c with
  | write data =>
    obtain ⟨hcounter, hhigh, hremainder⟩ := p.write_still data channel
    have hmuted : (p.write data).tones[channel].muted = p.tones[channel].muted :=
      Tone.mk.injEq .. |>.mpr ⟨hholds, hcounter, hhigh, rfl⟩
    exact ⟨hmuted.trans (congrArg Tone.muted hnone.symm), hremainder.trans hless.symm⟩
  | runTo target out =>
    obtain ⟨htone, hremainder⟩ := iterate_tone h channel ((target - p.clock) / cyclesPerSample)
    have hrun : p.call (.runTo target out) =
        nextSample^[(target - p.clock) / cyclesPerSample] p := congrArg Prod.fst (take_eq _ p out)
    exact ⟨by rw [hrun, htone]; rfl, by rw [hrun, hremainder]; rfl⟩
  | beginFrame => exact ⟨congrArg Tone.muted hnone.symm, hless.symm⟩
  | reset =>
    -- At power-on a tone has period 0.
    have hzero : (({} : Psg).tones[channel]).period = 0 := by simp
    exact absurd (hholds.symm.trans hzero) (Nat.ne_of_gt hpos)

theorem Bounded.calls (h : p.Bounded) (calls : List Call) :
    (calls.foldl Psg.call p).Bounded := by
  induction calls generalizing p with
  | nil => exact h
  | cons c rest ih => exact ih (h.call c)

/-- **Any calls that hold the tone's period** take it as many steps on as there are in the time they
    pass, however that time is cut into calls. -/
theorem calls_tone (h : p.Bounded) {calls : List Call} (hpos : 0 < p.tones[channel].period)
    (hholds : p.Holds channel p.tones[channel].period calls) :
    (calls.foldl call p).tones[channel].muted =
      (Tone.tick^[p.steps (p.elapsed calls)] p.tones[channel]).muted := by
  induction calls generalizing p with
  | nil =>
    have hnone : p.steps 0 = 0 := Nat.div_eq_of_lt h.remainder
    rw [elapsed, hnone]
    rfl
  | cons c rest ih =>
    obtain ⟨hperiod, hrest⟩ := hholds
    obtain ⟨hmuted, hremainder⟩ := call_tone h c hpos hperiod
    have hsteps : (p.call c).steps ((p.call c).elapsed rest) + p.steps (p.cycles c) =
        p.steps (p.elapsed (c :: rest)) := by
      rw [elapsed, steps, steps, steps, hremainder]
      unfold cyclesPerTick
      omega
    rw [← hperiod] at hpos hrest
    rw [List.foldl_cons, ih (h.call c) hpos hrest, Tone.muted_iterate, hmuted, ← Tone.muted_iterate,
      ← Function.iterate_add_apply, hsteps]

end Psg

/-- **The pitch of a tone.** After any calls on a new chip, let a tone have a period `N` that is not
    0. Then its wave is toggled by the counter step that finds its counter at 0 for the first time,
    and by every `N + 1`-th step after that; so from then on the wave repeats itself after
    `32 * (N + 1)` clocks of the chip, and after no time that is not a multiple of that. Calls that
    hold the period leave the tone at the place of its wave that the elapsed time says, however the
    time is cut into runs and frames, and whatever else they write. -/
theorem tone_pitch (before : List Psg.Call) (channel : Fin 3) :
    let p := before.foldl Psg.call {}
    let t := p.tones[channel]
    0 < t.period → t.period ≤ 1023 ∧
      (∀ n, t.wave (n + 1) ≠ t.wave n ↔ t.counter ≤ n ∧ t.period + 1 ∣ n - t.counter) ∧
      (∀ d, (∀ n, t.counter < n → t.wave (n + d) = t.wave n) ↔
        chipClock * (32 * (t.period + 1)) ∣ cyclesPerTick * d) ∧
      ∀ calls, p.Holds channel t.period calls →
        let now := (calls.foldl Psg.call p).tones[channel]
        now.high = t.wave (p.steps (p.elapsed calls)) ∧
          now.level = if t.wave (p.steps (p.elapsed calls)) then (amplitude now.attenuation : Int)
            else -amplitude now.attenuation := by
  intro p t hpos
  have hp : p.Bounded := Psg.bounded_new.calls before
  refine ⟨(hp.tones t (Vector.getElem_mem channel.isLt)).period, Tone.wave_succ_ne_iff hpos,
    fun d => ?_, fun calls hholds => ?_⟩
  · rw [Tone.repeats_iff hpos]
    have hclocks : chipClock * (32 * (t.period + 1)) = cyclesPerTick * (2 * (t.period + 1)) := by
      unfold chipClock cyclesPerTick
      omega
    rw [hclocks]
    exact (Nat.mul_dvd_mul_iff_left (by decide)).symm
  · have hmuted := Psg.calls_tone hp hpos hholds
    have hhigh : (calls.foldl Psg.call p).tones[channel].high =
        t.wave (p.steps (p.elapsed calls)) := Tone.wave_eq_of_muted hmuted 0
    exact ⟨hhigh, by rw [Tone.level, hhigh]⟩

/-- The note A4 as the melody sets it: a period of 254, and a toggle at every 255th step. Turned
    down to silence, it goes on all the same. -/
theorem melody_pitch :
    let p := [Psg.Call.write 0x90, .write 0x8E, .write 0x0F].foldl Psg.call {}
    let t := p.tones[(0 : Fin 3)]
    let after := [Psg.Call.beginFrame, .write 0x9F, .runTo 2018 .empty].foldl Psg.call p
    (∀ n, t.wave (n + 1) ≠ t.wave n ↔ 255 ∣ n) ∧ after.tones[(0 : Fin 3)].high = t.wave 8 := by
  intro p t after
  have ht : t = { period := 254, attenuation := 0 } := by decide
  obtain ⟨-, htoggles, -, hcalls⟩ := tone_pitch
    [.write 0x90, .write 0x8E, .write 0x0F] 0 (by decide)
  have hnow := (hcalls [.beginFrame, .write 0x9F, .runTo 2018 .empty]
    ⟨by decide, by decide, by decide +kernel, trivial⟩).1
  refine ⟨fun n => ?_, hnow⟩
  have htoggle : t.wave (n + 1) ≠ t.wave n ↔ t.counter ≤ n ∧ t.period + 1 ∣ n - t.counter :=
    htoggles n
  rw [htoggle, ht]
  simp

end ConsolePipeline.Sound
