import ConsolePipeline.Fault

namespace ConsolePipeline.Run

/-!
# Reasoning about runs

A computation that may stop with a fault is followed one action at a time: an action that succeeds
is rewritten away, and the rest goes on from the state it left.

* `bind_ok`, `bind_congr`, `get_bind`, `modify_bind` — the first action of a sequence.
* `map_inv`, `bind_eq_ok` — what lies behind a result that has been converted, or built on another.
* `within_ok`, `within_error` — an action on a part of the state.
* `elapse_ok` — time passes step by step while an invariant holds.
* `elapse_step`, `elapse_once`, `elapse_error` — time goes on after a first step, or stops with it.
* `waitWhile_ok` — a wait whose measure shrinks with each round ends in time.
* `waitWhile_ends_or_stalls` — a wait whose rounds succeed can fail in one way only;
  `waitWhile_stalls` — it does if no round brings it further.
* `bind_inv`, `within_inv`, `elapse_inv`, `waitWhile_inv`, `waitWhile_rounds` — what a run that has
  succeeded has done.
-/

variable {σ τ α β : Type}

/-! ### One action at a time -/

/-- What has been built from something, if that has been built. -/
theorem map_inv {ε : Type} {x : Except ε α} {f : α → β} {b : β} (h : x.map f = .ok b) :
    ∃ a, x = .ok a ∧ f a = b := by
  cases x with
  | error e => cases h
  | ok a => exact ⟨a, rfl, Except.ok.inj h⟩

/-- Two results, one after the other, are both there if the last one is. -/
theorem bind_eq_ok {ε : Type} {x : Except ε α} {f : α → Except ε β} {b : β}
    (h : x >>= f = .ok b) : ∃ a, x = .ok a ∧ f a = .ok b := by
  cases x with
  | error e => cases h
  | ok a => exact ⟨a, rfl, h⟩

/-- A sequence whose first action succeeds goes on with the rest. -/
theorem bind_ok {x : Run σ α} {f : α → Run σ β} {s s' : σ} {a : α} (h : x s = .ok a s') :
    (x >>= f) s = f a s' := by
  show EStateM.bind x f s = f a s'
  rw [EStateM.bind, h]

/-- A sequence whose first action fails goes no further. -/
theorem bind_error {x : Run σ α} {f : α → Run σ β} {s s' : σ} {e : Fault}
    (h : x s = .error e s') : (x >>= f) s = .error e s' := by
  show EStateM.bind x f s = .error e s'
  rw [EStateM.bind, h]

/-- Two actions with the same outcome go on in the same way. -/
theorem bind_congr {x y : Run σ α} {s s' : σ} (h : x s = y s') (f : α → Run σ β) :
    (x >>= f) s = (y >>= f) s' := by
  show EStateM.bind x f s = EStateM.bind y f s'
  rw [EStateM.bind, EStateM.bind, h]

theorem get_bind (f : σ → Run σ β) (s : σ) : ((get : Run σ σ) >>= f) s = f s s := rfl

theorem modify_bind (g : σ → σ) (f : PUnit → Run σ β) (s : σ) :
    ((modify g : Run σ PUnit) >>= f) s = f ⟨⟩ (g s) := rfl

theorem modifyGet_bind (g : σ → α × σ) (f : α → Run σ β) (s : σ) :
    ((modifyGet g : Run σ α) >>= f) s = f (g s).1 (g s).2 := rfl

/-- Nothing is left to do after a last action without a result. -/
theorem bind_unit (x : Run σ Unit) (s : σ) : (x >>= fun _ => pure ()) s = x s := by
  show EStateM.bind x (fun _ => pure ()) s = x s
  rw [EStateM.bind]
  cases x s <;> rfl

theorem pure_apply (a : α) (s : σ) : (pure a : Run σ α) s = .ok a s := rfl

/-- An action on a part of the state changes that part and keeps the rest. -/
theorem within_ok {focus : σ → τ × (τ → σ)} {act : Run τ α} {s : σ} {a : α} {t' : τ}
    (h : act (focus s).1 = .ok a t') :
    within focus act s = .ok a ((focus s).2 t') := by
  simp only [within, h]

theorem within_error {focus : σ → τ × (τ → σ)} {act : Run τ α} {s : σ} {e : Fault} {t' : τ}
    (h : act (focus s).1 = .error e t') :
    within focus act s = .error e ((focus s).2 t') := by
  simp only [within, h]

/-! ### Time and waiting -/

/-- **Time passes while an invariant holds.** `P t` is what holds once `t` units have passed. -/
theorem elapse_ok {step : Nat → Run σ Nat} {P : Nat → σ → Prop}
    (hstep : ∀ t limit s, 0 < limit → P t s →
      ∃ n s', step limit s = .ok n s' ∧ 0 < n ∧ n ≤ limit ∧ P (t + n) s')
    (amount t : Nat) (s : σ) (h : P t s) :
    ∃ s', elapse step amount s = .ok () s' ∧ P (t + amount) s' := by
  induction amount using Nat.strongRecOn generalizing t s with
  | ind amount ih =>
    rw [elapse]
    by_cases hzero : amount = 0
    · exact ⟨s, by rw [if_pos hzero], by rw [hzero]; exact h⟩
    · obtain ⟨n, s', hs, hpos, hle, hP⟩ := hstep t amount s (Nat.pos_of_ne_zero hzero) h
      obtain ⟨s'', hrest, hP'⟩ := ih (amount - n) (by omega) (t + n) s' hP
      refine ⟨s'', ?_, ?_⟩
      · rw [if_neg hzero, hs]
        simp only [Nat.pos_iff_ne_zero.mp hpos, if_false]
        exact hrest
      · rw [show t + amount = t + n + (amount - n) by omega]
        exact hP'

theorem waitWhile_done {busy : σ → Bool} {spin : Run σ Unit} {s : σ} (h : busy s = false)
    (bound : Nat) : waitWhile busy spin bound s = .ok () s := by
  cases bound <;> simp [waitWhile, h]

/-- **A wait that ends.** `P k` is what holds when `k` more rounds are needed; the wait is over
    exactly when none is. -/
theorem waitWhile_ok {busy : σ → Bool} {spin : Run σ Unit} {P : Nat → σ → Prop}
    (hdone : ∀ s, P 0 s → busy s = false)
    (hround : ∀ k s, P (k + 1) s → busy s = true ∧ ∃ s', spin s = .ok () s' ∧ P k s')
    (k bound : Nat) (hbound : k ≤ bound) (s : σ) (h : P k s) :
    ∃ s', waitWhile busy spin bound s = .ok () s' ∧ P 0 s' := by
  induction k generalizing bound s with
  | zero => exact ⟨s, waitWhile_done (hdone s h) bound, h⟩
  | succ k ih =>
    obtain ⟨hbusy, s', hs, hP⟩ := hround k s h
    obtain ⟨bound, rfl⟩ : ∃ b, bound = b + 1 := ⟨bound - 1, by omega⟩
    obtain ⟨s'', hrest, hP'⟩ := ih bound (by omega) s' hP
    refine ⟨s'', ?_, hP'⟩
    simp only [waitWhile, hbusy, if_true, hs]
    exact hrest

/-- **A wait ends or stalls,** if every round of it succeeds; what the rounds keep holds then. -/
theorem waitWhile_ends_or_stalls {busy : σ → Bool} {spin : Run σ Unit} {P : σ → Prop}
    (hround : ∀ s, P s → ∃ s', spin s = .ok () s' ∧ P s') (bound : Nat) (s : σ) (h : P s) :
    ∃ s', P s' ∧ ((waitWhile busy spin bound s = .ok () s' ∧ busy s' = false) ∨
      waitWhile busy spin bound s = .error .stalled s') := by
  induction bound generalizing s with
  | zero =>
    refine ⟨s, h, ?_⟩
    cases hbusy : busy s with
    | false => exact .inl ⟨waitWhile_done hbusy 0, rfl⟩
    | true => exact .inr (by simp [waitWhile, hbusy])
  | succ bound ih =>
    cases hbusy : busy s with
    | false => exact ⟨s, h, .inl ⟨waitWhile_done hbusy (bound + 1), hbusy⟩⟩
    | true =>
      obtain ⟨s', hs, hP⟩ := hround s h
      have hrest : waitWhile busy spin (bound + 1) s = waitWhile busy spin bound s' := by
        simp only [waitWhile, hbusy, if_true, hs]
      rw [hrest]
      exact ih s' hP

/-- **A wait in vain:** while every round leaves the wait as busy as it was, no number of rounds is
    enough. -/
theorem waitWhile_stalls {busy : σ → Bool} {spin : Run σ Unit} {P : σ → Prop}
    (hround : ∀ s, P s → busy s = true ∧ ∃ s', spin s = .ok () s' ∧ P s') (bound : Nat) (s : σ)
    (h : P s) : ∃ s', waitWhile busy spin bound s = .error .stalled s' := by
  induction bound generalizing s with
  | zero => exact ⟨s, by simp [waitWhile, (hround s h).1]⟩
  | succ bound ih =>
    obtain ⟨hbusy, s', hs, hP⟩ := hround s h
    obtain ⟨s'', hrest⟩ := ih s' hP
    refine ⟨s'', ?_⟩
    simp only [waitWhile, hbusy, if_true, hs]
    exact hrest

/-! ### Runs that have succeeded -/

/-- A sequence that succeeds has done both of its parts. -/
theorem bind_inv {x : Run σ α} {f : α → Run σ β} {s s'' : σ} {b : β}
    (h : (x >>= f) s = .ok b s'') : ∃ a s', x s = .ok a s' ∧ f a s' = .ok b s'' := by
  have h : EStateM.bind x f s = .ok b s'' := h
  rw [EStateM.bind] at h
  cases hx : x s with
  | ok a s' =>
    rw [hx] at h
    exact ⟨a, s', rfl, h⟩
  | error e s' =>
    rw [hx] at h
    cases h

theorem within_inv {focus : σ → τ × (τ → σ)} {act : Run τ α} {s s' : σ} {a : α}
    (h : within focus act s = .ok a s') :
    ∃ t', act (focus s).1 = .ok a t' ∧ s' = (focus s).2 t' := by
  rw [within] at h
  cases hact : act (focus s).1 with
  | ok b t' =>
    simp only [hact] at h
    cases h
    exact ⟨t', rfl, rfl⟩
  | error e t' =>
    simp only [hact] at h
    cases h

/-- Time that has passed began with a step. -/
theorem elapse_first {step : Nat → Run σ Nat} {amount : Nat} {s s' : σ} (hpos : 0 < amount)
    (h : elapse step amount s = .ok () s') :
    ∃ n t, 0 < n ∧ step amount s = .ok n t ∧ elapse step (amount - n) t = .ok () s' := by
  rw [elapse, if_neg (by omega)] at h
  cases hstep : step amount s with
  | error e t =>
    rw [hstep] at h
    cases h
  | ok n t =>
    rw [hstep] at h
    by_cases hzero : n = 0
    · simp only [if_pos hzero] at h
      cases h
    · simp only [if_neg hzero] at h
      exact ⟨n, t, Nat.pos_of_ne_zero hzero, rfl, h⟩

/-- Time that begins with a step goes on with what is left. -/
theorem elapse_step {step : Nat → Run σ Nat} {amount n : Nat} {s s' : σ} (hpos : 0 < n)
    (hle : n ≤ amount) (h : step amount s = .ok n s') :
    elapse step amount s = elapse step (amount - n) s' := by
  rw [elapse, if_neg (by omega), h]
  simp only [Nat.pos_iff_ne_zero.mp hpos, if_false]

theorem elapse_zero (step : Nat → Run σ Nat) (s : σ) : elapse step 0 s = .ok () s := by
  rw [elapse, if_pos rfl]

/-- Time that passes in a single step, or none at all. -/
theorem elapse_once {step : Nat → Run σ Nat} {P : σ → Prop} {amount : Nat} {s : σ}
    (hzero : amount = 0 → P s) (hstep : 0 < amount → ∃ s', step amount s = .ok amount s' ∧ P s') :
    ∃ s', elapse step amount s = .ok () s' ∧ P s' := by
  by_cases hnone : amount = 0
  · refine ⟨s, ?_, hzero hnone⟩
    rw [elapse, if_pos hnone]
  · obtain ⟨s', hs', hP⟩ := hstep (Nat.pos_of_ne_zero hnone)
    refine ⟨s', ?_, hP⟩
    rw [elapse_step (Nat.pos_of_ne_zero hnone) (Nat.le_refl amount) hs', Nat.sub_self,
      elapse_zero]

/-- Time that begins with a fault goes no further. -/
theorem elapse_error {step : Nat → Run σ Nat} {amount : Nat} {s s' : σ} {e : Fault}
    (hpos : 0 < amount) (h : step amount s = .error e s') :
    elapse step amount s = .error e s' := by
  rw [elapse, if_neg (by omega), h]

/-- What every step keeps, the passing of time keeps. -/
theorem elapse_inv {step : Nat → Run σ Nat} {P : σ → Prop}
    (hstep : ∀ {limit n s s'}, P s → step limit s = .ok n s' → P s') {amount : Nat} {s s' : σ}
    (hs : P s) (h : elapse step amount s = .ok () s') : P s' := by
  induction amount using Nat.strongRecOn generalizing s with
  | ind amount ih =>
    by_cases hzero : amount = 0
    · rw [hzero, elapse_zero] at h
      cases h
      exact hs
    · obtain ⟨n, t, hpos, hfirst, hrest⟩ := elapse_first (Nat.pos_of_ne_zero hzero) h
      exact ih (amount - n) (by omega) (hstep hs hfirst) hrest

/-- **What every round keeps that was needed,** a wait keeps; and it is over then. -/
theorem waitWhile_rounds {busy : σ → Bool} {spin : Run σ Unit} {P : σ → Prop}
    (hspin : ∀ {s s'}, P s → busy s = true → spin s = .ok () s' → P s') {bound : Nat} {s s' : σ}
    (hs : P s) (h : waitWhile busy spin bound s = .ok () s') : P s' ∧ busy s' = false := by
  induction bound generalizing s with
  | zero =>
    simp only [waitWhile] at h
    split at h
    · cases h
    · next hdone =>
      cases h
      exact ⟨hs, Bool.eq_false_iff.mpr hdone⟩
  | succ bound ih =>
    simp only [waitWhile] at h
    split at h
    · next hbusy =>
      cases hround : spin s with
      | error e t =>
        rw [hround] at h
        cases h
      | ok _ t =>
        rw [hround] at h
        exact ih (hspin hs hbusy hround) h
    · next hdone =>
      cases h
      exact ⟨hs, Bool.eq_false_iff.mpr hdone⟩

/-- What every round keeps, a wait keeps. -/
theorem waitWhile_inv {busy : σ → Bool} {spin : Run σ Unit} {P : σ → Prop}
    (hspin : ∀ {s s'}, P s → spin s = .ok () s' → P s') {bound : Nat} {s s' : σ} (hs : P s)
    (h : waitWhile busy spin bound s = .ok () s') : P s' :=
  (waitWhile_rounds (fun hs _ h => hspin hs h) hs h).1

end ConsolePipeline.Run
