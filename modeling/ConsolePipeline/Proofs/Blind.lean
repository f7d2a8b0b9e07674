import ConsolePipeline.Proofs.Run

namespace ConsolePipeline.Run

/-!
# What runs do not look at

Let `φ` take out of a state what is not looked at. An action is blind to it if two states that are
the same without it lead to the same outcome without it: to the same answer or the same fault, and
to states that are the same again. A computation that is made up of such actions is blind as well.

* `Same` — outcomes that cannot be told apart.
* `Blind` — an action that does not look.
* `Blind.bind`, `optional`, `get_bind`, `within`, `elapse`, `waitWhile` — what is made up of such
  actions.
-/

variable {σ τ α β : Type} {φ : σ → σ}

/-- **Outcomes that cannot be told apart,** if all that is seen of a state is what `φ` leaves. -/
inductive Same (φ : σ → σ) : EStateM.Result Fault σ α → EStateM.Result Fault σ α → Prop
  | ok {a : α} {s s' : σ} (h : φ s = φ s') : Same φ (.ok a s) (.ok a s')
  | error {e : Fault} {s s' : σ} (h : φ s = φ s') : Same φ (.error e s) (.error e s')

/-- Two such outcomes are both good, or the same fault. -/
theorem Same.inv {o o' : EStateM.Result Fault σ α} (h : Same φ o o') :
    (∃ a s s', o = .ok a s ∧ o' = .ok a s' ∧ φ s = φ s') ∨
      ∃ e s s', o = .error e s ∧ o' = .error e s' ∧ φ s = φ s' := by
  cases h with
  | ok h => exact .inl ⟨_, _, _, rfl, rfl, h⟩
  | error h => exact .inr ⟨_, _, _, rfl, rfl, h⟩

/-- **An action that does not look** at what `φ` takes out. -/
def Blind (φ : σ → σ) (act : Run σ α) : Prop :=
  ∀ s s', φ s = φ s' → Same φ (act s) (act s')

namespace Blind

theorem pure (a : α) : Blind φ (Pure.pure a : Run σ α) :=
  fun _ _ h => .ok h

theorem throw (fault : Fault) : Blind φ (throw fault : Run σ α) :=
  fun _ _ h => .error h

/-- A change of the state that does not look. -/
theorem modify {f : σ → σ} (hf : ∀ s, φ (f (φ s)) = φ (f s)) :
    Blind φ (modify f : Run σ PUnit) := by
  intro s s' h
  have hsame : φ (f s) = φ (f s') := by rw [← hf s, h, hf s']
  exact .ok hsame

/-- One action after the other. -/
theorem bind {x : Run σ α} {f : α → Run σ β} (hx : Blind φ x) (hf : ∀ a, Blind φ (f a)) :
    Blind φ (x >>= f) := by
  intro s s' h
  obtain ⟨a, t, t', ht, ht', hsame⟩ | ⟨e, t, t', ht, ht', hsame⟩ := (hx s s' h).inv
  · rw [bind_ok ht, bind_ok ht']
    exact hf a t t' hsame
  · rw [bind_error ht, bind_error ht']
    exact .error hsame

/-- An action that may be left out, before the rest. -/
theorem optional {c : Prop} [Decidable c] {x : Run σ Unit} {f : Unit → Run σ β} (hx : Blind φ x)
    (hf : ∀ a, Blind φ (f a)) : Blind φ (if c then x >>= f else f ()) := by
  split
  · exact hx.bind hf
  · exact hf ()

/-- What goes on from a look at the state, if it is not at what `φ` takes out. -/
theorem get_bind {f : σ → Run σ β} (hlook : ∀ s, f (φ s) = f s) (hf : ∀ s, Blind φ (f s)) :
    Blind φ ((get : Run σ σ) >>= f) := by
  intro s s' h
  have hsame : f s = f s' := by rw [← hlook s, h, hlook s']
  show Same φ (f s s) (f s' s')
  rw [← hsame]
  exact hf s s s' h

/-- An action on a part of the state, of which `ψ` takes out what is not looked at. -/
theorem within {ψ : τ → τ} {focus : σ → τ × (τ → σ)} {act : Run τ α} (hact : Blind ψ act)
    (hbefore : ∀ s, (focus (φ s)).1 = ψ (focus s).1)
    (hafter : ∀ s t, φ ((focus (φ s)).2 (ψ t)) = φ ((focus s).2 t)) :
    Blind φ (within focus act) := by
  intro s s' h
  have hpart : ψ (focus s).1 = ψ (focus s').1 := by rw [← hbefore, h, hbefore]
  have hback : ∀ t t', ψ t = ψ t' → φ ((focus s).2 t) = φ ((focus s').2 t') := by
    intro t t' ht
    rw [← hafter, h, ht, hafter]
  obtain ⟨a, t, t', ht, ht', hsame⟩ | ⟨e, t, t', ht, ht', hsame⟩ := (hact _ _ hpart).inv
  · rw [within_ok ht, within_ok ht']
    exact .ok (hback t t' hsame)
  · rw [within_error ht, within_error ht']
    exact .error (hback t t' hsame)

/-- An action on a part of the state of which everything is seen. -/
theorem within_seen {focus : σ → τ × (τ → σ)} (act : Run τ α)
    (hbefore : ∀ s, (focus (φ s)).1 = (focus s).1)
    (hafter : ∀ s t, φ ((focus (φ s)).2 t) = φ ((focus s).2 t)) :
    Blind φ (Run.within focus act) := by
  refine within (ψ := id) (fun s s' h => ?_) hbefore hafter
  obtain rfl : s = s' := h
  cases act s
  · exact .ok rfl
  · exact .error rfl

/-- Time that passes in such steps. -/
theorem elapse {step : Nat → Run σ Nat} (hstep : ∀ limit, Blind φ (step limit)) (amount : Nat) :
    Blind φ (elapse step amount) := by
  induction amount using Nat.strongRecOn with
  | ind amount ih =>
    intro s s' h
    rw [Run.elapse, Run.elapse]
    by_cases hzero : amount = 0
    · rw [if_pos hzero, if_pos hzero]
      exact .ok h
    · rw [if_neg hzero, if_neg hzero]
      obtain ⟨n, t, t', ht, ht', hsame⟩ | ⟨e, t, t', ht, ht', hsame⟩ := (hstep amount s s' h).inv
      · simp only [ht, ht']
        split
        · exact .error hsame
        · exact ih (amount - n) (by omega) t t' hsame
      · simp only [ht, ht']
        exact .error hsame

/-- A wait of such rounds, while something is seen. -/
theorem waitWhile {busy : σ → Bool} {spin : Run σ Unit} (hspin : Blind φ spin)
    (hbusy : ∀ s, busy (φ s) = busy s) (bound : Nat) : Blind φ (waitWhile busy spin bound) := by
  -- The two runs make the same rounds, as they see the same wait; the induction is on the rounds
  -- that are left.
  induction bound with
  | zero =>
    intro s s' h
    have hsame : busy s' = busy s := by rw [← hbusy, ← h, hbusy]
    simp only [Run.waitWhile, hsame]
    split
    · exact .error h
    · exact .ok h
  | succ bound ih =>
    intro s s' h
    have hsame : busy s' = busy s := by rw [← hbusy, ← h, hbusy]
    simp only [Run.waitWhile, hsame]
    split
    · obtain ⟨_, t, t', ht, ht', hround⟩ | ⟨e, t, t', ht, ht', hround⟩ := (hspin s s' h).inv
      · simp only [ht, ht']
        exact ih t t' hround
      · simp only [ht, ht']
        exact .error hround
    · exact .ok h

end Blind

end ConsolePipeline.Run
