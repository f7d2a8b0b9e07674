import ConsolePipeline.Proofs.Run

namespace ConsolePipeline.Run

/-!
# What runs keep

A condition on the state that each action keeps, if it ends well, is kept by every computation that
is made up of such actions. Nothing is said about whether the computation ends well.

* `Preserves` — an action keeps a condition.
* `Preserves.bind`, `optional`, `get_bind`, `within`, `elapse`, `waitWhile` — what is made up of
  actions that keep it.
-/

variable {σ τ α β : Type} {P : σ → Prop}

/-- **An action keeps a condition,** if it ends well. -/
def Preserves (P : σ → Prop) (act : Run σ α) : Prop :=
  ∀ s a s', P s → act s = .ok a s' → P s'

namespace Preserves

theorem pure (a : α) : Preserves P (Pure.pure a : Run σ α) := by
  intro s _ s' hs h
  cases h
  exact hs

/-- A change of the state. -/
theorem modify {f : σ → σ} (h : ∀ s, P s → P (f s)) : Preserves P (modify f : Run σ PUnit) := by
  intro s _ s' hs hrun
  cases hrun
  exact h s hs

/-- What fails keeps anything. -/
theorem throw (fault : Fault) : Preserves P (throw fault : Run σ α) := by
  intro s _ s' _ h
  cases h

/-- One action after the other. -/
theorem bind {x : Run σ α} {f : α → Run σ β} (hx : Preserves P x) (hf : ∀ a, Preserves P (f a)) :
    Preserves P (x >>= f) := by
  intro s b s'' hs h
  obtain ⟨a, s', hfirst, hrest⟩ := bind_inv h
  exact hf a s' b s'' (hx s a s' hs hfirst) hrest

/-- An action that may be left out, before the rest. -/
theorem optional {c : Prop} [Decidable c] {x : Run σ Unit} {f : Unit → Run σ β}
    (hx : Preserves P x) (hf : ∀ a, Preserves P (f a)) :
    Preserves P (if c then x >>= f else f ()) := by
  split
  · exact hx.bind hf
  · exact hf ()

/-- A state that is looked at meets the condition. -/
theorem get_bind {f : σ → Run σ β} (hf : ∀ s, P s → Preserves P (f s)) :
    Preserves P ((get : Run σ σ) >>= f) := by
  intro s b s' hs h
  exact hf s hs s b s' hs h

/-- An action on a part of the state. -/
theorem within {focus : σ → τ × (τ → σ)} {act : Run τ α}
    (h : ∀ s a t', P s → act (focus s).1 = .ok a t' → P ((focus s).2 t')) :
    Preserves P (within focus act) := by
  intro s a s' hs hrun
  obtain ⟨t', hact, rfl⟩ := within_inv hrun
  exact h s a t' hs hact

/-- Time that passes in such steps. -/
theorem elapse {step : Nat → Run σ Nat} (hstep : ∀ limit, Preserves P (step limit)) (amount : Nat) :
    Preserves P (elapse step amount) := by
  intro s _ s' hs h
  exact elapse_inv (fun ht hrun => hstep _ _ _ _ ht hrun) hs h

/-- A wait of such rounds. -/
theorem waitWhile {busy : σ → Bool} {spin : Run σ Unit} (hspin : Preserves P spin) (bound : Nat) :
    Preserves P (waitWhile busy spin bound) := by
  intro s _ s' hs h
  exact waitWhile_inv (fun ht hrun => hspin _ _ _ ht hrun) hs h

end Preserves

end ConsolePipeline.Run
