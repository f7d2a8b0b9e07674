import ConsolePipeline.Proofs.Playback.Slots

namespace ConsolePipeline.Playback

open Stereo

/-!
# Calls of the software side

A playback strategy is used through four calls: acquire a place, write to it, commit it, and let
hardware time pass. A run is a list of such calls. Besides the state it is in, a run has a history:
what was committed, and how far playback had got.

* `Port` — the calls of a strategy; `Port.perform` — a run of calls and its history.
* `Alternating` — each place acquired is committed before the next is acquired.
* `Uninterrupted` — and no time passes in between.
* `Deed` — a whole frame, or time; a run of deeds lets no time pass while a place is held.
* `Port.perform_ok`, `perform_deeds_ok` — what every call, or deed, keeps holds after a run.
* `Port.perform_ok_or` — a run whose calls may fail ends well, or as one of its calls did;
  `perform_inv`, `perform_alternating` — what holds if it ends well.
* `Port.perform_frame_ok` — the calls of one frame.
-/

/-- A call of the software side. -/
inductive Call
  | acquire
  | write (words : Array Word)
  | commit (count : Nat)
  | advance (words : Nat)

/-- A frame handed over, and how many words had been played when it was. -/
structure Commit where
  /-- Words played when the call began. -/
  entry : Nat
  /-- Words played when it returned. -/
  exit : Nat
  /-- The words handed over, padded. -/
  frame : Array Word

/-- The calls of a playback strategy. -/
structure Port (σ : Type) where
  acquire : Run σ (Array Word)
  write : Array Word → Run σ Unit
  commit : Nat → Run σ Unit
  advance : Nat → Run σ Unit
  /-- The place acquired for the next frame, as it stands. -/
  place : σ → Option (Array Word)
  deck : σ → Deck

namespace Port

variable {σ : Type}

def call (P : Port σ) : Call → Run σ Unit
  | .acquire => discard P.acquire
  | .write words => P.write words
  | .commit count => P.commit count
  | .advance words => P.advance words

/-- What a call that led from `d` to `d'` adds to the history: the frame, if one was committed. -/
def noted (P : Port σ) (c : Call) (d d' : σ) : List Commit :=
  match c with
  | .acquire => []
  | .write _ => []
  | .commit count =>
    ((P.place d).map fun words => ⟨(P.deck d).played.size, (P.deck d').played.size,
      (padded words count (P.deck d).held).1⟩).toList
  | .advance _ => []

/-- A run of calls; the state comes with the commits so far. -/
def perform (P : Port σ) : List Call → Run (σ × List Commit) Unit
  | [] => pure ()
  | c :: rest => fun (d, history) => match P.call c d with
    | .ok _ d' => P.perform rest (d', history ++ P.noted c d d')
    | .error e d' => .error e (d', history)

end Port

/-! ### Disciplines -/

/-- Whether a call may be made, depending on whether a place is held. -/
def Call.Allowed (holding : Bool) : Call → Prop
  | .acquire => holding = false
  | .write _ => holding = true
  | .commit _ => holding = true
  | .advance _ => True

/-- Whether a place is held after a call. -/
def Call.holds (holding : Bool) : Call → Bool
  | .acquire => true
  | .commit _ => false
  | _ => holding

/-- **Acquire and commit alternate.** Writes stand between them; time may pass anywhere. -/
def Alternating : (holding : Bool) → List Call → Prop
  | _, [] => True
  | holding, c :: rest => c.Allowed holding ∧ Alternating (c.holds holding) rest

/-- Whether a call may be made, if software keeps the hardware from moving on while it holds a
    place. -/
def Call.Prompt (holding : Bool) : Call → Prop
  | .advance _ => holding = false
  | c => c.Allowed holding

/-- **A place is acquired, written to and committed without a break.** -/
def Uninterrupted : (holding : Bool) → List Call → Prop
  | _, [] => True
  | holding, c :: rest => c.Prompt holding ∧ Uninterrupted (c.holds holding) rest

instance (holding : Bool) (c : Call) : Decidable (c.Allowed holding) := by
  cases c <;> unfold Call.Allowed <;> infer_instance

instance (holding : Bool) (c : Call) : Decidable (c.Prompt holding) := by
  cases c <;> unfold Call.Prompt <;> infer_instance

instance decidableUninterrupted : (holding : Bool) → (calls : List Call) →
    Decidable (Uninterrupted holding calls)
  | _, [] => .isTrue trivial
  | holding, c :: rest =>
    have := decidableUninterrupted (c.holds holding) rest
    inferInstanceAs (Decidable (_ ∧ _))

instance decidableAlternating : (holding : Bool) → (calls : List Call) →
    Decidable (Alternating holding calls)
  | _, [] => .isTrue trivial
  | holding, c :: rest =>
    have := decidableAlternating (c.holds holding) rest
    inferInstanceAs (Decidable (_ ∧ _))

/-- Whether a place is held after a run. -/
def holdsAfter (holding : Bool) (calls : List Call) : Bool :=
  calls.foldl Call.holds holding

/-- A whole frame, or time that passes. -/
inductive Deed
  | frame (writes : List (Array Word)) (count : Nat)
  | advance (words : Nat)

/-- The calls that a deed consists of. -/
def Deed.calls : Deed → List Call
  | .frame writes count => .acquire :: (writes.map .write ++ [.commit count])
  | .advance words => [.advance words]

namespace Port

variable {σ : Type} {P : Port σ} {d d' : σ} {history : List Commit} {c : Call}

theorem noted_commit {words : Array Word} {count : Nat} (hplace : P.place d = some words)
    (hplayed : (P.deck d').played = (P.deck d).played) :
    P.noted (.commit count) d d' = [⟨(P.deck d).played.size, (P.deck d).played.size,
      (padded words count (P.deck d).held).1⟩] := by
  rw [noted, hplace, hplayed]
  rfl

/-- A commit is noted with the words that had been played when it began. -/
theorem entry_of_mem_noted {b : Commit} (h : b ∈ P.noted c d d') :
    b.entry = (P.deck d).played.size := by
  cases c with
  | commit count =>
    obtain ⟨words, -, rfl⟩ := Option.map_eq_some_iff.mp (Option.mem_toList.mp h)
    rfl
  | acquire => cases h
  | write words => cases h
  | advance words => cases h

/-! ### From one call to a run -/

theorem perform_cons (h : P.call c d = .ok () d') (rest : List Call) :
    P.perform (c :: rest) (d, history) = P.perform rest (d', history ++ P.noted c d d') := by
  simp only [perform, h]

/-- A run that succeeds has made its first call, and the others from there. -/
theorem perform_cons_inv {rest : List Call} {s : σ × List Commit}
    (h : P.perform (c :: rest) (d, history) = .ok () s) :
    ∃ d', P.call c d = .ok () d' ∧
      P.perform rest (d', history ++ P.noted c d d') = .ok () s := by
  simp only [perform] at h
  cases hc : P.call c d with
  | ok u d' =>
    rw [hc] at h
    exact ⟨d', rfl, h⟩
  | error e d' =>
    rw [hc] at h
    cases h

theorem perform_append {s s' : σ × List Commit} {calls : List Call}
    (h : P.perform calls s = .ok () s') (rest : List Call) :
    P.perform (calls ++ rest) s = P.perform rest s' := by
  induction calls generalizing s with
  | nil =>
    obtain rfl : s = s' := by
      simp only [perform, Run.pure_apply] at h
      injection h
    rfl
  | cons c calls ih =>
    obtain ⟨d, history⟩ := s
    obtain ⟨d', hc, h⟩ := perform_cons_inv h
    rw [List.cons_append, perform_cons hc]
    exact ih h

/-- **What every call keeps holds after a run.** The invariant may speak of the calls to come. -/
theorem perform_ok {Inv : List Call → List Commit → σ → Prop}
    (hcall : ∀ c rest history d, Inv (c :: rest) history d →
      ∃ d', P.call c d = .ok () d' ∧ Inv rest (history ++ P.noted c d d') d')
    {calls : List Call} (h : Inv calls history d) :
    ∃ d' history', P.perform calls (d, history) = .ok () (d', history') ∧ Inv [] history' d' := by
  induction calls generalizing d history with
  | nil => exact ⟨d, history, rfl, h⟩
  | cons c rest ih =>
    obtain ⟨d', hc, hinv⟩ := hcall c rest history d h
    rw [perform_cons hc]
    exact ih hinv

theorem perform_cons_error {e : Fault} (h : P.call c d = .error e d') (rest : List Call) :
    P.perform (c :: rest) (d, history) = .error e (d', history) := by
  simp only [perform, h]

/-- **A run whose calls may fail** ends well, or as one of its calls did. -/
theorem perform_ok_or {Inv : List Call → List Commit → σ → Prop}
    {Fails : Fault → List Commit → σ → Prop}
    (hcall : ∀ c rest history d, Inv (c :: rest) history d →
      (∃ d', P.call c d = .ok () d' ∧ Inv rest (history ++ P.noted c d d') d') ∨
      ∃ e d', P.call c d = .error e d' ∧ Fails e history d')
    {calls : List Call} (h : Inv calls history d) :
    ∃ d' history', (P.perform calls (d, history) = .ok () (d', history') ∧ Inv [] history' d') ∨
      ∃ e, P.perform calls (d, history) = .error e (d', history') ∧ Fails e history' d' := by
  induction calls generalizing d history with
  | nil => exact ⟨d, history, .inl ⟨rfl, h⟩⟩
  | cons c rest ih =>
    obtain ⟨d', hc, hinv⟩ | ⟨e, d', hc, hfails⟩ := hcall c rest history d h
    · rw [perform_cons hc]
      exact ih hinv
    · exact ⟨d', history, .inr ⟨e, perform_cons_error hc rest, hfails⟩⟩

/-- **What every call that succeeds keeps** holds after a run that succeeds. -/
theorem perform_inv {Inv : List Commit → σ → Prop}
    (hcall : ∀ c history d d', Inv history d → P.call c d = .ok () d' →
      Inv (history ++ P.noted c d d') d')
    {calls : List Call} {history' : List Commit} (h : Inv history d)
    (hrun : P.perform calls (d, history) = .ok () (d', history')) : Inv history' d' := by
  induction calls generalizing d history with
  | nil =>
    cases hrun
    exact h
  | cons c rest ih =>
    obtain ⟨d₁, hc, hrun⟩ := perform_cons_inv hrun
    exact ih (hcall c history d d₁ h hc) hrun

/-- **What every call that is made in turn and succeeds keeps,** also as to whether a place is
    held. -/
theorem perform_alternating {Inv : Bool → List Commit → σ → Prop}
    (hcall : ∀ holding c history d d', Inv holding history d → c.Allowed holding →
      P.call c d = .ok () d' → Inv (c.holds holding) (history ++ P.noted c d d') d')
    {holding : Bool} {calls : List Call} {history' : List Commit} (h : Inv holding history d)
    (hcalls : Alternating holding calls)
    (hrun : P.perform calls (d, history) = .ok () (d', history')) :
    Inv (holdsAfter holding calls) history' d' := by
  induction calls generalizing d history holding with
  | nil =>
    cases hrun
    exact h
  | cons c rest ih =>
    obtain ⟨hc, hrest⟩ := hcalls
    obtain ⟨d₁, hd, hrun⟩ := perform_cons_inv hrun
    exact ih (hcall holding c history d d₁ h hc hd) hrest hrun

/-- **What every deed keeps holds after a run of deeds.** -/
theorem perform_deeds_ok {Inv : List Commit → σ → Prop}
    (hdeed : ∀ (deed : Deed) history d, Inv history d →
      ∃ d' history', P.perform deed.calls (d, history) = .ok () (d', history') ∧ Inv history' d')
    (deeds : List Deed) (h : Inv history d) :
    ∃ d' history', P.perform (deeds.flatMap Deed.calls) (d, history) = .ok () (d', history') ∧
      Inv history' d' := by
  induction deeds generalizing d history with
  | nil => exact ⟨d, history, rfl, h⟩
  | cons deed deeds ih =>
    obtain ⟨d', history', hrun, hinv⟩ := hdeed deed history d h
    rw [List.flatMap_cons, perform_append hrun]
    exact ih hinv

/-- **A whole frame:** a place is acquired, written to and committed. `Held` is what holds while it
    is held. -/
theorem perform_frame_ok (Held : σ → Prop) {Done : List Commit → σ → Prop} {count : Nat}
    (hwrite : ∀ words d, Held d → ∃ d', P.call (.write words) d = .ok () d' ∧ Held d')
    (hcommit : ∀ d, Held d → ∃ d', P.call (.commit count) d = .ok () d' ∧
      Done (history ++ P.noted (.commit count) d d') d')
    (writes : List (Array Word)) {words : Array Word} (hacquire : P.acquire d = .ok words d')
    (hheld : Held d') :
    ∃ d'' history', P.perform (Deed.frame writes count).calls (d, history) =
      .ok () (d'', history') ∧
      Done history' d'' := by
  have hfirst : P.call .acquire d = .ok () d' := Run.bind_ok hacquire
  rw [Deed.calls, perform_cons hfirst, noted, List.append_nil]
  clear hfirst hacquire
  induction writes generalizing d' with
  | nil =>
    obtain ⟨d'', hd'', hdone⟩ := hcommit d' hheld
    refine ⟨d'', _, ?_, hdone⟩
    rw [List.map_nil, List.nil_append, perform_cons hd'']
    rfl
  | cons words writes ih =>
    obtain ⟨d'', hd'', hheld'⟩ := hwrite words d' hheld
    rw [List.map_cons, List.cons_append, perform_cons hd'', noted, List.append_nil]
    exact ih hheld'

end Port

end ConsolePipeline.Playback
