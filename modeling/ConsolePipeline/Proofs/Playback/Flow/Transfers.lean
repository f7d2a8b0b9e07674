import Mathlib.Logic.Function.Iterate
import ConsolePipeline.Proofs.Playback.Deck
import ConsolePipeline.Proofs.Preserves

namespace ConsolePipeline

open Playback Run Stereo

/-!
# Time flows evenly

How time is cut into transfers makes no difference. A transfer of several words does what transfers
of one word each do, and the handler runs at the same words; so time that passes at once leaves what
it leaves if it passes in parts.

* `Run.tick` — one unit of time; `Run.elapse_flow` — time as so many of them.
* `Deck.Settled`, `Settled.cut` — a transfer is cut after its first word.
* `Deck.Elapsed` — the time that passes is counted as busy or idle, and the busy part is played.
* `Flows` — time is accounted for and may be cut anywhere; `Flows.of_steps` — it is enough to look
  at steps.
* `Transfers` — a strategy that plays from slots; `Transfers.iterate`, `elapsed` — what its steps
  come to.
-/

namespace Run

/-- An action that may be left out, and what comes after it. -/
theorem optional_bind {σ α : Type} (c : Prop) [Decidable c] (x : Run σ Unit) (f : Unit → Run σ α) :
    (if c then x >>= f else f ()) = (if c then x else pure ()) >>= f := by
  split <;> rfl

/-! ### Units of time -/

section Ticks

variable {σ τ : Type} {step : Nat → Run σ Nat} {view : σ → τ} {one : τ → τ} {P : σ → Prop}

/-- The state once one unit of time has passed. -/
def tick (step : Nat → Run σ Nat) (s : σ) : σ :=
  match step 1 s with
  | .ok _ s => s
  | .error _ s => s

theorem tick_eq {n : Nat} {s s' : σ} (h : step 1 s = .ok n s') : tick step s = s' := by
  rw [tick, h]

/-- **Time flows evenly** if each step comes to as many ticks as it takes, as far as one can see. -/
theorem elapse_flow (hstep : ∀ limit s, 0 < limit → P s → ∃ n s', step limit s = .ok n s' ∧
      0 < n ∧ n ≤ limit ∧ P s' ∧ view s' = one^[n] (view s)) (amount : Nat) {s : σ} (h : P s) :
    ∃ s', elapse step amount s = .ok () s' ∧ P s' ∧ view s' = one^[amount] (view s) := by
  let Q (t : Nat) (s' : σ) : Prop := P s' ∧ view s' = one^[t] (view s)
  have hnext : ∀ t limit s', 0 < limit → Q t s' →
      ∃ n s'', step limit s' = .ok n s'' ∧ 0 < n ∧ n ≤ limit ∧ Q (t + n) s'' := by
    rintro t limit s' hlimit ⟨hP, hview⟩
    obtain ⟨n, s'', hs, hpos, hle, hP', hview'⟩ := hstep limit s' hlimit hP
    refine ⟨n, s'', hs, hpos, hle, hP', ?_⟩
    rw [hview', hview, Nat.add_comm, Function.iterate_add_apply]
  obtain ⟨s', hs', hP, hview⟩ := elapse_ok hnext amount 0 s ⟨h, rfl⟩
  rw [Nat.zero_add] at hview
  exact ⟨s', hs', hP, hview⟩

end Ticks

end Run

namespace Playback

/-! ### A transfer, word by word -/

namespace Engine

variable {e : Engine} {ch : ChannelId}

/-- Only the last place that a channel in ring mode has come to matters. -/
theorem turned_turned (e : Engine) (ch : ChannelId) (a b : Nat) :
    (e.turned ch a).turned ch b = e.turned ch b :=
  modifyChannel_modifyChannel _ _ _ _

end Engine

namespace Deck

variable {d t : Deck} {memory : Array (Array Word)} {limit : Nat} {st : Step}

theorem heard_heard (d : Deck) (out out' : Array Word) (e e' : Engine) :
    (d.heard out e).heard out' e' = d.heard (out ++ out') e' := by
  simp only [heard, Array.append_assoc, Array.size_append, Nat.add_assoc]

theorem idled_idled (d : Deck) (a b : Nat) : (d.idled a).idled b = d.idled (a + b) := by
  simp only [idled, Nat.add_assoc]

/-- **An engine that is at rest, or on its way through words that are there.** -/
inductive Settled (memory : Array (Array Word)) (d : Deck) : Prop
  | idle (stopped : ∀ c : ChannelId, (d.engine.channel c).busy = false)
  | reads {ch : ChannelId} {slot w len : Nat} {words : Array Word}
      (running : d.engine.running? = some ch) (reads : (d.engine.channel ch).Reads slot w len)
      (slot_lt : slot < 4096) (there : memory[slot]? = some words) (size : words.size = len)
      (addressable : len ≤ regionWords) (word : w < len)

section Reads

variable {ch : ChannelId} {slot w len : Nat} {words : Array Word}

/-- The outcome of a transfer of `n` words of a slot. -/
def readOut (d : Deck) (ch : ChannelId) (words : Array Word) (w n : Nat) :
    EStateM.Result Fault Deck Step :=
  if words.size - w - n = 0 then
    match (d.engine.moved ch n).complete ch with
    | .ok engine => .ok ⟨n, false, some ch⟩ (d.heard (words.extract w (w + n)) engine)
    | .error e => .error e d
  else .ok ⟨n, false, none⟩ (d.heard (words.extract w (w + n)) (d.engine.moved ch n))

/-- A transfer comes to as many words as are asked for and left. -/
theorem transfer_reads (running : d.engine.running? = some ch)
    (reads : (d.engine.channel ch).Reads slot w len) (slot_lt : slot < 4096)
    (there : memory[slot]? = some words) (size : words.size = len)
    (addressable : len ≤ regionWords) (word : w < len) (hlimit : 0 < limit) :
    transfer memory limit d = d.readOut ch words w (min limit (len - w)) := by
  have hout : (words.extract w (w + min limit (len - w))).size = min limit (len - w) := by
    rw [Array.size_extract]
    omega
  rw [transfer, Engine.step_eq running reads slot_lt there size addressable word hlimit, readOut,
    size]
  by_cases hend : len - w - min limit (len - w) = 0
  · rw [if_pos hend, if_pos hend]
    cases (d.engine.moved ch (min limit (len - w))).complete ch with
    | error e => rfl
    | ok engine =>
      simp only [heard, hout]
      rfl
  · rw [if_neg hend, if_neg hend]
    simp only [heard, hout]
    rfl

/-- The first word of several, and then the others. -/
theorem readOut_cut {n : Nat} (hword : w + (n + 1) ≤ words.size) (hn : 0 < n)
    (h : d.readOut ch words w (n + 1) = .ok st t) :
    d.readOut ch words w 1 =
        .ok ⟨1, false, none⟩ (d.heard (words.extract w (w + 1)) (d.engine.moved ch 1)) ∧
      (d.heard (words.extract w (w + 1)) (d.engine.moved ch 1)).readOut ch words (w + 1) n =
        .ok ⟨n, false, st.completed⟩ t := by
  have hout : words.extract w (w + 1) ++ words.extract (w + 1) (w + 1 + n) =
      words.extract w (w + (n + 1)) := by
    rw [Array.extract_append_extract]
    congr 1 <;> omega
  have hengine : (d.heard (words.extract w (w + 1)) (d.engine.moved ch 1)).engine.moved ch n =
      d.engine.moved ch (n + 1) := by
    rw [Nat.add_comm n 1]
    exact Engine.moved_moved _ _ _ _
  refine ⟨by rw [readOut, if_neg (by omega)], ?_⟩
  have hleft : words.size - (w + 1) - n = words.size - w - (n + 1) := by omega
  rw [readOut] at h ⊢
  rw [hleft, hengine]
  -- What completes the block is its last word, so the rest of the transfer completes it if the
  -- whole does.
  by_cases hend : words.size - w - (n + 1) = 0
  · rw [if_pos hend] at h ⊢
    cases hcomplete : (d.engine.moved ch (n + 1)).complete ch with
    | error e =>
      rw [hcomplete] at h
      cases h
    | ok engine =>
      rw [hcomplete] at h
      cases h
      simp only [heard_heard, hout]
  · rw [if_neg hend] at h ⊢
    cases h
    simp only [heard_heard, hout]

theorem readOut_inv {n : Nat} (h : d.readOut ch words w n = .ok st t) :
    st.transferred = n ∧ st.idle = false := by
  rw [readOut] at h
  split at h
  · split at h <;> cases h
    exact ⟨rfl, rfl⟩
  · cases h
    exact ⟨rfl, rfl⟩

end Reads

/-- **A transfer is cut after its first word,** if it has more than one: the rest of it is a
    transfer of its own, which completes what the whole would have. -/
theorem Settled.cut (h : d.Settled memory) (hlimit : 0 < limit)
    (ht : transfer memory limit d = .ok st t) :
    (st.transferred = 1 ∧ transfer memory 1 d = .ok st t) ∨
      ∃ n t₁, 0 < limit - 1 ∧ st.transferred = n + 1 ∧
        transfer memory 1 d = .ok ⟨1, st.idle, none⟩ t₁ ∧ t₁.Settled memory ∧
        transfer memory (limit - 1) t₁ = .ok ⟨n, st.idle, st.completed⟩ t := by
  cases h with
  | idle stopped =>
    rw [transfer_idle stopped] at ht
    cases ht
    rw [transfer_idle stopped]
    obtain rfl | hmore : limit = 1 ∨ 0 < limit - 1 := by omega
    · exact .inl ⟨rfl, rfl⟩
    · have hstopped : ∀ c : ChannelId, ((d.idled 1).engine.channel c).busy = false := stopped
      have hcount : limit = limit - 1 + 1 := by omega
      refine .inr ⟨limit - 1, d.idled 1, hmore, hcount, rfl, .idle hstopped, ?_⟩
      rw [transfer_idle hstopped, idled_idled, Nat.add_sub_cancel' hlimit]
  | @reads ch slot w len words running reads slot_lt there size addressable word =>
    rw [transfer_reads running reads slot_lt there size addressable word hlimit] at ht
    rw [transfer_reads running reads slot_lt there size addressable word Nat.one_pos,
      Nat.min_eq_left (by omega : 1 ≤ len - w)]
    -- A transfer is cut only if it takes more than one word, whatever its limit.
    obtain hone | ⟨n, hn, hmore⟩ :
        min limit (len - w) = 1 ∨ ∃ n, 0 < n ∧ min limit (len - w) = n + 1 := by
      by_cases hone : min limit (len - w) = 1
      · exact .inl hone
      · exact .inr ⟨min limit (len - w) - 1, by omega, by omega⟩
    · rw [hone] at ht
      exact .inl ⟨(readOut_inv ht).1, ht⟩
    · rw [hmore] at ht
      obtain ⟨hfirst, hrest⟩ := readOut_cut (by omega) hn ht
      obtain ⟨hcount, hbusy⟩ := readOut_inv ht
      have hreads : ((d.engine.moved ch 1).channel ch).Reads slot (w + 1) len :=
        Engine.reads_moved reads
      have hrunning : (d.engine.moved ch 1).running? = some ch :=
        (Engine.running?_moved _ _ _).trans running
      refine .inr ⟨n, d.heard (words.extract w (w + 1)) (d.engine.moved ch 1), by omega, hcount, ?_,
        .reads hrunning hreads slot_lt there size addressable (by omega), ?_⟩
      · rw [hfirst, hbusy]
      · rw [transfer_reads hrunning hreads slot_lt there size addressable (by omega) (by omega),
          show min (limit - 1) (len - (w + 1)) = n by omega, hrest, hbusy]

/-! ### The time that passes -/

/-- What has been played, and the words of time counted as busy and as idle. -/
def clock (d : Deck) : Array Word × Nat × Nat :=
  (d.played, d.stats.hardwareWords, d.stats.idleWords)

/-- **So much time has passed:** it has been counted as busy or idle, and as many words as it was
    busy have been played. -/
structure Elapsed (n : Nat) (d d' : Deck) : Prop where
  counted : d'.stats.hardwareWords + d'.stats.idleWords =
    d.stats.hardwareWords + d.stats.idleWords + n
  played : ∃ out, d'.played = d.played ++ out ∧
    d'.stats.hardwareWords = d.stats.hardwareWords + out.size

theorem Elapsed.refl (d : Deck) : Elapsed 0 d d :=
  ⟨rfl, #[], by rw [Array.append_empty], rfl⟩

theorem Elapsed.trans {a b : Nat} {d₁ d₂ d₃ : Deck} (h : Elapsed a d₁ d₂) (h' : Elapsed b d₂ d₃) :
    Elapsed (a + b) d₁ d₃ := by
  obtain ⟨out, hout, hwords⟩ := h.played
  obtain ⟨out', hout', hwords'⟩ := h'.played
  refine ⟨by rw [h'.counted, h.counted, Nat.add_assoc], out ++ out', ?_, ?_⟩
  · rw [hout', hout, Array.append_assoc]
  · rw [hwords', hwords, Array.size_append, Nat.add_assoc]

/-- It is told by the clock alone. -/
theorem Elapsed.congr {d₁ d₂ d₃ : Deck} {n : Nat} (h : Elapsed n d₁ d₂)
    (hsame : d₃.clock = d₂.clock) :
    Elapsed n d₁ d₃ := by
  simp only [clock, Prod.mk.injEq] at hsame
  obtain ⟨hplayed, hwords, hidle⟩ := hsame
  refine ⟨by rw [hwords, hidle, h.counted], ?_⟩
  rw [hplayed, hwords]
  exact h.played

theorem elapsed_heard (d : Deck) (out : Array Word) (e : Engine) :
    Elapsed out.size d (d.heard out e) :=
  ⟨Nat.add_right_comm _ _ _, out, rfl, rfl⟩

theorem elapsed_idled (d : Deck) (n : Nat) : Elapsed n d (d.idled n) :=
  ⟨(Nat.add_assoc _ _ _).symm, #[], by rw [Array.append_empty]; rfl, rfl⟩

theorem Elapsed.readOut {ch : ChannelId} {words : Array Word} {w n : Nat}
    (hword : w + n ≤ words.size) (h : d.readOut ch words w n = .ok st t) :
    Elapsed st.transferred d t := by
  have hsize : (words.extract w (w + n)).size = n := by
    rw [Array.size_extract]
    omega
  have hheard : ∀ e, Elapsed n d (d.heard (words.extract w (w + n)) e) := by
    intro e
    have helapsed := elapsed_heard d (words.extract w (w + n)) e
    rwa [hsize] at helapsed
  rw [(readOut_inv h).1]
  rw [Deck.readOut] at h
  split at h
  · split at h <;> cases h
    exact hheard _
  · cases h
    exact hheard _

/-- A transfer takes the time that it says. -/
theorem Settled.elapsed (h : d.Settled memory) (hlimit : 0 < limit)
    (ht : transfer memory limit d = .ok st t) : Elapsed st.transferred d t := by
  cases h with
  | idle stopped =>
    rw [transfer_idle stopped] at ht
    cases ht
    exact elapsed_idled d limit
  | reads running reads slot_lt there size addressable word =>
    rw [transfer_reads running reads slot_lt there size addressable word hlimit] at ht
    exact Elapsed.readOut (by omega) ht

end Deck

/-! ### Time that may be cut -/

/-- **Time flows evenly** from a state on. It passes; what passes is counted, and what is played is
    what is counted as busy; and as far as one can see it may be cut anywhere. -/
structure Flows {σ τ : Type} (advance : Nat → Run σ Unit) (deck : σ → Deck) (view : σ → τ) (s : σ) :
    Prop where
  cut : ∀ a b, ∃ s₁ s₂ s₃, advance a s = .ok () s₁ ∧ advance b s₁ = .ok () s₂ ∧
    advance (a + b) s = .ok () s₃ ∧ view s₃ = view s₂
  elapsed : ∀ n, ∃ s', advance n s = .ok () s' ∧ (deck s).Elapsed n (deck s')

/-- It does if every step comes to as many ticks as it takes. -/
theorem Flows.of_steps {σ τ : Type} {step : Nat → Run σ Nat} {deck : σ → Deck} {view : σ → τ}
    {one : τ → τ} {P : σ → Prop}
    (hstep : ∀ limit s, 0 < limit → P s → ∃ n s', step limit s = .ok n s' ∧ 0 < n ∧ n ≤ limit ∧
      P s' ∧ view s' = one^[n] (view s) ∧ (deck s).Elapsed n (deck s')) {s : σ} (h : P s) :
    Flows (elapse step) deck view s := by
  have hview : ∀ limit s, 0 < limit → P s → ∃ n s', step limit s = .ok n s' ∧ 0 < n ∧
      n ≤ limit ∧ P s' ∧ view s' = one^[n] (view s) := by
    intro limit s hlimit hs
    obtain ⟨n, s', hrun, hpos, hle, hs', hsame, -⟩ := hstep limit s hlimit hs
    exact ⟨n, s', hrun, hpos, hle, hs', hsame⟩
  -- The view is that of so many ticks, and ticks are added up; what has elapsed is added up step by
  -- step.
  refine ⟨fun a b => ?_, fun n => ?_⟩
  · obtain ⟨s₁, hs₁, hP₁, hview₁⟩ := elapse_flow hview a h
    obtain ⟨s₂, hs₂, -, hview₂⟩ := elapse_flow hview b hP₁
    obtain ⟨s₃, hs₃, -, hview₃⟩ := elapse_flow hview (a + b) h
    refine ⟨s₁, s₂, s₃, hs₁, hs₂, hs₃, ?_⟩
    rw [hview₃, hview₂, hview₁, Nat.add_comm, Function.iterate_add_apply]
  · let Q (t : Nat) (s' : σ) : Prop := P s' ∧ (deck s).Elapsed t (deck s')
    have hnext : ∀ t limit s', 0 < limit → Q t s' →
        ∃ n s'', step limit s' = .ok n s'' ∧ 0 < n ∧ n ≤ limit ∧ Q (t + n) s'' := by
      rintro t limit s' hlimit ⟨hs', helapsed⟩
      obtain ⟨n, s'', hrun, hpos, hle, hs'', -, hmore⟩ := hstep limit s' hlimit hs'
      exact ⟨n, s'', hrun, hpos, hle, hs'', helapsed.trans hmore⟩
    obtain ⟨s', hs', -, helapsed⟩ := elapse_ok hnext n 0 s ⟨h, .refl _⟩
    rw [Nat.zero_add] at helapsed
    exact ⟨s', hs', helapsed⟩

/-! ### Strategies that play from slots -/

/-- **A strategy's step is a transfer,** and its handler if that completed a slot. -/
structure Transfers {σ : Type} (deck : σ → Deck) (put : Deck → σ → σ)
    (memory : σ → Array (Array Word)) (handler : Run σ Unit) (step : Nat → Run σ Nat) : Prop where
  step_eq : ∀ limit s, step limit s = match Deck.transfer (memory s) limit (deck s) with
    | .ok st t => (if st.completed.isSome then handler >>= fun _ => pure st.transferred
        else pure st.transferred) (put t s)
    | .error e t => .error e (put t s)
  deck_put : ∀ t s, deck (put t s) = t
  memory_put : ∀ t s, memory (put t s) = memory s
  put_put : ∀ t t' s, put t' (put t s) = put t' s
  /-- The handler takes no time. -/
  handler_clock : ∀ k, Preserves (fun s => (deck s).clock = k) handler

namespace Transfers

variable {σ : Type} {deck : σ → Deck} {put : Deck → σ → σ} {memory : σ → Array (Array Word)}
  {handler : Run σ Unit} {step : Nat → Run σ Nat} {limit n : Nat} {s s' : σ}

/-- A step that succeeds is a transfer that does, and then the handler. -/
theorem step_inv (h : Transfers deck put memory handler step) (hstep : step limit s = .ok n s') :
    ∃ st t, Deck.transfer (memory s) limit (deck s) = .ok st t ∧ st.transferred = n ∧
      (if st.completed.isSome then handler else pure ()) (put t s) = .ok () s' := by
  rw [h.step_eq] at hstep
  cases htransfer : Deck.transfer (memory s) limit (deck s) with
  | error e t =>
    rw [htransfer] at hstep
    cases hstep
  | ok st t =>
    rw [htransfer] at hstep
    obtain ⟨_, s₁, hhandler, hrest⟩ := bind_inv
      ((congrFun (optional_bind _ handler fun _ => pure st.transferred) _).symm.trans hstep)
    cases hrest
    exact ⟨st, t, rfl, rfl, hhandler⟩

theorem step_ok (h : Transfers deck put memory handler step) {st : Step} {t : Deck}
    (htransfer : Deck.transfer (memory s) limit (deck s) = .ok st t)
    (hhandler : (if st.completed.isSome then handler else pure ()) (put t s) = .ok () s') :
    step limit s = .ok st.transferred s' := by
  rw [h.step_eq, htransfer]
  exact (congrFun (optional_bind _ _ _) _).trans (bind_ok hhandler)

/-- **A step comes to as many ticks as it takes.** The induction is on the words it takes, of which
    the first is cut off. -/
theorem iterate (h : Transfers deck put memory handler step) (hs : (deck s).Settled (memory s))
    (hlimit : 0 < limit) (hstep : step limit s = .ok n s') : (tick step)^[n] s = s' := by
  induction n generalizing limit s with
  | zero =>
    obtain ⟨st, t, htransfer, hn, -⟩ := h.step_inv hstep
    obtain ⟨hone, -⟩ | ⟨n, t₁, -, hcount, -⟩ := hs.cut hlimit htransfer <;> omega
  | succ n ih =>
    obtain ⟨st, t, htransfer, hn, hhandler⟩ := h.step_inv hstep
    rw [Function.iterate_succ_apply]
    obtain ⟨hone, hfirst⟩ | ⟨k, t₁, hmore, hcount, hfirst, hsettled, hrest⟩ :=
      hs.cut hlimit htransfer
    · rw [tick_eq (h.step_ok hfirst hhandler)]
      obtain rfl : n = 0 := by omega
      rfl
    · obtain rfl : k = n := by omega
      rw [tick_eq (h.step_ok hfirst rfl)]
      rw [← h.deck_put t₁ s, ← h.memory_put t₁ s] at hsettled
      rw [← h.deck_put t₁ s, ← h.memory_put t₁ s] at hrest
      rw [← h.put_put t₁ t s] at hhandler
      exact ih hsettled hmore (h.step_ok hrest hhandler)

/-- A step takes the time that it says. -/
theorem elapsed (h : Transfers deck put memory handler step) (hs : (deck s).Settled (memory s))
    (hlimit : 0 < limit) (hstep : step limit s = .ok n s') : (deck s).Elapsed n (deck s') := by
  obtain ⟨st, t, htransfer, rfl, hhandler⟩ := h.step_inv hstep
  have helapsed := hs.elapsed hlimit htransfer
  refine helapsed.congr ?_
  split at hhandler
  · exact h.handler_clock t.clock _ _ _ (congrArg Deck.clock (h.deck_put t s)) hhandler
  · cases hhandler
    rw [h.deck_put]

/-- **Time flows evenly** while steps succeed and transfers may be cut. -/
theorem flows (h : Transfers deck put memory handler step) {P : σ → Prop}
    (hsettled : ∀ s, P s → (deck s).Settled (memory s))
    (hstep : ∀ limit s, 0 < limit → P s →
      ∃ n s', step limit s = .ok n s' ∧ 0 < n ∧ n ≤ limit ∧ P s') (hs : P s) :
    Flows (elapse step) deck id s := by
  have hticks : ∀ limit s, 0 < limit → P s → ∃ n s', step limit s = .ok n s' ∧ 0 < n ∧
      n ≤ limit ∧ P s' ∧ id s' = (tick step)^[n] (id s) ∧ (deck s).Elapsed n (deck s') := by
    intro limit s hlimit hs
    obtain ⟨n, s', hrun, hpos, hle, hs'⟩ := hstep limit s hlimit hs
    have hsettled := hsettled s hs
    exact ⟨n, s', hrun, hpos, hle, hs', (h.iterate hsettled hlimit hrun).symm,
      h.elapsed hsettled hlimit hrun⟩
  exact .of_steps hticks hs

end Transfers

end Playback

end ConsolePipeline
