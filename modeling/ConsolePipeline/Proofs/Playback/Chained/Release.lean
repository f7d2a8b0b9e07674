import ConsolePipeline.Proofs.Playback.Interrupted.Player
import ConsolePipeline.Proofs.Preserves

namespace ConsolePipeline.Playback.Chained

open Stereo Run

/-!
# Chained ping-pong: which waits end

Software fills the two slots in turn, and an acquire waits while the slot whose turn it is plays.
That wait ends unless a round of it is a whole number of passes over both slots, and then the slot
is one whose last frame has been heard to its end.

* `Chained.keepsTurn_acquire`, `keepsTurn_advance` — only a commit passes the turn on.
* `Chained.InTurn` — each commit is played from the slot whose turn it was.
* `Chained.Reached` — the states between calls, with that; `Reached.perform` — a run stays there.
* `Chained.Live.stalls` — the wait that does not end; `Held.heard` — what has been heard when one
  ends.
* `Chained.acquire_ends_iff` — the exact condition.
-/

variable {d d' : Chained} {len pole m w : Nat} {history : List Commit} {holding : Bool}

/-! ### Whose turn it is -/

section Turn

variable {α : Type} {k : Nat}

/-- It is the turn of slot `k`. -/
def Turn (k : Nat) (d : Chained) : Prop :=
  d.nextFill = k

theorem keepsTurn_onDeck (act : Run Deck α) : Preserves (Turn k) (onDeck act) :=
  .within fun _ _ _ hs _ => hs

theorem keepsTurn_onSlots (act : Run Slots α) : Preserves (Turn k) (onSlots act) :=
  .within fun _ _ _ hs _ => hs

theorem keepsTurn_markPlaying (slot : Nat) : Preserves (Turn k) (markPlaying slot) := by
  refine .bind (keepsTurn_onSlots _) fun _ => ?_
  exact .optional (.modify fun _ hd => hd) fun _ => .modify fun _ hd => hd

theorem keepsTurn_retire (tag : Option Nat) (slot : Nat) :
    Preserves (Turn k) (retire tag slot) := by
  refine .bind (.modify fun _ hd => hd) fun _ => .get_bind fun _ _ => ?_
  refine .optional (.modify fun _ hd => hd) fun _ => ?_
  split
  · exact .pure _
  · refine .bind (keepsTurn_onSlots _) fun _ => .bind (.modify fun _ hd => hd) fun _ => ?_
    exact keepsTurn_markPlaying _

theorem keepsTurn_service : Preserves (Turn k) service := by
  refine .get_bind fun _ _ => .bind (.modify fun _ hd => hd) fun _ => ?_
  refine .optional (keepsTurn_retire _ 0) fun _ => ?_
  split
  · exact keepsTurn_retire _ 1
  · exact .pure _

theorem keepsTurn_advance (words : Nat) : Preserves (Turn k) (advance words) := by
  refine .elapse (fun limit => ?_) words
  refine .get_bind fun _ _ => .bind (keepsTurn_onDeck _) fun _ => ?_
  exact .optional keepsTurn_service fun _ => .pure _

theorem keepsTurn_acquire : Preserves (Turn k) acquire := by
  refine .bind keepsTurn_service fun _ => .get_bind fun d _ => ?_
  refine .bind (.waitWhile ?_ _) fun _ => .get_bind fun d _ => ?_
  · exact .bind (.modify fun _ hd => hd) fun _ => keepsTurn_advance waitWords
  · refine .bind (keepsTurn_onSlots _) fun _ => .bind (.modify fun _ hd => hd) fun _ => ?_
    exact .get_bind fun _ _ => .pure _

theorem keepsTurn_write (words : Array Word) : Preserves (Turn k) (write words) := by
  refine .get_bind fun _ _ => ?_
  split
  · exact keepsTurn_onSlots _
  · exact .pure _

/-- **A commit passes the turn on.** -/
theorem turn_commit {slot count : Nat} (hshaped : d.slots.Shaped 2 len pole) (hslot : slot < 2)
    (hfilling : d.filling = some slot) (hstate : d.slots.state? slot = some .filling)
    (h : commit count d = .ok () d') : d'.nextFill = 1 - d.nextFill := by
  have hhanded : Turn (1 - d.nextFill) (d.handed slot count) := rfl
  rw [commit_eq hshaped hslot hfilling hstate] at h
  split at h
  · refine Preserves.bind (keepsTurn_markPlaying 0) (fun _ => ?_) _ () _ hhanded h
    exact .modify fun _ hd => hd
  · cases h
    exact hhanded

end Turn

/-! ### Commits in turn -/

/-- **Each commit is played from the slot whose turn it was:** commit `k` from slot `k % 2`, as
    block `n` is played from slot `n % 2`. -/
def InTurn (len : Nat) (history : List Commit) : Prop :=
  ∀ n, (due len history n).isSome → n % 2 = dueCount len history n % 2

theorem inTurn_nil (len : Nat) : InTurn len [] := by
  intro n hn
  obtain ⟨c, hc⟩ := Option.isSome_iff_exists.mp hn
  exact absurd (due_mem hc) List.not_mem_nil

theorem inTurn_singleton (len : Nat) (c : Commit) : InTurn len [c] := by
  intro n hn
  cases n with
  | zero => rfl
  | succ n =>
    have hnil : waiting len [c] n = [] := waiting_of_nil (n := 0) rfl (Nat.zero_le n)
    rw [due_succ_of_nil hnil] at hn
    cases hn

/-- **A commit made while nothing waits** is played next, so it has to be its slot's turn. -/
theorem InTurn.append {c : Commit} (h : InTurn len history) (hne : history ≠ [])
    (hentry : m * len ≤ c.entry) (hlt : c.entry < (m + 1) * len)
    (hwait : waiting len history m = []) (hturn : history.length % 2 = (m + 1) % 2) :
    InTurn len (history ++ [c]) := by
  have hle : ∀ k ≤ m, k * len ≤ c.entry := fun k hk =>
    Nat.le_trans (Nat.mul_le_mul_right len hk) hentry
  have hsame : waiting len (history ++ [c]) m = [c] := by
    rw [waiting_append hne hentry, hwait, List.nil_append]
  intro n hn
  obtain hbefore | rfl | hafter : n ≤ m ∨ n = m + 1 ∨ m + 1 < n := by omega
  · rw [due_append hne (hle n hbefore)] at hn
    rw [dueCount_append hne fun k hk => hle k (by omega)]
    exact h n hn
  · have hcount : history.length = (waiting len history m).length +
        dueCount len history (m + 1) := length_eq_waiting_add hne m
    rw [hwait, List.length_nil, Nat.zero_add] at hcount
    rw [dueCount_append hne fun k hk => hle k (by omega), ← hcount, hturn]
  · -- No commit is left for a later block.
    obtain ⟨n, rfl⟩ : ∃ k, n = k + 1 := ⟨n - 1, by omega⟩
    have hnil : waiting len (history ++ [c]) n = [] :=
      waiting_of_nil (waiting_succ_of_lt hsame hlt) (by omega)
    rw [due_succ_of_nil hnil] at hn
    cases hn

/-! ### Runs of calls -/

/-- **The states between calls,** with whose turn it is and was. -/
structure Reached (len pole : Nat) (history : List Commit) (holding : Bool) (d : Chained) :
    Prop where
  sound : Sound len pole history holding d
  begins : Begins history
  turn : d.nextFill = history.length % 2
  inTurn : InTurn len history

/-- The slot that is held is the one whose turn it is. -/
theorem Sound.filling (h : Sound len pole history true d) :
    d.nextFill < 2 ∧ d.filling = some d.nextFill ∧
      d.slots.state? d.nextFill = some .filling ∧ d.slots.Shaped 2 len pole := by
  rcases h with h | ⟨-, m, w, h⟩
  · exact ⟨h.loading.next_lt, h.loading.held, h.loading.target, h.shaped⟩
  · have hheld : Held len pole history d m w := h
    rw [hheld.turn]
    exact ⟨Nat.mod_lt _ Nat.zero_lt_two, hheld.filling, hheld.target, hheld.shaped⟩

/-- What the commit of a held slot adds to the history. -/
theorem Sound.noted_commit (h : Sound len pole history true d) (count : Nat) (d' : Chained) :
    ∃ c, port.noted (.commit count) d d' = [c] ∧ c.entry = d.played.size := by
  obtain ⟨-, hfilling, -, -⟩ := h.filling
  have hplace : port.place d = some (d.slots.words d.nextFill) :=
    congrArg (Option.map d.slots.words) hfilling
  obtain ⟨c, hnoted⟩ : ∃ c, port.noted (.commit count) d d' = [c] := by
    rw [Port.noted, hplace]
    exact ⟨_, rfl⟩
  refine ⟨c, hnoted, ?_⟩
  exact Port.entry_of_mem_noted (P := port) (by rw [hnoted]; exact List.mem_singleton_self c)

/-- **A commit joins the history in its turn.** -/
theorem Reached.inTurn_commit {c : Commit} (h : Reached len pole history true d) (hpos : 0 < len)
    (hc : c.entry = d.played.size) : InTurn len (history ++ [c]) := by
  rcases h.sound with hpre | ⟨-, m, w, hheld⟩
  · have hentry : c.entry = 0 := by
      rw [hc, hpre.played]
      rfl
    match history, hpre.loading.few, h.inTurn with
    | [], _, _ => exact inTurn_singleton len c
    | [b], _, hturn =>
      exact hturn.append (m := 0) (List.cons_ne_nil b []) (by omega) (by omega) rfl rfl
  · have hheld : Held len pole history d m w := hheld
    have hmany := hheld.many
    have hturn := hheld.turn
    rw [h.turn] at hturn
    refine h.inTurn.append (List.ne_nil_of_length_pos (by omega)) ?_ ?_ hheld.waiting hturn
    · exact hc.symm ▸ hheld.deck.begun
    · exact hc.symm ▸ hheld.deck.not_ended

/-- **A call leads from one such state to the next.** -/
theorem Reached.call {c : Call} (hpos : 0 < len) (hlen : len ≤ regionWords)
    (h : Reached len pole history holding d) (hc : c.Allowed holding)
    (hd : port.call c d = .ok () d') :
    Reached len pole (history ++ port.noted c d d') (c.holds holding) d' := by
  have hsound : Sound len pole (history ++ port.noted c d d') (c.holds holding) d' := by
    obtain ⟨-, ⟨t, ht, hsound⟩ | ⟨t, ht, -⟩⟩ | ⟨-, slot, t, ht, -⟩ :=
      h.sound.call_anytime hpos hlen h.begins hc
    · cases ht.symm.trans hd
      exact hsound
    · cases ht.symm.trans hd
    · cases ht.symm.trans hd
  have hbegins : Begins (history ++ port.noted c d d') := h.begins.append h.sound.silent
  -- Only a commit changes whose turn it is, and the history.
  cases c with
  | acquire =>
    obtain ⟨words, t, ht, hrest⟩ := Run.bind_inv hd
    cases hrest
    simp only [Port.noted, List.append_nil] at hsound hbegins ⊢
    exact ⟨hsound, hbegins, keepsTurn_acquire _ _ _ h.turn ht, h.inTurn⟩
  | write words =>
    simp only [Port.noted, List.append_nil] at hsound hbegins ⊢
    exact ⟨hsound, hbegins, keepsTurn_write words _ _ _ h.turn hd, h.inTurn⟩
  | advance n =>
    simp only [Port.noted, List.append_nil] at hsound hbegins ⊢
    exact ⟨hsound, hbegins, keepsTurn_advance n _ _ _ h.turn hd, h.inTurn⟩
  | commit count =>
    obtain rfl : holding = true := hc
    obtain ⟨hslot, hfilling, hstate, hshaped⟩ := h.sound.filling
    obtain ⟨c, hnoted, hentry⟩ := h.sound.noted_commit count d'
    rw [hnoted] at hsound hbegins ⊢
    refine ⟨hsound, hbegins, ?_, h.inTurn_commit hpos hentry⟩
    rw [turn_commit hshaped hslot hfilling hstate hd, h.turn, List.length_append,
      List.length_singleton]
    omega

/-- **A run of calls, with time passing anywhere, leads to such a state** if it ends well. -/
theorem Reached.perform {calls : List Call} {past : List Commit} (hpos : 0 < len)
    (hlen : len ≤ regionWords) (h : Reached len pole past holding d)
    (hcalls : Alternating holding calls)
    (hrun : port.perform calls (d, past) = .ok () (d', history)) :
    Reached len pole history (holdsAfter holding calls) d' := by
  let Inv (holding : Bool) (history : List Commit) (d : Chained) : Prop :=
    Reached len pole history holding d
  have hcall : ∀ holding c history d d', Inv holding history d → c.Allowed holding →
      port.call c d = .ok () d' → Inv (c.holds holding) (history ++ port.noted c d d') d' :=
    fun _ _ _ _ _ h hc hd => h.call hpos hlen hc hd
  exact Port.perform_alternating hcall h hcalls hrun

theorem reached_new {engine : Engine} {first second : Nat}
    (hnew : new engine first second len pole = .ok d) (hquiet : engine.Quiet) :
    Reached len pole [] false d := by
  have hpre := (preroll_new hnew hquiet (channels_ne hnew)).1
  exact ⟨.inl hpre, .nil, hpre.loading.turn, inTurn_nil len⟩

/-! ### The wait -/

/-- **The wait does not end** if each round of it is a whole number of passes over both slots. -/
theorem Live.stalls (hlen : len ≤ regionWords) (hround : len ∣ 32)
    (h : Live len pole history d m w) (hturn : d.nextFill = m % 2) (bound : Nat) :
    ∃ s, Run.waitWhile mustWait Chained.spin bound d = .error .stalled s := by
  obtain ⟨q, hq⟩ := hround
  let P (s : Chained) : Prop := ∃ m w, Live len pole history s m w ∧ s.nextFill = m % 2
  have hbusy : ∀ s, P s → s.mustWait = true ∧ ∃ s', Chained.spin s = .ok () s' ∧ P s' := by
    rintro s ⟨m, w, hlive, hturn⟩
    obtain ⟨s', hs', ⟨m', w', hlive'⟩, hsize, hsame, -⟩ := hlive.spin hlen
    refine ⟨hlive.mustWait_iff.mpr hturn, s', hs', m', w', hlive', ?_⟩
    -- After `2 * q` more blocks the same slot plays.
    have hplace : m' * len + w' = (m + 2 * q) * len + w := by
      rw [← hlive'.deck.size, hsize, hlive.deck.size, waitWords, Nat.add_mul, Nat.mul_assoc,
        Nat.mul_comm q, ← hq]
      omega
    have hblock : m' = m + 2 * q := by
      have hm' := div_mul_add (m := m') hlive'.deck.word
      rw [hplace, div_mul_add hlive.deck.word] at hm'
      exact hm'.symm
    rw [hsame, hturn, hblock]
    omega
  exact Run.waitWhile_stalls hbusy bound d ⟨m, w, h, hturn⟩

/-- Software waits unless it is the turn of the slot that does not play. -/
theorem Live.draining_iff (h : Live len pole history d m w) :
    d.slots.state? d.nextFill = some .draining ↔ d.nextFill = m % 2 := by
  constructor
  · intro hstate
    by_contra hturn
    have hslot : d.nextFill = (m + 1) % 2 := by
      cases h.queue with
      | empty _ hlt => omega
      | one c _ _ hslot => exact absurd hslot hturn
    rw [hslot, h.next.state] at hstate
    split at hstate <;> cases hstate
  · intro hturn
    rw [hturn]
    exact h.draining

/-- **The wait of an acquire ends,** however many rounds it takes. -/
def WaitEnds (d : Chained) : Prop :=
  ∃ rounds s, (service >>= fun _ => Run.waitWhile mustWait Chained.spin rounds) d = .ok () s

theorem waitEnds_iff (hlinked : d.engine.Linked (d.channelOf 0) (d.channelOf 1)) :
    d.WaitEnds ↔ ∃ rounds s, Run.waitWhile mustWait Chained.spin rounds d.emptied = .ok () s := by
  simp only [WaitEnds, Run.bind_ok (service_idle hlinked)]

/-- **Which waits end in playback,** and that the bound on their rounds is no restriction. -/
theorem Live.acquire_ends (hpos : 0 < len) (hlen : len ≤ regionWords)
    (h : Live len pole history d m w) :
    (d.WaitEnds ∧ (d.slots.state? d.nextFill ≠ some .draining ∨ ¬len ∣ 32) ∧
      ∃ words d' m' w', Chained.acquire d = .ok words d' ∧ Held len pole history d' m' w') ∨
    (¬d.WaitEnds ∧ d.slots.state? d.nextFill = some .draining ∧ len ∣ 32 ∧
      ∃ s, Chained.acquire d = .error .stalled s) := by
  have hempty : Live len pole history d.emptied m w := h.alike d.alike_emptied
  rw [waitEnds_iff h.linked, ne_eq, h.draining_iff]
  -- There is nothing to wait for unless it is the turn of the slot that plays, and then all depends
  -- on whether a round of the wait is a whole number of blocks.
  by_cases hturn : d.nextFill = m % 2
  case neg =>
    have hdone : d.emptied.mustWait = false :=
      Bool.eq_false_iff.mpr fun hmust => hturn (hempty.mustWait_iff.mp hmust)
    obtain ⟨words, d', hd', hheld, -⟩ :=
      hempty.taken_ok h.linked hturn (Run.waitWhile_done hdone _)
    exact .inl ⟨⟨0, _, Run.waitWhile_done hdone 0⟩, .inl hturn, words, d', m, w, hd', hheld⟩
  by_cases hround : len ∣ 32
  case neg =>
    obtain ⟨s, m', w', hs, hlive, hnext⟩ := hempty.wait hpos hlen hround
    obtain ⟨words, d', hd', hheld, -⟩ := hlive.taken_ok h.linked hnext hs
    exact .inl ⟨⟨_, s, hs⟩, .inr hround, words, d', m', w', hd', hheld⟩
  refine .inr ⟨?_, hturn, hround, ?_⟩
  · rintro ⟨rounds, s, hs⟩
    obtain ⟨s', hs'⟩ := hempty.stalls hlen hround hturn rounds
    cases hs.symm.trans hs'
  · obtain ⟨s, hs⟩ := hempty.stalls hlen hround hturn d.emptied.waitBound
    refine ⟨s, ?_⟩
    rw [Chained.acquire, Run.bind_ok (service_idle h.linked), Run.get_bind, Run.bind_error hs]

/-! ### What has been heard -/

/-- **What a slot held before has been heard to its end:** the commit that precedes the last one was
    played as block `n`, which was read from that slot, and all words of it have been played. -/
def Heard (len : Nat) (history : List Commit) (slot : Nat) (d : Chained) : Prop :=
  ∃ n c, n % 2 = slot ∧ dueCount len history n = history.length - 2 ∧
    history[history.length - 2]? = some c ∧ due len history n = some c ∧
    (n + 1) * len ≤ d.played.size ∧ d.played.extract (n * len) ((n + 1) * len) = c.frame

/-- **While a slot is held** every commit but the last one has been heard to its end. -/
theorem Held.heard (hturns : InTurn len history) (h : Held len pole history d m w) :
    Heard len history (history.length % 2) d := by
  have hmany := h.many
  have hne : history ≠ [] := List.ne_nil_of_length_pos (by omega)
  -- Nothing waits while a slot is held, so every commit has come due, and all but the last one
  -- before the block that plays.
  have hcount : history.length = (Playback.waiting len history m).length +
      dueCount len history (m + 1) := length_eq_waiting_add hne m
  rw [h.waiting, List.length_nil, dueCount_succ] at hcount
  have hbefore : history.length - 2 < dueCount len history m := by
    split at hcount <;> omega
  obtain ⟨n, hn, hrank, hsome⟩ := exists_due hbefore
  obtain ⟨c, hdue⟩ := Option.isSome_iff_exists.mp hsome
  have hget := getElem?_dueCount hdue
  have hslot := hturns n hsome
  have hblock : block len pole history n = .frame c.frame := block_of_due hdue
  have hsize : (block len pole history n).words.size = len := by
    rw [hblock]
    exact h.frames c (due_mem hdue)
  obtain ⟨hend, hwords⟩ := h.deck.extract hn hsize
  rw [hrank] at hget hslot
  rw [hblock] at hwords
  exact ⟨n, c, by omega, hrank, hget, hdue, hend, hwords⟩

/-- **The slot that an acquire has got** does not play, and what it held before has been heard. -/
structure Released (len : Nat) (history : List Commit) (slot : Nat) (d : Chained) : Prop where
  filling : d.filling = some slot
  aside : d.playing ≠ some slot
  heard : 2 ≤ history.length → Heard len history slot d

theorem Reached.acquire_ends (hpos : 0 < len) (hlen : len ≤ regionWords)
    (h : Reached len pole history false d) :
    (d.WaitEnds ∧ (d.slots.state? d.nextFill ≠ some .draining ∨ ¬len ∣ 32) ∧
      ∃ words d', acquire d = .ok words d' ∧ d'.Released len history (history.length % 2)) ∨
    (¬d.WaitEnds ∧ d.slots.state? d.nextFill = some .draining ∧ len ∣ 32 ∧
      ∃ s, acquire d = .error .stalled s) := by
  have hkeeps : ∀ {words d'}, acquire d = .ok words d' → d'.nextFill = history.length % 2 :=
    fun hd' => keepsTurn_acquire _ _ _ h.turn hd'
  rcases h.sound with hpre | ⟨-, m, w, hlive⟩
  · obtain ⟨words, d', hd', -, hpre', -⟩ := hpre.acquire
    have hstate := hpre.loading.state?_ne d.nextFill
    have hfree : d.emptied.slots.state? d.emptied.nextFill = some .free := hpre.loading.target
    have hends : d.WaitEnds := (waitEnds_iff hpre.linked).mpr
      ⟨0, _, Run.waitWhile_done (mustWait_of_free hfree) 0⟩
    refine .inl ⟨hends, .inl hstate, words, d', hd', ?_, ?_, fun hmany => ?_⟩
    · rw [← hkeeps hd']
      exact hpre'.loading.held
    · rw [hpre'.playing]
      exact nofun
    · exact absurd hpre.loading.few (Nat.not_lt.mpr hmany)
  · have hlive : Live len pole history d m w := hlive
    obtain ⟨hends, hcond, words, d', m', w', hd', hheld⟩ | hstalls :=
      hlive.acquire_ends hpos hlen
    · refine .inl ⟨hends, hcond, words, d', hd', ?_, ?_, fun _ => hheld.heard h.inTurn⟩
      · rw [← hkeeps hd', hheld.turn]
        exact hheld.filling
      · rw [← hkeeps hd', hheld.turn, hheld.playing, ne_eq, Option.some.injEq]
        omega
    · exact .inr hstalls

/-- **Which waits for a slot end.** Acquire and commit alternate, and hardware time passes anywhere.
    Then a slot is acquired in the end if and only if the slot whose turn it is does not play, or a
    round of the wait is no whole number of passes over both slots; the bound on the rounds of a
    wait is no restriction. Slots are taken in turn, commit `k` in slot `k % 2`, and the slot
    acquired is not the one that plays; the frame that it held before has been heard to its end. -/
theorem acquire_ends_iff {engine : Engine} {first second : Nat} {calls : List Call}
    (hnew : new engine first second len pole = .ok d) (hquiet : engine.Quiet) (hpos : 0 < len)
    (hlen : len ≤ regionWords) (hcalls : Alternating false calls)
    (hfree : holdsAfter false calls = false)
    (hrun : port.perform calls (d, []) = .ok () (d', history)) :
    d'.nextFill = history.length % 2 ∧
    (d'.WaitEnds ↔ d'.slots.state? d'.nextFill ≠ some .draining ∨ ¬len ∣ 32) ∧
    (d'.WaitEnds → ∃ words later, acquire d' = .ok words later ∧
      later.Released len history (history.length % 2)) ∧
    (¬d'.WaitEnds → ∃ later, acquire d' = .error .stalled later) := by
  have hreached := (reached_new hnew hquiet).perform hpos hlen hcalls hrun
  rw [hfree] at hreached
  refine ⟨hreached.turn, ?_⟩
  obtain ⟨hends, hcond, hgets⟩ | ⟨hends, hplays, hround, hstalls⟩ :=
    hreached.acquire_ends hpos hlen
  · exact ⟨iff_of_true hends hcond, fun _ => hgets, fun hnot => absurd hends hnot⟩
  · refine ⟨iff_of_false hends ?_, fun hyes => absurd hyes hends, fun _ => hstalls⟩
    exact not_or.mpr ⟨not_not.mpr hplays, not_not.mpr hround⟩

/-- A slot of five words that still plays is released in the end, and by then has been heard. -/
theorem acquires_a_slot_that_plays :
    ∃ d, new {} 3 2 5 16 = .ok d ∧ ∃ d' history,
      port.perform [.acquire, .write #[5, 6], .commit 2, .acquire, .commit 5, .advance 3] (d, []) =
        .ok () (d', history) ∧
      ∃ words later, acquire d' = .ok words later ∧
        later.Released 5 history (history.length % 2) := by
  refine ⟨_, rfl, ?_⟩
  cases hrun : port.perform [.acquire, .write #[5, 6], .commit 2, .acquire, .commit 5,
    .advance 3] (_, []) with
  | error e s =>
    have hends : Player.failed _ = true := congrArg Player.failed hrun
    exact absurd hends (by decide +kernel)
  | ok u s =>
    obtain ⟨d', history⟩ := s
    obtain ⟨-, hends, hgets, -⟩ := acquire_ends_iff (rfl : new {} 3 2 5 16 = _)
      Engine.quiet_fresh (by decide) (by decide) (by decide) rfl hrun
    -- Five words are no whole number of passes.
    exact ⟨d', history, rfl, hgets (hends.mpr (.inr (by decide)))⟩

end ConsolePipeline.Playback.Chained
