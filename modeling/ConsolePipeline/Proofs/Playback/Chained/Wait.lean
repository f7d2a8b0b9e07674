import Mathlib.Data.Nat.Find
import ConsolePipeline.Proofs.Playback.Chained.Software

namespace ConsolePipeline.Playback

open Stereo

/-!
# Chained ping-pong: waiting for a slot

A wait looks at the hardware once in a round of `waitWords` words, and the hardware does not stop
for it. It may have played both slots in the meantime, and stand in the one it stood in before.

* `TurnsIn` — rounds until the other slot plays; `exists_turnsIn` — there is such a number unless a
  round is a whole number of passes over both slots.
* `Chained.Live.mustWait_iff` — software waits for the slot that plays.
* `Chained.Live.acquire_or_stalls` — software gets its slot, or waits in vain.
-/

/-! ### Rounds and slots -/

/-- From a place in the stream, the slot that plays is another one after `k` rounds of waiting, and
    after no fewer. -/
def TurnsIn (len place slot k : Nat) : Prop :=
  (place + waitWords * k) / len % 2 ≠ slot ∧ ∀ i < k, (place + waitWords * i) / len % 2 = slot

theorem TurnsIn.round {len place slot k : Nat} (h : TurnsIn len place slot (k + 1)) :
    TurnsIn len (place + waitWords) slot k := by
  have hshift : ∀ i, place + waitWords + waitWords * i = place + waitWords * (i + 1) := by
    intro i
    rw [Nat.mul_succ]
    omega
  refine ⟨?_, fun i hi => ?_⟩
  · rw [hshift]
    exact h.1
  · rw [hshift]
    exact h.2 (i + 1) (by omega)

/-- If each round moves on by `s` words within the two slots, the first one past the end of this
    slot is short of the end of the other one. -/
theorem exists_turn_forward {len m w q s : Nat} (hw : w < len) (hspos : 0 < s) (hle : s ≤ len)
    (hrounds : 2 * len * q + s = waitWords) :
    ∃ k ≤ len, (m * len + w + waitWords * k) / len % 2 = (m + 1) % 2 := by
  have hdiv : s * ((len - w - 1) / s) + (len - w - 1) % s = len - w - 1 := Nat.div_add_mod _ _
  have hmod : (len - w - 1) % s < s := Nat.mod_lt _ hspos
  have hk : (len - w - 1) / s ≤ len - w - 1 := Nat.div_le_self _ _
  refine ⟨(len - w - 1) / s + 1, by omega, ?_⟩
  generalize (len - w - 1) / s = j at hdiv hk
  have hplace : m * len + w + waitWords * (j + 1) =
      (m + 2 * (q * (j + 1)) + 1) * len + (w + s * j + s - len) := by
    calc m * len + w + waitWords * (j + 1)
        = m * len + w + (2 * len * q + s) * (j + 1) := by rw [hrounds]
      _ = (m + 2 * (q * (j + 1))) * len + (w + s * j + s) := by grind
      _ = (m + 2 * (q * (j + 1)) + 1) * len + (w + s * j + s - len) := by
        rw [Nat.succ_mul (m + 2 * (q * (j + 1)))]
        omega
  rw [hplace, div_mul_add (by omega)]
  omega

/-- If each round falls back by `r` words within the two slots, the first one past the beginning of
    this slot is short of the beginning of the other one. -/
theorem exists_turn_back {len m w q r : Nat} (hw : w < len) (hrpos : 0 < r) (hle : r ≤ len)
    (hrounds : waitWords + r = 2 * len * (q + 1)) :
    ∃ k ≤ len, (m * len + w + waitWords * k) / len % 2 = (m + 1) % 2 := by
  have hdiv : r * (w / r) + w % r = w := Nat.div_add_mod _ _
  have hmod : w % r < r := Nat.mod_lt _ hrpos
  have hk : w / r ≤ w := Nat.div_le_self _ _
  refine ⟨w / r + 1, by omega, ?_⟩
  generalize w / r = j at hdiv hk
  have hplace : m * len + w + waitWords * (j + 1) =
      (m + 2 * ((q + 1) * j + q) + 1) * len + (len + w - (r * j + r)) := by
    have hmul : waitWords * (j + 1) + (r * j + r) = 2 * len * ((q + 1) * (j + 1)) := by
      calc waitWords * (j + 1) + (r * j + r) = (waitWords + r) * (j + 1) := by grind
        _ = 2 * len * ((q + 1) * (j + 1)) := by rw [hrounds, Nat.mul_assoc]
    have hwhole : 2 * len * ((q + 1) * (j + 1)) =
        2 * ((q + 1) * j + q) * len + (len + len) := by
      grind
    rw [Nat.succ_mul, Nat.add_mul]
    omega
  rw [hplace, div_mul_add (by omega)]
  omega

/-- **The hardware comes to the other slot** within as many rounds as a slot has words, unless it
    passes over both slots a whole number of times in each round. -/
theorem exists_turn {len m w : Nat} (hw : w < len) (hlen : ¬ len ∣ 32) :
    ∃ k ≤ len, (m * len + w + waitWords * k) / len % 2 = (m + 1) % 2 := by
  have hrounds : 2 * len * (waitWords / (2 * len)) + waitWords % (2 * len) = waitWords :=
    Nat.div_add_mod _ _
  have hlt : waitWords % (2 * len) < 2 * len := Nat.mod_lt _ (by omega)
  generalize waitWords / (2 * len) = q at hrounds
  generalize waitWords % (2 * len) = s at hrounds hlt
  have hspos : 0 < s := by
    rw [Nat.pos_iff_ne_zero]
    rintro rfl
    refine hlen ⟨q, ?_⟩
    rw [waitWords, Nat.add_zero, Nat.mul_assoc] at hrounds
    omega
  by_cases hle : s ≤ len
  · exact exists_turn_forward hw hspos hle hrounds
  · obtain ⟨r, hr⟩ : ∃ r, s + r = 2 * len := ⟨2 * len - s, by omega⟩
    have hback : waitWords + r = 2 * len * (q + 1) := by
      rw [Nat.mul_succ]
      omega
    exact exists_turn_back hw (by omega) (by omega) hback

theorem exists_turnsIn {len m w : Nat} (hw : w < len) (hlen : ¬ len ∣ 32) :
    ∃ k ≤ len, TurnsIn len (m * len + w) (m % 2) k := by
  obtain ⟨k, hk, hturn⟩ := exists_turn (m := m) hw hlen
  have hexists : ∃ k, (m * len + w + waitWords * k) / len % 2 ≠ m % 2 := ⟨k, by omega⟩
  have hle : Nat.find hexists ≤ k := Nat.find_min' hexists (by omega)
  exact ⟨Nat.find hexists, by omega, Nat.find_spec hexists,
    fun i hi => Decidable.not_not.mp (Nat.find_min hexists hi)⟩

namespace Chained

variable {d : Chained} {len pole m w : Nat} {history : List Commit}

/-! ### The wait -/

/-- Software may take the slot that does not play only if no frame waits. -/
theorem Live.waiting_nil (h : Live len pole history d m w) (hturn : d.nextFill ≠ m % 2) :
    waiting len history m = [] := by
  cases h.queue with
  | empty hwait _ => exact hwait
  | one c _ _ hslot => exact absurd hslot hturn

/-- **Software waits for the slot that plays,** and for no other. -/
theorem Live.mustWait_iff (h : Live len pole history d m w) :
    d.mustWait = true ↔ d.nextFill = m % 2 := by
  constructor
  · intro hmust
    by_contra hturn
    have hwait := h.waiting_nil hturn
    have hslot : d.nextFill = (m + 1) % 2 := by
      cases h.queue with
      | empty _ hlt => omega
      | one c _ _ hslot => exact absurd hslot hturn
    -- The other slot holds a decay that nobody owns.
    have hfree : d.slots.state? d.nextFill = some .free := by
      rw [hslot, h.next.state, isFade_block_succ h.many hwait]
      rfl
    rw [mustWait_of_free hfree] at hmust
    cases hmust
  · intro hturn
    simp [mustWait, h.playing, hturn, h.draining]

/-- One round of the wait: the hardware goes on playing. -/
theorem Live.spin (hlen : len ≤ regionWords) (h : Live len pole history d m w) :
    ∃ d', spin d = .ok () d' ∧ (∃ m' w', Live len pole history d' m' w') ∧
      d'.played.size = d.played.size + waitWords ∧ d'.nextFill = d.nextFill ∧
      d'.stats.idleWords = d.stats.idleWords := by
  have hspun : Live len pole history { d with toDeck := d.toDeck.spun } m w :=
    h.alike (Deck.alike_spun _)
  obtain ⟨d', m', w', hd', hlive, hsize, hsame⟩ := hspun.advance hlen waitWords
  exact ⟨d', hd', ⟨m', w', hlive⟩, hsize, hsame.nextFill, hsame.idleWords⟩

/-- **The wait ends** unless a round is a whole number of passes over both slots. -/
theorem Live.wait (hpos : 0 < len) (hlen : len ≤ regionWords) (hround : ¬ len ∣ 32)
    (h : Live len pole history d m w) :
    ∃ d' m' w', Run.waitWhile mustWait Chained.spin d.waitBound d = .ok () d' ∧
      Live len pole history d' m' w' ∧ d'.nextFill ≠ m' % 2 := by
  by_cases hturn : d.nextFill = m % 2
  case neg =>
    have hdone : d.mustWait = false :=
      Bool.eq_false_iff.mpr fun hmust => hturn (h.mustWait_iff.mp hmust)
    exact ⟨d, m, w, Run.waitWhile_done hdone _, h, hturn⟩
  obtain ⟨k, hk, hrounds⟩ := exists_turnsIn (m := m) h.deck.word hround
  rw [← h.deck.size, ← hturn] at hrounds
  have hbound : k ≤ d.waitBound := by
    rw [waitBound, h.shaped.slotLength (by decide)]
    omega
  -- The slot that plays is read off the number of words played.
  let P (k : Nat) (s : Chained) : Prop := (∃ m w, Live len pole history s m w) ∧
    s.nextFill = d.nextFill ∧ TurnsIn len s.played.size d.nextFill k
  have hplays : ∀ {s m w}, Live len pole history s m w → s.played.size / len % 2 = m % 2 := by
    intro s m w hlive
    rw [hlive.deck.size_div]
  have hdone : ∀ s, P 0 s → s.mustWait = false := by
    rintro s ⟨⟨m, w, hlive⟩, hfill, hturns, -⟩
    have hslot : s.played.size / len % 2 ≠ d.nextFill := hturns
    rw [hplays hlive, ← hfill] at hslot
    exact Bool.eq_false_iff.mpr fun hmust => hslot (hlive.mustWait_iff.mp hmust).symm
  have hstep : ∀ k s, P (k + 1) s →
      s.mustWait = true ∧ ∃ s', Chained.spin s = .ok () s' ∧ P k s' := by
    rintro k s ⟨⟨m, w, hlive⟩, hfill, hturns⟩
    have hslot : s.played.size / len % 2 = d.nextFill := hturns.2 0 k.succ_pos
    rw [hplays hlive, ← hfill] at hslot
    obtain ⟨s', hs', hlive', hsize, hsame, -⟩ := hlive.spin hlen
    refine ⟨hlive.mustWait_iff.mpr hslot.symm, s', hs', hlive', hsame.trans hfill, ?_⟩
    rw [hsize]
    exact hturns.round
  obtain ⟨d', hd', ⟨⟨m', w', hlive⟩, hfill, hturns, -⟩⟩ :=
    Run.waitWhile_ok hdone hstep k d.waitBound hbound d ⟨⟨m, w, h⟩, rfl, hrounds⟩
  refine ⟨d', m', w', hd', hlive, ?_⟩
  have hslot : d'.played.size / len % 2 ≠ d.nextFill := hturns
  rw [hplays hlive, ← hfill] at hslot
  exact hslot.symm

/-- The slot that does not play is taken once the wait is over. -/
theorem Live.taken_ok {s : Chained} (hlinked : d.engine.Linked (d.channelOf 0) (d.channelOf 1))
    (h : Live len pole history s m w) (hturn : s.nextFill ≠ m % 2)
    (hwait : Run.waitWhile mustWait Chained.spin d.emptied.waitBound d.emptied = .ok () s) :
    ∃ words d', Chained.acquire d = .ok words d' ∧ Held len pole history d' m w ∧
      d'.toDeck = s.toDeck := by
  have hnil := h.waiting_nil hturn
  have hslot : s.nextFill = (m + 1) % 2 := by
    cases h.queue with
    | empty _ hlt => omega
    | one c _ _ hslot => exact absurd hslot hturn
  have hfree : s.slots.state? ((m + 1) % 2) = some .free := by
    rw [h.next.state, isFade_block_succ h.many hnil]
    rfl
  exact ⟨_, _, acquire_ok hlinked hwait hslot hfree, h.taken hnil hslot, rfl⟩

/-- **Software gets its slot, or waits in vain** for a hardware that passes over both slots a whole
    number of times in each round. Either way playback goes on. -/
theorem Live.acquire_or_stalls (hpos : 0 < len) (hlen : len ≤ regionWords)
    (h : Live len pole history d m w) :
    ∃ d' m' w', (∃ words, Chained.acquire d = .ok words d' ∧ Held len pole history d' m' w') ∨
      (len ∣ 32 ∧ Chained.acquire d = .error .stalled d' ∧ Live len pole history d' m' w') := by
  have hempty : Live len pole history d.emptied m w := h.alike d.alike_emptied
  by_cases hround : len ∣ 32
  case neg =>
    obtain ⟨s, m', w', hs, hlive, hturn⟩ := hempty.wait hpos hlen hround
    obtain ⟨words, d', hd', hheld, -⟩ := hlive.taken_ok h.linked hturn hs
    exact ⟨d', m', w', .inl ⟨words, hd', hheld⟩⟩
  -- Where a round is a whole number of blocks nothing is said of how the wait ends, only that each
  -- of its rounds lets playback go on.
  have hspin : ∀ s, (∃ m w, Live len pole history s m w) →
      ∃ s', Chained.spin s = .ok () s' ∧ ∃ m w, Live len pole history s' m w := by
    rintro s ⟨m, w, hlive⟩
    obtain ⟨s', hs', hlive', -, -⟩ := hlive.spin hlen
    exact ⟨s', hs', hlive'⟩
  have hwait : ∃ s, (∃ m w, Live len pole history s m w) ∧
      ((Run.waitWhile mustWait Chained.spin d.emptied.waitBound d.emptied = .ok () s ∧
          s.mustWait = false) ∨
        Run.waitWhile mustWait Chained.spin d.emptied.waitBound d.emptied = .error .stalled s) :=
    Run.waitWhile_ends_or_stalls hspin _ _ ⟨m, w, hempty⟩
  obtain ⟨s, ⟨m', w', hlive⟩, ⟨hs, hdone⟩ | hs⟩ := hwait
  · have hturn : s.nextFill ≠ m' % 2 := by
      intro hturn
      rw [hlive.mustWait_iff.mpr hturn] at hdone
      cases hdone
    obtain ⟨words, d', hd', hheld, -⟩ := hlive.taken_ok h.linked hturn hs
    exact ⟨d', m', w', .inl ⟨words, hd', hheld⟩⟩
  · refine ⟨s, m', w', .inr ⟨hround, ?_, hlive⟩⟩
    rw [Chained.acquire, Run.bind_ok (service_idle h.linked), Run.get_bind, Run.bind_error hs]

end Chained

end ConsolePipeline.Playback
