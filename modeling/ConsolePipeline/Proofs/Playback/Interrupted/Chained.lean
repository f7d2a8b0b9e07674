import ConsolePipeline.Proofs.Playback.Chained.Law
import ConsolePipeline.Proofs.Playback.Interrupted.Order

namespace ConsolePipeline.Playback.Chained

open Stereo

/-!
# Chained ping-pong at any moment

The channels start each other, so the hardware goes on to the other slot at the end of each block,
whether software has handed it over or still fills it.

* `Chained.owed_block` — where the blocks come from.
* `Chained.Sound.orderly` — every state between calls is in order.
* `Chained.Held.advance_within`, `advance_past` — time while a slot is held: it passes up to the end
  of the block, and there the hardware has come to that slot.
* `Chained.Sound.call_anytime` — a call fails exactly where it lets that happen.
-/

variable {d : Chained} {len pole m w n : Nat} {history : List Commit} {holding : Bool}

/-! ### Order -/

/-- **Every block** is a frame handed over before it began, or a decay of what its slot played
    before. -/
theorem owed_block (hmany : 2 ≤ history.length) (hbegins : Begins history)
    (hopened : Opened history) (n : Nat) :
    (block len pole history n).Owed 2 len pole history (block len pole history) n := by
  match history, hmany with
  | a :: b :: rest, _ =>
  rcases n with _ | _ | n
  · have hfirst : a.entry = 0 := hbegins a rfl
    exact ⟨a, List.mem_cons_self, rfl, Nat.le_trans (Nat.le_of_eq hfirst) (Nat.zero_le _)⟩
  · have hsecond : b.entry = 0 := hopened b rfl
    exact ⟨b, List.mem_cons_of_mem a List.mem_cons_self, rfl,
      Nat.le_trans (Nat.le_of_eq hsecond) (Nat.zero_le _)⟩
  · cases hdue : due len (a :: b :: rest) (n + 2) with
    | some c =>
      rw [block_due hdue]
      exact ⟨c, due_mem hdue, rfl, hbegins.entry_le_of_due hdue⟩
    | none =>
      rw [block_none hdue]
      exact ⟨n, by omega, Nat.le_refl _, rfl⟩

theorem Preroll.orderly (h : Preroll len pole history holding d) (hpos : 0 < len) :
    Orderly len pole history d.toDeck d.slots d.filling := by
  have hnone := h.loading.state?_ne
  exact .of_idle h.idle hnone h.loading.filled
    (.of_silent hpos h.played h.hardwareWords h.irqs h.underruns hnone)

/-- In playback there is order as long as the other slot is not drained as well. -/
theorem Running.orderly (hlen : len ≤ regionWords) (hbegins : Begins history)
    (hopened : Opened history) (h : Running len pole history d m w)
    (hother : d.slots.state? ((m + 1) % 2) ≠ some .draining)
    (hheld : ∀ slot, d.filling = some slot → d.slots.state? slot = some .filling) :
    Orderly len pole history d.toDeck d.slots d.filling := by
  have hdrains := h.drains hother
  have hcount : d.slots.count = 2 := h.shaped.memory_size
  refine .of_reads hdrains.reads (by omega) (Nat.lt_of_lt_of_le h.deck.word hlen) hdrains.others
    hdrains.draining hheld (.of_playing h.deck h.irqs h.draining h.underruns fun n _ => ?_)
  rw [hcount]
  exact owed_block h.many hbegins hopened n

theorem Live.orderly (hlen : len ≤ regionWords) (hbegins : Begins history)
    (hopened : Opened history) (h : Live len pole history d m w) :
    Orderly len pole history d.toDeck d.slots d.filling := by
  refine h.toRunning.orderly hlen hbegins hopened ?_ (Slots.held_of_none h.filling)
  rw [h.next.state]
  split <;> simp

theorem Held.orderly (hlen : len ≤ regionWords) (hbegins : Begins history)
    (hopened : Opened history) (h : Held len pole history d m w) :
    Orderly len pole history d.toDeck d.slots d.filling := by
  refine h.toRunning.orderly hlen hbegins hopened ?_ (Slots.held_of_some h.filling h.target)
  rw [h.target]
  simp

/-- **Every state between calls is in order,** whether software holds a slot or not. -/
theorem Sound.orderly (hpos : 0 < len) (hlen : len ≤ regionWords) (hbegins : Begins history)
    (h : Sound len pole history holding d) :
    Orderly len pole history d.toDeck d.slots d.filling := by
  rcases h with h | ⟨hopened, m, w, h⟩
  · exact h.orderly hpos
  · cases holding with
    | false => exact Live.orderly hlen hbegins hopened h
    | true => exact Held.orderly hlen hbegins hopened h

/-! ### Time while a slot is held -/

/-- How far off the slot is that software fills. -/
def leeway (d : Chained) : Option Nat :=
  wordsBefore d.toDeck d.slots d.playing d.filling

theorem Live.leeway (h : Live len pole history d m w) : d.leeway = none := by
  rw [Chained.leeway, h.filling, wordsBefore_not_filling]

theorem Preroll.leeway (h : Preroll len pole history holding d) : d.leeway = none := by
  rw [Chained.leeway, h.playing, wordsBefore_not_playing]

/-- The slot that is held is the one that plays next. -/
theorem Held.leeway (h : Held len pole history d m w) : d.leeway = some (len - w) := by
  rw [Chained.leeway, h.playing, h.filling, wordsBefore_eq h.running? h.reads h.shaped (by decide),
    show ((m + 1) % 2 + 2 - 1 - m % 2) % 2 = 0 by omega, Nat.zero_mul, Nat.add_zero]

section Held

variable (hlen : len ≤ regionWords)

include hlen

/-- **Within the block** time passes as ever. -/
theorem Held.advance_within (h : Held len pole history d m w) (hn : n < len - w) :
    ∃ d', advance n d = .ok () d' ∧ Held len pole history d' m (w + n) := by
  refine Run.elapse_once (fun hzero => ?_) fun hpos => ?_
  · rw [hzero]
    exact h
  · obtain ⟨hstep, hrunning⟩ := h.toRunning.step_within hlen hpos hn
    exact ⟨_, hstep, hrunning, h.waiting, h.turn, h.filling, h.target⟩

/-- **At the end of the block** the hardware goes on to the slot that software fills. -/
theorem Held.advance_past (hbegins : Begins history) (hopened : Opened history)
    (h : Held len pole history d m w) (hn : len - w ≤ n) :
    ∃ d', advance n d = .error (.notDrainable ((m + 1) % 2) .filling) d' ∧
      Overtaken len pole history ((m + 1) % 2) d'.toDeck d'.slots d'.filling := by
  have hslot : m % 2 < 2 := Nat.mod_lt m Nat.zero_lt_two
  have hword := h.deck.word
  have hdeck := h.deck.heard_rest h.words (h.shaped.words_size _ hslot) d.engine
  have hlast := h.toRunning.step_last_eq hlen hn
  -- Which words and which engine these are does not matter from here on.
  generalize (d.slots.words (m % 2)).extract w (w + (len - w)) = out at hdeck hlast
  generalize d.engine.moved (d.channelOf (m % 2)) (len - w) = e at hlast
  have htarget : (d.turned m out e).slots.state? ((m + 1) % 2) = some .filling :=
    (other_turned d m out e).1.trans h.target
  -- The slot just played is free, and the other one is still filled.
  have hnone : ∀ i, (d.turned m out e).slots.state? i ≠ some .draining := by
    intro i hi
    have hlt : i < 2 := Slots.lt_of_state? h.toRunning.shaped_turned hi
    obtain rfl | rfl : i = m % 2 ∨ i = (m + 1) % 2 := by omega
    · rw [h.toRunning.free_turned] at hi
      cases hi
    · rw [htarget] at hi
      cases hi
  refine ⟨d.turned m out e, ?_, h.filling, htarget, hnone, ?_⟩
  · refine Run.elapse_error (by omega) ?_
    rw [hlast]
    exact Run.bind_error (markPlaying_filling htarget)
  · have hcount : (d.turned m out e).slots.count = 2 := h.toRunning.shaped_turned.memory_size
    refine .of_between (hdeck.same rfl rfl) (congrArg (· + 1) h.irqs) hnone h.underruns
      fun n _ => ?_
    rw [hcount]
    exact owed_block h.many hbegins hopened n

end Held

/-! ### Calls -/

/-- Only time that passes while software holds a slot can bring the hardware there. -/
theorem Sound.leeway (h : Sound len pole history false d) : d.leeway = none := by
  rcases h with h | ⟨-, m, w, h⟩
  · exact h.leeway
  · exact Live.leeway h

/-- **Time while a slot is held** passes unless it lets the hardware come to that slot. -/
theorem Sound.advance_held (hlen : len ≤ regionWords) (hbegins : Begins history)
    (h : Sound len pole history true d) (n : Nat) :
    ((Call.advance n).Within d.leeway ∧
      ∃ d', Chained.advance n d = .ok () d' ∧ Sound len pole history true d') ∨
    (¬(Call.advance n).Within d.leeway ∧
      ∃ slot d', Chained.advance n d = .error (.notDrainable slot .filling) d' ∧
        Overtaken len pole history slot d'.toDeck d'.slots d'.filling) := by
  rcases h with h | ⟨hopened, m, w, h⟩
  · obtain ⟨d', hd', hpre, -⟩ := h.advance n
    rw [h.leeway]
    exact .inl ⟨Call.within_none _, d', hd', .inl hpre⟩
  · have hheld : Held len pole history d m w := h
    rw [hheld.leeway, Call.within_advance]
    by_cases hn : n < len - w
    · obtain ⟨d', hd', hheld'⟩ := hheld.advance_within hlen hn
      exact .inl ⟨hn, d', hd', .inr ⟨hopened, m, w + n, hheld'⟩⟩
    · obtain ⟨d', hd', hovertaken⟩ := hheld.advance_past hlen hbegins hopened (Nat.le_of_not_lt hn)
      exact .inr ⟨hn, _, d', hd', hovertaken⟩

/-- **A call succeeds, or is a wait in vain,** unless it lets the hardware come to the slot that
    software holds. -/
theorem Sound.call_anytime {c : Call} (hpos : 0 < len) (hlen : len ≤ regionWords)
    (hbegins : Begins history) (h : Sound len pole history holding d) (hc : c.Allowed holding) :
    (c.Within d.leeway ∧
      ((∃ d', port.call c d = .ok () d' ∧
        Sound len pole (history ++ port.noted c d d') (c.holds holding) d') ∨
      ∃ d', port.call c d = .error .stalled d' ∧ len ∣ 32 ∧ Sound len pole history false d')) ∨
    (¬c.Within d.leeway ∧
      ∃ slot d', port.call c d = .error (.notDrainable slot .filling) d' ∧
        Overtaken len pole history slot d'.toDeck d'.slots d'.filling) := by
  cases c with
  | acquire =>
    obtain rfl : holding = false := hc
    refine .inl ⟨trivial, ?_⟩
    obtain ⟨d', ⟨words, hd', hsound⟩ | ⟨hround, hd', hsound⟩⟩ := h.acquire hpos hlen
    · refine .inl ⟨d', Run.bind_ok hd', ?_⟩
      rw [Port.noted, List.append_nil]
      exact hsound
    · exact .inr ⟨d', Run.bind_error hd', hround, hsound⟩
  | write words =>
    obtain rfl : holding = true := hc
    obtain ⟨d', hd', hsound⟩ := h.write words
    refine .inl ⟨trivial, .inl ⟨d', hd', ?_⟩⟩
    rw [Port.noted, List.append_nil]
    exact hsound
  | commit count =>
    obtain rfl : holding = true := hc
    exact .inl ⟨trivial, .inl (h.commit hpos count)⟩
  | advance n =>
    simp only [Port.noted, List.append_nil]
    cases holding with
    | false =>
      obtain ⟨d', hd', hsound, -⟩ := h.advance hlen n
      refine .inl ⟨?_, .inl ⟨d', hd', hsound⟩⟩
      rw [h.leeway]
      exact Call.within_none _
    | true =>
      refine (h.advance_held hlen hbegins n).imp_left ?_
      exact And.imp_right .inl

end ConsolePipeline.Playback.Chained
