import ConsolePipeline.Proofs.Playback.Deck

namespace ConsolePipeline.Playback

open Stereo

/-!
# Two slots before playback

A strategy with two slots fills them in turn, and starts playback once both hold a frame.

* `Loading` — at most one frame has been handed over, in slot 0.
* `Loading.take`, `Loading.rewrite`, `Loading.hand` — software takes the next slot, writes to it,
  and hands the first frame over.
* `Loading.full` — with the second frame both slots are ready.
-/

/-- **Two slots before playback:** `next` is the one that is filled next, `filling` the one that
    software holds. -/
structure Loading (len pole : Nat) (history : List Commit) (holding : Bool) (s : Slots) (next : Nat)
    (filling : Option Nat) : Prop where
  shaped : s.Shaped 2 len pole
  few : history.length < 2
  turn : next = history.length
  held : filling = if holding then some next else none
  target : s.state? next = some (if holding then .filling else .free)
  fresh : history = [] → s.state? 1 = some .free
  first : ∀ c ∈ history, c.entry = 0 ∧ s.state? 0 = some .ready ∧ s.words 0 = c.frame

namespace Loading

variable {len pole next count : Nat} {history : List Commit} {holding : Bool} {s : Slots}
  {filling : Option Nat} {b : Commit}

theorem start (len pole : Nat) : Loading len pole [] false (Slots.new 2 len pole) 0 none where
  shaped := Slots.shaped_new 2 len pole
  few := Nat.zero_lt_two
  turn := rfl
  held := rfl
  target := Slots.state?_new Nat.zero_lt_two len pole
  fresh _ := Slots.state?_new Nat.one_lt_two len pole
  first _ hc := absurd hc List.not_mem_nil

theorem next_lt (h : Loading len pole history holding s next filling) : next < 2 := by
  rw [h.turn]
  exact h.few

/-- Software writes the slot of the frame that comes next. -/
theorem writing (h : Loading len pole history true s next filling) :
    filling = some history.length ∧ s.state? history.length = some .filling := by
  rw [← h.turn]
  exact ⟨h.held, h.target⟩

/-- A frame that was handed over is in the other slot. -/
theorem next_ne_zero (h : Loading len pole history holding s next filling) {c : Commit}
    (hc : c ∈ history) : next ≠ 0 := by
  rw [h.turn]
  exact Nat.pos_iff_ne_zero.mp (List.length_pos_of_mem hc)

/-- The hardware reads no slot yet. -/
theorem state?_ne (h : Loading len pole history holding s next filling) (i : Nat) :
    s.state? i ≠ some .draining := by
  have htarget := h.target
  rw [h.turn] at htarget
  match history, h.few, h with
  | [], _, h =>
    match i with
    | 0 => cases holding <;> simp_all
    | 1 => simp [h.fresh rfl]
    | i + 2 => simp [Slots.state?_eq_none h.shaped (Nat.le_add_left 2 i)]
  | [c], _, h =>
    match i with
    | 0 => simp [(h.first c (List.mem_singleton_self c)).2.1]
    | 1 => cases holding <;> simp_all
    | i + 2 => simp [Slots.state?_eq_none h.shaped (Nat.le_add_left 2 i)]

/-- The slot that software holds is the one that it is writing. -/
theorem filled (h : Loading len pole history holding s next filling) :
    ∀ slot, filling = some slot → s.state? slot = some .filling := by
  cases holding with
  | false => exact Slots.held_of_none h.held
  | true => exact Slots.held_of_some h.held h.target

/-- **Software takes the next slot.** -/
theorem take (h : Loading len pole history false s next filling) :
    Loading len pole history true (s.setState next .filling) next (some next) where
  shaped := h.shaped.setState next .filling
  few := h.few
  turn := h.turn
  held := rfl
  target := Slots.state?_setState_self h.shaped h.next_lt .filling
  fresh hnil := by
    have hne : next ≠ 1 := by
      rw [h.turn, hnil]
      decide
    rw [Slots.state?_setState_ne _ _ hne]
    exact h.fresh hnil
  first c hc := by
    obtain ⟨hentry, hready, hwords⟩ := h.first c hc
    exact ⟨hentry, (Slots.state?_setState_ne _ _ (h.next_ne_zero hc)).trans hready, hwords⟩

/-- **Software writes to it.** -/
theorem rewrite (h : Loading len pole history true s next filling) {words : Array Word}
    (hwords : words.size = len) :
    Loading len pole history true (s.setWords next words) next filling where
  shaped := h.shaped.setWords hwords next
  few := h.few
  turn := h.turn
  held := h.held
  target := h.target
  fresh := h.fresh
  first c hc := by
    obtain ⟨hentry, hready, hframe⟩ := h.first c hc
    exact ⟨hentry, hready, (Slots.words_setWords_ne _ _ (h.next_ne_zero hc)).trans hframe⟩

/-- **The first frame is handed over,** and the other slot is next. -/
theorem hand (h : Loading len pole [] true s next filling) (d : Deck) (hplayed : d.played.size = 0)
    (count : Nat) :
    Loading len pole [d.handover s 0 count] false (d.filled s 0 count) 1 none ∧
      (d.filled s 0 count).countIn .ready = 1 := by
  have hshaped := Deck.shaped_filled h.shaped Nat.zero_lt_two d count
  have hready := Deck.state?_filled_self h.shaped Nat.zero_lt_two d count
  have hfree : (d.filled s 0 count).state? 1 = some .free :=
    (Deck.state?_filled_ne d count (by decide)).trans (h.fresh rfl)
  refine ⟨⟨hshaped, Nat.one_lt_two, rfl, rfl, hfree, ?_, ?_⟩, ?_⟩
  · exact fun hnil => (List.cons_ne_nil _ _ hnil).elim
  · intro c hc
    obtain rfl := List.mem_singleton.mp hc
    exact ⟨hplayed, hready, Deck.words_filled_self h.shaped Nat.zero_lt_two d count⟩
  · rw [Slots.countIn_eq hshaped hready hfree]
    rfl

/-- **With the second frame both slots are ready.** -/
theorem full (h : Loading len pole [b] true s next filling) (d : Deck) (count : Nat) :
    (d.filled s 1 count).state? 0 = some .ready ∧ (d.filled s 1 count).state? 1 = some .ready ∧
      (d.filled s 1 count).words 0 = b.frame ∧
      (d.filled s 1 count).words 1 = (d.outgoing s 1 count).1 ∧
      (d.filled s 1 count).countIn .ready = 2 := by
  obtain ⟨-, hfirst, hwords⟩ := h.first b (List.mem_singleton_self b)
  have hready₀ : (d.filled s 1 count).state? 0 = some .ready :=
    (Deck.state?_filled_ne d count (by decide)).trans hfirst
  have hready₁ := Deck.state?_filled_self h.shaped Nat.one_lt_two d count
  refine ⟨hready₀, hready₁, (Deck.words_filled_ne d count (by decide)).trans hwords,
    Deck.words_filled_self h.shaped Nat.one_lt_two d count, ?_⟩
  rw [Slots.countIn_eq (Deck.shaped_filled h.shaped Nat.one_lt_two d count) hready₀ hready₁]
  rfl

end Loading

end ConsolePipeline.Playback
