import ConsolePipeline.Proofs.Playback.Double.Law
import ConsolePipeline.Proofs.Playback.Interrupted.Order

namespace ConsolePipeline.Playback.Double

open Stereo

/-!
# Double buffering at any moment

The handler starts the slot that is queued, or the finished one once more, and software fills
neither. So time may pass at any moment, also while a slot is held.

* `Double.owed_block` — where the blocks come from.
* `Double.Sound.orderly` — every state between calls is in order.
-/

variable {d : Double} {len pole : Nat} {history : List Commit} {holding : Bool}

/-- **Every block** is a frame handed over before it began, or the decay of the block before. -/
theorem owed_block (hne : history ≠ []) (hbegins : Begins history) (n : Nat) :
    (block len pole history n).Owed 2 len pole history (block len pole history) n := by
  cases n with
  | zero =>
    obtain ⟨c, rest, rfl⟩ := List.exists_cons_of_ne_nil hne
    exact ⟨c, List.mem_cons_self, rfl, Nat.le_trans (Nat.le_of_eq (hbegins c rfl)) (Nat.zero_le _)⟩
  | succ n =>
    cases hdue : due len history (n + 1) with
    | some c =>
      rw [block_succ_due hdue]
      exact ⟨c, due_mem hdue, rfl, hbegins.entry_le_of_due hdue⟩
    | none =>
      rw [block_succ_none hdue]
      exact ⟨n, Nat.lt_succ_self n, by omega, rfl⟩

theorem Preroll.orderly (h : Preroll len pole history holding d) (hpos : 0 < len) :
    Orderly len pole history d.toDeck d.slots d.filling := by
  have hnone := h.loading.state?_ne
  exact .of_idle (h.solo.idle h.stopped) hnone h.loading.filled
    (.of_silent hpos h.played h.hardwareWords h.irqs h.underruns hnone)

/-- The slot that plays is the only one that is drained. -/
theorem Live.draining_iff {m w p : Nat} (h : Live len pole history holding d m w p) (i : Nat) :
    d.slots.state? i = some .draining ↔ i = p := by
  constructor
  · intro hi
    have hlt : i < 2 := Slots.lt_of_state? h.shaped hi
    have hslot := h.slot
    by_contra hne
    -- The other slot is filled, or free, or ready with the next frame.
    obtain rfl : i = 1 - p := by omega
    rcases h.next with o | ⟨c, q⟩
    · rw [o.target] at hi
      cases holding <;> cases hi
    · rw [q.ready] at hi
      cases hi
  · rintro rfl
    exact h.draining

/-- The slot that software holds does not play. -/
theorem Live.filled {m w p : Nat} (h : Live len pole history holding d m w p) :
    ∀ slot, d.filling = some slot → d.slots.state? slot = some .filling := by
  rcases h.next with o | ⟨c, q⟩
  · cases holding with
    | false => exact Slots.held_of_none o.filling
    | true => exact Slots.held_of_some o.filling o.target
  · exact Slots.held_of_none q.filling

/-- **Every state between calls is in order,** whether software holds a slot or not. -/
theorem Sound.orderly (hpos : 0 < len) (hlen : len ≤ regionWords) (hbegins : Begins history)
    (h : Sound len pole history holding d) :
    Orderly len pole history d.toDeck d.slots d.filling := by
  rcases h with h | ⟨m, w, p, h⟩
  · exact h.orderly hpos
  have hslot := h.slot
  have hmany := h.many
  have hne : history ≠ [] := List.ne_nil_of_length_pos (by omega)
  have hcount : d.slots.count = 2 := h.shaped.memory_size
  refine .of_reads h.reads (by omega) (Nat.lt_of_lt_of_le h.deck.word hlen) h.solo.others
    h.draining_iff h.filled
    (.of_playing h.deck h.irqs h.draining h.underruns fun n _ => ?_)
  rw [hcount]
  exact owed_block hne hbegins n

end ConsolePipeline.Playback.Double
