import ConsolePipeline.Proofs.Playback.Triple.Law
import ConsolePipeline.Proofs.Playback.Interrupted.Order

namespace ConsolePipeline.Playback.Triple

open Stereo

/-!
# Triple buffering at any moment

Software fills the slot two places after the one that plays. If a block ends while it does, that
slot has become the next one, and at the end of the following block the hardware comes to it. A
frame that is handed over in between is played as if it had been handed over one block earlier,
while its slot was still the one after the next.

* `Triple.Cornered` — software holds the slot that plays next; `Held.step_last` — how that happens.
* `Triple.Dated` — a history in which such frames bear the date of the block before.
* `Triple.owed_block` — where the blocks come from; `Cornered.commit` — a frame of the block before.
* `Triple.Standing.orderly` — every state between calls is in order.
* `Triple.Held.advance`, `Cornered.advance_past` — time while a slot is held.
* `Triple.Standing.call_anytime` — a call fails exactly where it lets the hardware come to the slot.
-/

variable {d : Triple} {len pole m w n limit : Nat} {history dated : List Commit} {holding : Bool}

/-! ### The slot that is held plays next -/

/-- **Software holds the slot that plays next:** it took it in block `m`, and since then block
    `m + 1` has begun. -/
structure Cornered (len pole : Nat) (history : List Commit) (d : Triple) (m w : Nat) : Prop
    extends Reading len pole history d (m + 1) w where
  earlier : ∀ c ∈ history, c.entry < (m + 1) * len
  filling : d.filling = some ((m + 2) % 3)
  target : d.slots.state? ((m + 2) % 3) = some .filling
  cleared : d.isPrimed ((m + 2) % 3) = false
  later : d.Holds ((m + 3) % 3) (block len pole history (m + 3))
  overruns : d.stats.overruns =
    lost len history m + if during len history m = [] then 0 else 1

section Time

variable (hlen : len ≤ regionWords)

include hlen

/-- **Within the block** time passes as ever. -/
theorem Held.advance_within (h : Held len pole history d m w) (hn : n < len - w) :
    ∃ d', advance n d = .ok () d' ∧ Held len pole history d' m (w + n) := by
  refine Run.elapse_once (fun hzero => ?_) fun hpos => ?_
  · rw [hzero]
    exact h
  · obtain ⟨hstep, hreading⟩ := h.toRunning.reading.step_within hlen hpos hn
    exact ⟨_, hstep, hreading.running (h.next.congr rfl rfl rfl), h.filling, h.target, h.cleared,
      h.overruns⟩

/-- **At the end of the block** the slot that is held becomes the next one. -/
theorem Held.step_last (h : Held len pole history d m w) (hle : len - w ≤ limit) :
    ∃ d', step limit d = .ok (len - w) d' ∧ Cornered len pole history d' m 0 := by
  have hword := h.deck.word
  have hreading := h.toRunning.reading
  have hplayed : m % 3 ≠ (m + 2) % 3 := by omega
  have hbegun : (m + 1) % 3 ≠ (m + 2) % 3 := by omega
  have hthird : (m + 3) % 3 = m % 3 := by omega
  have hholds : (d.turned m w len).Holds ((m + 1) % 3) (block len pole history (m + 1)) :=
    h.next.turned (by omega)
  obtain ⟨hstart, hnext⟩ := hreading.poised.start (by omega) hholds
  -- The slot that has been played holds its own decay, for block `m + 3`.
  have hfaded : (d.turned m w len).Holds (m % 3) (block len pole history (m + 3)) :=
    hreading.faded
  -- Whether the block that begins is a decay only matters for the underruns.
  generalize (block len pole history (m + 1)).isFade = fade at hstart hnext
  have hslots : ((d.turned m w len).late ((m + 1) % 3) fade).slots = (d.turned m w len).slots :=
    slots_late _ _ _
  refine ⟨_, ?_, hnext, h.entries, ?_, ?_, ?_, ?_, ?_⟩
  · rw [hreading.step_last_eq hlen hle, Run.bind_ok hstart]
    rfl
  · exact (filling_late _ _ _).trans h.filling
  · refine (Slots.state?_setState_ne _ _ hbegun).trans ?_
    rw [hslots]
    exact (Slots.state?_setState_ne _ _ hplayed).trans h.target
  · exact (isPrimed_setPrimed_ne hbegun false).trans ((isPrimed_late _ _ _ _).trans h.cleared)
  · rw [hthird]
    exact (hfaded.late _ fade).onto (by omega)
  · have hstats := stats_late (d.turned m w len) ((m + 1) % 3) fade
    refine Eq.trans ?_ h.overruns
    show ((d.turned m w len).late ((m + 1) % 3) fade).stats.overruns = _
    rw [hstats]
    rfl

/-- **Within the block** time passes as ever. -/
theorem Cornered.advance_within (h : Cornered len pole history d m w) (hn : n < len - w) :
    ∃ d', advance n d = .ok () d' ∧ Cornered len pole history d' m (w + n) := by
  refine Run.elapse_once (fun hzero => ?_) fun hpos => ?_
  · rw [hzero]
    exact h
  · obtain ⟨hstep, hreading⟩ := h.toReading.step_within hlen hpos hn
    exact ⟨_, hstep, hreading, h.earlier, h.filling, h.target, h.cleared,
      h.later.congr rfl rfl rfl, h.overruns⟩

end Time

/-! ### Dates -/

/-- **A history with other dates:** a frame bears the date of its commit, or one that is a block
    earlier. -/
def Dated (len : Nat) (dated history : List Commit) : Prop :=
  List.Forall₂ (fun b c => b.frame = c.frame ∧ (b.entry = c.entry ∨ b.entry + len = c.entry))
    dated history

theorem Dated.refl (len : Nat) (history : List Commit) : Dated len history history :=
  List.forall₂_same.mpr fun _ _ => ⟨rfl, .inl rfl⟩

theorem Dated.append {b c : Commit} (h : Dated len dated history) (hframe : b.frame = c.frame)
    (hentry : b.entry = c.entry ∨ b.entry + len = c.entry) :
    Dated len (dated ++ [b]) (history ++ [c]) :=
  List.rel_append h (.cons ⟨hframe, hentry⟩ .nil)

/-- A frame was handed over no later than a block after its date. -/
theorem Dated.exists_mem {b : Commit} (h : Dated len dated history) (hb : b ∈ dated) :
    ∃ c ∈ history, c.frame = b.frame ∧ c.entry ≤ b.entry + len := by
  induction h with
  | nil => cases hb
  | cons hrel _ ih =>
    rcases List.mem_cons.mp hb with rfl | hb
    · exact ⟨_, List.mem_cons_self, hrel.1.symm, by rcases hrel.2 with h | h <;> omega⟩
    · obtain ⟨c, hc, hframe, hle⟩ := ih hb
      exact ⟨c, List.mem_cons_of_mem _ hc, hframe, hle⟩

/-- The first frame is the same, and was handed over before anything was played. -/
theorem Dated.first (h : Dated len dated history) (hne : dated ≠ []) (hbegins : Begins history) :
    ∃ c ∈ history, c.frame = firstFrame dated ∧ c.entry = 0 := by
  cases h with
  | nil => exact absurd rfl hne
  | cons hrel _ => exact ⟨_, List.mem_cons_self, hrel.1.symm, hbegins _ rfl⟩

/-- **Every block** is a frame handed over before it began, a copy of the first one, or a decay of
    what its slot played before. -/
theorem owed_block (hdated : Dated len dated history) (hne : dated ≠ [])
    (hbegins : Begins history) (hpos : 0 < len) (n : Nat) :
    (block len pole dated n).Owed 3 len pole history (block len pole dated) n := by
  obtain ⟨a, ha, hfirst, hzero⟩ := hdated.first hne hbegins
  -- A frame dated two blocks before its own was handed over in time.
  have hframe : ∀ k b, (during len dated k).getLast? = some b →
      ∃ c ∈ history, c.frame = b.frame ∧ c.entry ≤ (k + 2) * len := by
    intro k b hb
    have hmem := List.mem_of_getLast? hb
    have hblock : b.entry / len = k := of_decide_eq_true (List.mem_filter.mp hmem).2
    have hlt : b.entry < (k + 1) * len := by
      rw [← hblock]
      exact Nat.lt_mul_of_div_lt (Nat.lt_succ_self _) hpos
    obtain ⟨c, hc, hsame, hle⟩ := hdated.exists_mem (during_subset len k dated hmem)
    refine ⟨c, hc, hsame, ?_⟩
    rw [Nat.succ_mul]
    omega
  match n with
  | 0 => exact ⟨a, ha, hfirst, by omega⟩
  | 1 => exact ⟨a, ha, hfirst, by omega⟩
  | 2 =>
    cases h : (during len dated 0).getLast? with
    | some b => rw [block, h]; exact hframe 0 b h
    | none => rw [block, h]; exact ⟨a, ha, hfirst, by omega⟩
  | n + 3 =>
    cases h : (during len dated (n + 1)).getLast? with
    | some b => rw [block, h]; exact hframe (n + 1) b h
    | none => rw [block, h]; exact ⟨n, by omega, Nat.le_refl _, rfl⟩

/-! ### The frame is filled in and handed over -/

theorem Cornered.write (h : Cornered len pole history d m w) (words : Array Word) :
    ∃ d', write words d = .ok () d' ∧ Cornered len pole history d' m w := by
  have hslot : (m + 2) % 3 < 3 := Nat.mod_lt _ (by decide)
  have hplays : (m + 2) % 3 ≠ (m + 1) % 3 := by omega
  have hlater : (m + 2) % 3 ≠ (m + 3) % 3 := by omega
  refine ⟨_, write_ok h.filling h.target words, ?_⟩
  exact
    { toSteady := h.toSteady.rewritten hslot words
      nonempty := h.nonempty
      entries := h.entries
      playing := h.playing
      reads := h.reads
      draining := h.draining
      words := (Slots.words_setWords_ne _ _ hplays).trans h.words
      unprimed := h.unprimed
      deck := h.deck.same rfl rfl
      irqs := h.irqs
      underruns := h.underruns
      earlier := h.earlier
      filling := h.filling
      target := h.target
      cleared := h.cleared
      later := h.later.congr rfl (Slots.words_setWords_ne _ _ hlater) rfl
      overruns := h.overruns }

/-- **A commit of the slot that plays next** decides the next block, as if it had been made while
    the block before played. -/
theorem Cornered.commit (h : Cornered len pole dated d m w) (hdated : Dated len dated history)
    (count : Nat) :
    ∃ d' b, commit count d = .ok () d' ∧
      Dated len (dated ++ [b]) (history ++ port.noted (.commit count) d d') ∧
      Live len pole (dated ++ [b]) d' (m + 1) w := by
  have hslot : (m + 2) % 3 < 3 := Nat.mod_lt _ (by decide)
  have hplays : (m + 2) % 3 ≠ (m + 1) % 3 := by omega
  have hlater : (m + 2) % 3 ≠ (m + 3) % 3 := by omega
  have hword := h.deck.word
  have hsize : d.played.size = m * len + w + len := by
    rw [h.deck.size, Nat.succ_mul]
    omega
  -- The commit, dated one block earlier.
  obtain ⟨b, hb⟩ : ∃ b : Commit, b = { d.handover d.slots ((m + 2) % 3) count with
    entry := m * len + w } := ⟨_, rfl⟩
  have hentry : b.entry = m * len + w := by rw [hb]
  have hframe : b.frame = (d.handover d.slots ((m + 2) % 3) count).frame := by rw [hb]
  have hduring : b.entry / len = m := by rw [hentry, div_mul_add hword]
  have hreading := h.toReading.handed hslot hplays count hframe hduring (Nat.le_succ m)
    (Nat.le_refl (m + 1))
  -- Nothing is dated in the block that plays.
  have hnone : during len (dated ++ [b]) (m + 1) = [] := by
    rw [during_append h.nonempty, during_eq_nil h.earlier, if_neg (by omega)]
    rfl
  refine ⟨d.handed ((m + 2) % 3) count, b, ?_, ?_, hreading.running ?_, rfl, ?_, ?_⟩
  · rw [commit_eq h.shaped hslot h.filling h.target, h.playing]
    rfl
  · rw [noted_commit h.filling (by rfl)]
    refine hdated.append hframe (.inr ?_)
    rw [hentry]
    exact hsize.symm
  · rw [block_append_last h.nonempty hduring, hframe]
    exact ⟨Deck.state?_filled_self h.shaped hslot d.toDeck count,
      Deck.words_filled_self h.shaped hslot d.toDeck count, h.cleared⟩
  · rw [block_eq_fade hnone, block_append h.nonempty hduring (Nat.le_succ m),
      ← block_eq_fade (during_eq_nil h.earlier)]
    exact h.later.congr (Deck.state?_filled_ne d.toDeck count hlater)
      (Deck.words_filled_ne d.toDeck count hlater) rfl
  · rw [lost_succ, hnone, lost_append h.nonempty hduring]
    exact h.overruns

/-! ### Order -/

/-- The states between calls; `dated` is the history by which the blocks are played. -/
def Standing (len pole : Nat) (history : List Commit) (holding : Bool) (d : Triple) : Prop :=
  (history = [] ∧ Preroll len pole holding d) ∨
    ∃ dated, Dated len dated history ∧ ∃ m w,
      if holding then Held len pole dated d m w ∨ Cornered len pole dated d m w
      else Live len pole dated d m w

/-- A slot of which there are three is the one that plays or one of the two after it. -/
theorem slot_eq (m : Nat) {i : Nat} (hi : i < 3) :
    i = m % 3 ∨ i = (m + 1) % 3 ∨ i = (m + 2) % 3 := by
  omega

/-- Before playback the hardware reads no slot. -/
theorem Preroll.state?_ne (h : Preroll len pole holding d) (i : Nat) :
    d.slots.state? i ≠ some .draining := by
  match i with
  | 0 =>
    rw [h.target]
    cases holding <;> simp
  | 1 => simp [h.second]
  | 2 => simp [h.third]
  | i + 3 => simp [Slots.state?_eq_none h.shaped (Nat.le_add_left 3 i)]

theorem Preroll.orderly (h : Preroll len pole holding d) (hpos : 0 < len) :
    Orderly len pole [] d.toDeck d.slots d.filling := by
  have hheld : ∀ slot, d.filling = some slot → d.slots.state? slot = some .filling := by
    cases holding with
    | false => exact Slots.held_of_none h.filling
    | true => exact Slots.held_of_some h.filling h.target
  exact .of_idle (h.solo.idle h.stopped) h.state?_ne hheld
    (.of_silent hpos h.played h.hardwareWords h.irqs h.underruns h.state?_ne)

/-- In playback there is order as long as the other slots are not drained as well. -/
theorem Reading.orderly (hlen : len ≤ regionWords) (hdated : Dated len dated history)
    (hbegins : Begins history) (h : Reading len pole dated d m w)
    (hnext : d.slots.state? ((m + 1) % 3) ≠ some .draining)
    (hlater : d.slots.state? ((m + 2) % 3) ≠ some .draining)
    (hheld : ∀ slot, d.filling = some slot → d.slots.state? slot = some .filling) :
    Orderly len pole history d.toDeck d.slots d.filling := by
  have hword := h.deck.word
  have hcount : d.slots.count = 3 := h.shaped.memory_size
  -- The block that plays is the only slot drained: there are three, and the others are excluded.
  have hdraining : ∀ i, d.slots.state? i = some .draining ↔ i = m % 3 := by
    intro i
    constructor
    · intro hi
      have hlt : i < 3 := Slots.lt_of_state? h.shaped hi
      rcases slot_eq m hlt with rfl | rfl | rfl
      · rfl
      · exact absurd hi hnext
      · exact absurd hi hlater
    · rintro rfl
      exact h.draining
  refine .of_reads h.reads (by omega) (Nat.lt_of_lt_of_le hword hlen) h.solo.others hdraining hheld
    (.of_playing h.deck h.irqs h.draining h.underruns fun n _ => ?_)
  rw [hcount]
  exact owed_block hdated h.nonempty hbegins (by omega) n

/-- A slot that is not yet played is not drained. -/
theorem Holds.state?_ne {slot : Nat} {b : Block} (h : d.Holds slot b) :
    d.slots.state? slot ≠ some .draining := by
  rw [h.state]
  split <;> simp

theorem Live.orderly (hlen : len ≤ regionWords) (hdated : Dated len dated history)
    (hbegins : Begins history) (h : Live len pole dated d m w) :
    Orderly len pole history d.toDeck d.slots d.filling := by
  exact h.toRunning.reading.orderly hlen hdated hbegins h.next.state?_ne h.later.state?_ne
    (Slots.held_of_none h.filling)

theorem Held.orderly (hlen : len ≤ regionWords) (hdated : Dated len dated history)
    (hbegins : Begins history) (h : Held len pole dated d m w) :
    Orderly len pole history d.toDeck d.slots d.filling := by
  refine h.toRunning.reading.orderly hlen hdated hbegins h.next.state?_ne ?_
    (Slots.held_of_some h.filling h.target)
  rw [h.target]
  simp

theorem Cornered.orderly (hlen : len ≤ regionWords) (hdated : Dated len dated history)
    (hbegins : Begins history) (h : Cornered len pole dated d m w) :
    Orderly len pole history d.toDeck d.slots d.filling := by
  refine h.toReading.orderly hlen hdated hbegins ?_ h.later.state?_ne
    (Slots.held_of_some h.filling h.target)
  rw [h.target]
  simp

/-- **Every state between calls is in order,** whether software holds a slot or not. -/
theorem Standing.orderly (hpos : 0 < len) (hlen : len ≤ regionWords) (hbegins : Begins history)
    (h : Standing len pole history holding d) :
    Orderly len pole history d.toDeck d.slots d.filling := by
  rcases h with ⟨rfl, h⟩ | ⟨dated, hdated, m, w, h⟩
  · exact h.orderly hpos
  cases holding with
  | false => exact Live.orderly hlen hdated hbegins h
  | true =>
    rcases h with h | h
    · exact h.orderly hlen hdated hbegins
    · exact h.orderly hlen hdated hbegins

/-! ### How far off the slot is -/

/-- How far off the slot is that software fills. -/
def leeway (d : Triple) : Option Nat :=
  wordsBefore d.toDeck d.slots d.playing d.filling

theorem Preroll.leeway (h : Preroll len pole holding d) : d.leeway = none := by
  rw [Triple.leeway, h.playing, wordsBefore_not_playing]

theorem Live.leeway (h : Live len pole history d m w) : d.leeway = none := by
  rw [Triple.leeway, h.filling, wordsBefore_not_filling]

/-- There is one slot between the one that plays and the one that is held. -/
theorem Held.leeway (h : Held len pole history d m w) : d.leeway = some (len - w + len) := by
  rw [Triple.leeway, h.playing, h.filling, wordsBefore_eq (h.solo.running? h.reads.busy) h.reads
    h.shaped (by decide), show ((m + 2) % 3 + 3 - 1 - m % 3) % 3 = 1 by omega, Nat.one_mul]

theorem Cornered.leeway (h : Cornered len pole history d m w) : d.leeway = some (len - w) := by
  rw [Triple.leeway, h.playing, h.filling, wordsBefore_eq (h.solo.running? h.reads.busy) h.reads
    h.shaped (by decide), show ((m + 2) % 3 + 3 - 1 - (m + 1) % 3) % 3 = 0 by omega, Nat.zero_mul,
    Nat.add_zero]

/-! ### The hardware comes to the slot -/

/-- **At the end of the block** the hardware comes to the slot that software fills. -/
theorem Cornered.advance_past (hlen : len ≤ regionWords) (hdated : Dated len dated history)
    (hbegins : Begins history) (h : Cornered len pole dated d m w) (hn : len - w ≤ n) :
    ∃ d', advance n d = .error (.notDrainable ((m + 2) % 3) .filling) d' ∧
      Overtaken len pole history ((m + 2) % 3) d'.toDeck d'.slots d'.filling := by
  have hword := h.deck.word
  have hplayed : (m + 1) % 3 ≠ (m + 2) % 3 := by omega
  have hpoised := h.toReading.poised
  have hlast := h.toReading.step_last_eq hlen hn
  have hfaded := h.toReading.faded
  have hlater : (d.turned (m + 1) w len).Holds ((m + 3) % 3) (block len pole dated (m + 3)) :=
    h.later.turned (by omega)
  have htarget : (d.turned (m + 1) w len).slots.state? ((m + 2) % 3) = some .filling :=
    (Slots.state?_setState_ne _ _ hplayed).trans h.target
  -- The slot just played is free, the one that is held is filled, and the third one waits.
  have hnone : ∀ i, (d.turned (m + 1) w len).slots.state? i ≠ some .draining := by
    intro i hi
    have hlt : i < 3 := Slots.lt_of_state? hpoised.shaped hi
    rcases slot_eq (m + 1) hlt with rfl | rfl | rfl
    · exact hfaded.state?_ne hi
    · rw [htarget] at hi
      cases hi
    · exact hlater.state?_ne hi
  have hcount : (d.turned (m + 1) w len).slots.count = 3 := hpoised.shaped.memory_size
  refine ⟨d.turned (m + 1) w len, ?_, h.filling, htarget, hnone, ?_⟩
  · refine Run.elapse_error (by omega) ?_
    rw [hlast]
    exact Run.bind_error (startSlot_filling htarget)
  · refine .of_between hpoised.deck hpoised.irqs hnone hpoised.underruns fun n _ => ?_
    rw [hcount]
    exact owed_block hdated h.nonempty hbegins (by omega) n

/-- **Time while a slot is held** passes for so long that the hardware does not come to it. -/
theorem Held.advance (hlen : len ≤ regionWords) (hdated : Dated len dated history)
    (hbegins : Begins history) (h : Held len pole dated d m w) (n : Nat) :
    (n < len - w + len ∧ ∃ d', advance n d = .ok () d' ∧
      ((∃ w', Held len pole dated d' m w') ∨ ∃ w', Cornered len pole dated d' m w')) ∨
    (¬n < len - w + len ∧
      ∃ slot d', advance n d = .error (.notDrainable slot .filling) d' ∧
        Overtaken len pole history slot d'.toDeck d'.slots d'.filling) := by
  have hword := h.deck.word
  by_cases hwithin : n < len - w
  · obtain ⟨d', hd', hheld⟩ := h.advance_within hlen hwithin
    exact .inl ⟨by omega, d', hd', .inl ⟨_, hheld⟩⟩
  -- The block ends on the way, and what is left of the time passes in the next one.
  obtain ⟨s, hs, hcornered⟩ := h.step_last hlen (Nat.le_of_not_lt hwithin)
  have hrest : Triple.advance n d = Triple.advance (n - (len - w)) s :=
    Run.elapse_step (by omega) (by omega) hs
  rw [hrest]
  by_cases hn : n < len - w + len
  · obtain ⟨d', hd', hcornered'⟩ := hcornered.advance_within hlen (n := n - (len - w)) (by omega)
    exact .inl ⟨hn, d', hd', .inr ⟨_, hcornered'⟩⟩
  · obtain ⟨d', hd', hovertaken⟩ :=
      hcornered.advance_past hlen hdated hbegins (n := n - (len - w)) (by omega)
    exact .inr ⟨hn, _, d', hd', hovertaken⟩

/-! ### Calls at any moment -/

/-- Only time that passes while software holds a slot can bring the hardware there. -/
theorem Standing.leeway (h : Standing len pole history false d) : d.leeway = none := by
  rcases h with ⟨-, h⟩ | ⟨dated, -, m, w, h⟩
  · exact h.leeway
  · exact Live.leeway h

theorem Standing.acquire (h : Standing len pole history false d) :
    ∃ words d', acquire d = .ok words d' ∧ Standing len pole history true d' := by
  rcases h with ⟨hnil, h⟩ | ⟨dated, hdated, m, w, h⟩
  · obtain ⟨words, d', hd', -, hpre⟩ := h.acquire
    exact ⟨words, d', hd', .inl ⟨hnil, hpre⟩⟩
  · have hlive : Live len pole dated d m w := h
    obtain ⟨words, d', hd', -, hheld⟩ := hlive.acquire
    exact ⟨words, d', hd', .inr ⟨dated, hdated, m, w, .inl hheld⟩⟩

theorem Standing.write (h : Standing len pole history true d) (words : Array Word) :
    ∃ d', write words d = .ok () d' ∧ Standing len pole history true d' := by
  rcases h with ⟨hnil, h⟩ | ⟨dated, hdated, m, w, h | h⟩
  · obtain ⟨hd', hpre⟩ := h.write words
    exact ⟨_, hd', .inl ⟨hnil, hpre⟩⟩
  · obtain ⟨hd', hheld⟩ := h.write words
    exact ⟨_, hd', .inr ⟨dated, hdated, m, w, .inl hheld⟩⟩
  · obtain ⟨d', hd', hcornered⟩ := h.write words
    exact ⟨d', hd', .inr ⟨dated, hdated, m, w, .inr hcornered⟩⟩

theorem Standing.commit (hpos : 0 < len) (h : Standing len pole history true d) (count : Nat) :
    ∃ d', commit count d = .ok () d' ∧
      Standing len pole (history ++ port.noted (.commit count) d d') false d' := by
  rcases h with ⟨rfl, h⟩ | ⟨dated, hdated, m, w, h | h⟩
  · obtain ⟨d', hd', hlive⟩ := h.commit hpos count
    exact ⟨d', hd', .inr ⟨_, .refl _ _, 0, 0, hlive⟩⟩
  · obtain ⟨d', hd', hlive⟩ := h.commit count
    refine ⟨d', hd', .inr ⟨_, ?_, m, w, hlive⟩⟩
    exact List.rel_append hdated (Dated.refl len _)
  · obtain ⟨d', b, hd', hdated', hlive⟩ := h.commit hdated count
    exact ⟨d', hd', .inr ⟨_, hdated', m + 1, w, hlive⟩⟩

/-- Time while no slot is held always passes. -/
theorem Standing.advance_free (hlen : len ≤ regionWords) (h : Standing len pole history false d)
    (n : Nat) : ∃ d', advance n d = .ok () d' ∧ Standing len pole history false d' := by
  rcases h with ⟨hnil, h⟩ | ⟨dated, hdated, m, w, h⟩
  · obtain ⟨d', hd', hpre⟩ := h.advance n
    exact ⟨d', hd', .inl ⟨hnil, hpre⟩⟩
  · have hlive : Live len pole dated d m w := h
    obtain ⟨d', m', w', hd', hlive', -⟩ := hlive.advance hlen n
    exact ⟨d', hd', .inr ⟨dated, hdated, m', w', hlive'⟩⟩

/-- **Time while a slot is held** passes unless it lets the hardware come to that slot. -/
theorem Standing.advance_held (hlen : len ≤ regionWords) (hbegins : Begins history)
    (h : Standing len pole history true d) (n : Nat) :
    ((Call.advance n).Within d.leeway ∧
      ∃ d', advance n d = .ok () d' ∧ Standing len pole history true d') ∨
    (¬(Call.advance n).Within d.leeway ∧
      ∃ slot d', advance n d = .error (.notDrainable slot .filling) d' ∧
        Overtaken len pole history slot d'.toDeck d'.slots d'.filling) := by
  rcases h with ⟨hnil, h⟩ | ⟨dated, hdated, m, w, h | h⟩
  · obtain ⟨d', hd', hpre⟩ := h.advance n
    rw [h.leeway]
    exact .inl ⟨Call.within_none _, d', hd', .inl ⟨hnil, hpre⟩⟩
  · rw [h.leeway, Call.within_advance]
    refine (h.advance hlen hdated hbegins n).imp_left ?_
    rintro ⟨hn, d', hd', ⟨w', hheld⟩ | ⟨w', hcornered⟩⟩
    · exact ⟨hn, d', hd', .inr ⟨dated, hdated, m, w', .inl hheld⟩⟩
    · exact ⟨hn, d', hd', .inr ⟨dated, hdated, m, w', .inr hcornered⟩⟩
  · rw [h.leeway, Call.within_advance]
    by_cases hn : n < len - w
    · obtain ⟨d', hd', hcornered⟩ := h.advance_within hlen hn
      exact .inl ⟨hn, d', hd', .inr ⟨dated, hdated, m, _, .inr hcornered⟩⟩
    · obtain ⟨d', hd', hovertaken⟩ := h.advance_past hlen hdated hbegins (Nat.le_of_not_lt hn)
      exact .inr ⟨hn, _, d', hd', hovertaken⟩

/-- **A call succeeds** unless it lets the hardware come to the slot that software holds. -/
theorem Standing.call_anytime {c : Call} (hpos : 0 < len) (hlen : len ≤ regionWords)
    (hbegins : Begins history) (h : Standing len pole history holding d)
    (hc : c.Allowed holding) :
    (c.Within d.leeway ∧ ∃ d', port.call c d = .ok () d' ∧
      Standing len pole (history ++ port.noted c d d') (c.holds holding) d') ∨
    (¬c.Within d.leeway ∧
      ∃ slot d', port.call c d = .error (.notDrainable slot .filling) d' ∧
        Overtaken len pole history slot d'.toDeck d'.slots d'.filling) := by
  cases c with
  | acquire =>
    obtain rfl : holding = false := hc
    obtain ⟨words, d', hd', hstanding⟩ := h.acquire
    refine .inl ⟨trivial, d', Run.bind_ok hd', ?_⟩
    rw [Port.noted, List.append_nil]
    exact hstanding
  | write words =>
    obtain rfl : holding = true := hc
    obtain ⟨d', hd', hstanding⟩ := h.write words
    refine .inl ⟨trivial, d', hd', ?_⟩
    rw [Port.noted, List.append_nil]
    exact hstanding
  | commit count =>
    obtain rfl : holding = true := hc
    exact .inl ⟨trivial, h.commit hpos count⟩
  | advance n =>
    simp only [Port.noted, List.append_nil]
    cases holding with
    | false =>
      rw [h.leeway]
      exact .inl ⟨Call.within_none _, h.advance_free hlen n⟩
    | true => exact h.advance_held hlen hbegins n

end ConsolePipeline.Playback.Triple
