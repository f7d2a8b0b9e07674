import ConsolePipeline.Playback.Dma

namespace ConsolePipeline.Playback

open Stereo

/-!
# One transfer

What a step of the transfer engine does, wherever in memory a channel stands. Addresses are exact as
long as a region holds no more words than fit between two region starts (`regionWords`).

* `Addresses` — the word of a region that an address names; `addresses_iff`, `Addresses.add` — the
  engine finds it, and the words behind it.
* `regionOf_regionAddress`, `wordOf_regionAddress`, `regionAddress_add` — the addresses that
  software gives.
* `LiesAt` — an address in a region of memory; `Channel.Moves`, `Channel.Circles` — a channel on its
  way through a range, or round a ring.
* `Engine.moved`, `finished`, `turnedTo` — what a transfer leaves of the engine.
* `Engine.step_moves`, `step_circles` — one transfer of each kind.
* `Engine.complete_ok`, `complete_error` — a completion, and whether there is a channel to start.
-/

/-! ### Addresses -/

/-- Words that fit between the starts of two regions. -/
def regionWords : Nat := 262144

theorem regionAddress_sub (region word : Nat) :
    regionAddress region word - memoryBase = UInt32.ofNat (region * 1048576 + word * 4) := by
  have hstride : regionStride = UInt32.ofNat 1048576 := rfl
  have hbytes : (4 : UInt32) = UInt32.ofNat 4 := rfl
  rw [regionAddress, hstride, hbytes, UInt32.ofNat_add, UInt32.ofNat_mul, UInt32.ofNat_mul]
  grind

theorem wordOf_regionAddress (region : Nat) {word : Nat} (hword : word < regionWords) :
    wordOf (regionAddress region word) = word := by
  have hstride : regionStride.toNat = 1048576 := rfl
  have hbytes : (4 : UInt32).toNat = 4 := rfl
  rw [regionWords] at hword
  rw [wordOf, regionAddress_sub, UInt32.toNat_div, UInt32.toNat_mod, hstride,
    UInt32.toNat_ofNat', hbytes]
  omega

/-- Moving on by `n` words moves the address on by four bytes each. -/
theorem regionAddress_add (region word n : Nat) :
    regionAddress region word + UInt32.ofNat (n * 4) = regionAddress region (word + n) := by
  have hbytes : (4 : UInt32) = UInt32.ofNat 4 := rfl
  rw [regionAddress, regionAddress, hbytes, UInt32.ofNat_add, UInt32.ofNat_mul]
  grind

/-- The address names word `word` of a region, by any of the word's four bytes: it lies so far above
    the start of memory. -/
structure Addresses (a : UInt32) (region word : Nat) : Prop where
  word_lt : word < regionWords
  place : (a - memoryBase).toNat / 4 = region * regionWords + word

section Addresses

variable {a : UInt32} {region word : Nat}

/-- **The engine decodes an address** into the region and the word that it names. -/
theorem addresses_iff : Addresses a region word ↔ regionOf a = region ∧ wordOf a = word := by
  have hstride : regionStride.toNat = 1048576 := rfl
  have hbytes : (4 : UInt32).toNat = 4 := rfl
  rw [regionOf, wordOf, UInt32.toNat_div, UInt32.toNat_div, UInt32.toNat_mod, hstride, hbytes]
  constructor
  · intro h
    have hword := h.word_lt
    have hplace := h.place
    rw [regionWords] at hword hplace
    omega
  · rintro ⟨rfl, rfl⟩
    constructor <;> rw [regionWords] <;> omega

theorem Addresses.region_lt (h : Addresses a region word) : region < 4096 := by
  have hlt := (a - memoryBase).toNat_lt
  have hplace := h.place
  rw [regionWords] at hplace
  omega

theorem addresses_regionAddress (hregion : region < 4096) (hword : word < regionWords) :
    Addresses (regionAddress region word) region word := by
  refine ⟨hword, ?_⟩
  rw [regionWords] at hword ⊢
  rw [regionAddress_sub, UInt32.toNat_ofNat']
  omega

theorem regionOf_regionAddress (hregion : region < 4096) (hword : word < regionWords) :
    regionOf (regionAddress region word) = region :=
  (addresses_iff.mp (addresses_regionAddress hregion hword)).1

/-- Four bytes on is one word on. -/
theorem Addresses.add {n : Nat} (h : Addresses a region word) (hn : word + n < regionWords) :
    Addresses (a + UInt32.ofNat (n * 4)) region (word + n) := by
  have hregion := h.region_lt
  have hplace := h.place
  have hsub : a + UInt32.ofNat (n * 4) - memoryBase = a - memoryBase + UInt32.ofNat (n * 4) := by
    grind
  refine ⟨hn, ?_⟩
  rw [regionWords] at hn hplace ⊢
  rw [hsub, UInt32.toNat_add, UInt32.toNat_ofNat']
  omega

end Addresses

/-! ### Channels -/

/-- The address is that of word `w` of a region, which holds the given words. -/
structure LiesAt (memory : Array (Array Word)) (region : Nat) (words : Array Word) (a : UInt32)
    (w : Nat) : Prop where
  addresses : Addresses a region w
  there : memory[region]? = some words

/-- The channel has `left` words to move, all of one region, and stands at word `w` of it. -/
structure Channel.Moves (c : Channel) (memory : Array (Array Word)) (region : Nat)
    (words : Array Word) (w left : Nat) : Prop where
  busy : c.busy = true
  ring : c.ringWords = none
  remaining : c.remaining = left
  lies : LiesAt memory region words c.readAddr w
  inside : w + left ≤ words.size

/-- The channel goes round a region in ring mode, and stands at word `w` of it. -/
structure Channel.Circles (c : Channel) (memory : Array (Array Word)) (region : Nat)
    (words : Array Word) (w : Nat) : Prop where
  busy : c.busy = true
  ring : c.ringWords = some words.size
  power : words.size.isPowerOfTwo
  lies : LiesAt memory region words c.readAddr w
  inside : w < words.size

namespace Engine

variable {e : Engine} {ch c : ChannelId}

@[simp] theorem channels_modifyChannel_self (e : Engine) (ch : ChannelId) (f : Channel → Channel) :
    (e.modifyChannel ch f).channel ch = f (e.channel ch) := by
  simp [modifyChannel, channel]

theorem channels_modifyChannel_ne (e : Engine) (f : Channel → Channel) (h : c ≠ ch) :
    (e.modifyChannel ch f).channel c = e.channel c := by
  have hval : ch.val ≠ c.val := fun hval => h (Fin.ext hval.symm)
  simp [modifyChannel, channel, Vector.getElem_set_ne, hval]

theorem running?_eq_some (hbusy : (e.channel ch).busy = true)
    (hothers : ∀ c : ChannelId, c ≠ ch → (e.channel c).busy = false) :
    e.running? = some ch := by
  rw [running?]
  cases hfind : (List.finRange channelCount).find? fun ch => (e.channel ch).busy with
  | none => exact absurd hbusy (List.find?_eq_none.mp hfind ch (List.mem_finRange ch))
  | some c =>
    have hc := List.find?_some hfind
    by_cases hne : c = ch
    · rw [hne]
    · exact absurd hc (by rw [hothers c hne]; decide)

theorem running?_eq_none (h : ∀ c : ChannelId, (e.channel c).busy = false) : e.running? = none := by
  rw [running?, List.find?_eq_none]
  intro c _
  rw [h c]
  decide

theorem modifyChannel_modifyChannel (e : Engine) (ch : ChannelId) (f g : Channel → Channel) :
    (e.modifyChannel ch f).modifyChannel ch g = e.modifyChannel ch fun c => g (f c) := by
  rw [modifyChannel, channels_modifyChannel_self]
  simp [modifyChannel]

theorem modifyChannel_eq_self {f : Channel → Channel} (hf : f (e.channel ch) = e.channel ch) :
    e.modifyChannel ch f = e := by
  rw [modifyChannel, hf, channel]
  simp

/-- A change to a channel that runs no less and no more than before. -/
theorem running?_modifyChannel (e : Engine) (ch : ChannelId) {f : Channel → Channel}
    (hf : (f (e.channel ch)).busy = (e.channel ch).busy) :
    (e.modifyChannel ch f).running? = e.running? := by
  have hbusy : ∀ c : ChannelId, ((e.modifyChannel ch f).channel c).busy = (e.channel c).busy := by
    intro c
    by_cases hc : c = ch
    · rw [hc, channels_modifyChannel_self, hf]
    · rw [channels_modifyChannel_ne _ _ hc]
  simp only [running?, hbusy]

/-! ### What a transfer leaves -/

/-- The engine once a channel has moved on by `n` words. -/
def moved (e : Engine) (ch : ChannelId) (n : Nat) : Engine :=
  e.modifyChannel ch fun c =>
    { c with
      readAddr := c.readAddr + UInt32.ofNat (n * 4)
      remaining := c.remaining - n }

/-- The engine once a channel that is chained to none has run out. -/
def finished (e : Engine) (ch : ChannelId) : Engine :=
  { e.modifyChannel ch fun c => { c with busy := false } with
    pending := e.pending ||| bit ch
    mailbox := e.mailbox.post (e.channel ch).tag }

/-- The engine once a channel in ring mode has come to an address. -/
def turnedTo (e : Engine) (ch : ChannelId) (a : UInt32) : Engine :=
  e.modifyChannel ch fun c => { c with readAddr := a }

/-- Moving on twice is moving on by all of it. -/
theorem moved_moved (e : Engine) (ch : ChannelId) (a b : Nat) :
    (e.moved ch a).moved ch b = e.moved ch (a + b) := by
  rw [moved, moved, modifyChannel_modifyChannel, moved]
  congr 1
  funext c
  have haddr : c.readAddr + UInt32.ofNat (a * 4) + UInt32.ofNat (b * 4) =
      c.readAddr + UInt32.ofNat ((a + b) * 4) := by
    rw [Nat.add_mul, UInt32.ofNat_add, UInt32.add_assoc]
  simp only [haddr, Nat.sub_sub]

/-- A channel that moves on goes on running. -/
theorem running?_moved (e : Engine) (ch : ChannelId) (n : Nat) :
    (e.moved ch n).running? = e.running? :=
  running?_modifyChannel e ch rfl

/-! ### One transfer -/

theorem step_idle (h : ∀ c : ChannelId, (e.channel c).busy = false)
    (memory : Array (Array Word)) (limit : Nat) :
    e.step memory limit = .ok (⟨limit, true, none⟩, #[], e) := by
  simp only [step, running?_eq_none h, ite_self]

theorem and_pred_eq_mod {size : Nat} (h : size.isPowerOfTwo) (n : Nat) :
    n &&& (size - 1) = n % size := by
  obtain ⟨k, rfl⟩ := h
  exact Nat.and_two_pow_sub_one_eq_mod n k

section Transfer

variable {memory : Array (Array Word)} {words : Array Word} {region w left limit : Nat}

/-- **One transfer of a range** moves as much as is asked for and left. -/
theorem step_moves (hrun : e.running? = some ch)
    (h : (e.channel ch).Moves memory region words w left) (hleft : 0 < left) (hlimit : 0 < limit) :
    e.step memory limit =
      if left - min limit left = 0 then
        ((e.moved ch (min limit left)).complete ch).map fun e =>
          (⟨min limit left, false, some ch⟩, words.extract w (w + min limit left), e)
      else
        .ok (⟨min limit left, false, none⟩, words.extract w (w + min limit left),
          e.moved ch (min limit left)) := by
  obtain ⟨hregion, hword⟩ := addresses_iff.mp h.lies.addresses
  have hinside := h.inside
  have hmin : min (min limit left) (words.size - w) = min limit left := by omega
  have hpos : min limit left ≠ 0 := by omega
  simp only [step, hrun, hregion, hword, h.lies.there, h.ring, h.remaining, hmin,
    Nat.pos_iff_ne_zero.mp hlimit, hpos, if_false, moved]

/-- **One transfer in ring mode** ends at the latest where the ring does. -/
theorem step_circles (hrun : e.running? = some ch)
    (h : (e.channel ch).Circles memory region words w) (hlimit : 0 < limit) :
    e.step memory limit = .ok (⟨min limit (words.size - w), false, none⟩,
      words.extract w (w + min limit (words.size - w)),
      e.turnedTo ch (regionAddress region ((w + min limit (words.size - w)) % words.size))) := by
  obtain ⟨hregion, hword⟩ := addresses_iff.mp h.lies.addresses
  have hw := h.inside
  have hbehind : ¬words.size < w := by omega
  have hfits : ¬words.size < w + min limit (words.size - w) := by omega
  simp only [step, hrun, hregion, hword, h.lies.there, h.ring, Nat.pos_iff_ne_zero.mp hlimit,
    hbehind, hfits, if_false, and_pred_eq_mod h.power, turnedTo]

end Transfer

/-! ### A completion -/

theorem complete_eq (e : Engine) (ch : ChannelId) :
    e.complete ch = match (e.channel ch).chainTo with
      | none => .ok (e.finished ch)
      | some next => (ChannelId.ofNat next).map (e.finished ch).start := rfl

/-- A channel that is chained to one that does not exist cannot complete. -/
theorem complete_error {next : Nat} (hchain : (e.channel ch).chainTo = some next)
    (hnext : channelCount ≤ next) : e.complete ch = .error (.noChannel next) := by
  rw [complete_eq, hchain]
  simp only [ChannelId.ofNat, dif_neg (Nat.not_lt.mpr hnext)]
  rfl

@[simp] theorem channel_finished_self (e : Engine) (ch : ChannelId) :
    (e.finished ch).channel ch = { e.channel ch with busy := false } :=
  channels_modifyChannel_self e ch fun c => { c with busy := false }

theorem channel_finished_ne (e : Engine) (h : c ≠ ch) : (e.finished ch).channel c = e.channel c :=
  channels_modifyChannel_ne e (fun c => { c with busy := false }) h

/-- **A completion:** the channel stops, and the one that it is chained to is started. -/
theorem complete_ok (hchain : ∀ next, (e.channel ch).chainTo = some next → next < channelCount) :
    ∃ e₁, e.complete ch = .ok e₁ ∧
      (∀ c : ChannelId, e₁.channel c = if (e.channel ch).chainTo = some c.val then
        ((e.finished ch).channel c).start else (e.finished ch).channel c) ∧
      e₁.pending = (e.finished ch).pending ∧ e₁.mailbox = (e.finished ch).mailbox := by
  rw [complete_eq]
  cases hnext : (e.channel ch).chainTo with
  | none => exact ⟨e.finished ch, rfl, by simp, rfl, rfl⟩
  | some next =>
    have hlt := hchain next hnext
    refine ⟨(e.finished ch).start ⟨next, hlt⟩, ?_, ?_, rfl, rfl⟩
    · simp only [ChannelId.ofNat, dif_pos hlt]
      rfl
    · intro c
      by_cases hc : c = ⟨next, hlt⟩
      · rw [hc, start, channels_modifyChannel_self, if_pos rfl]
      · have hval : ¬some next = some c.val := by
          intro hval
          exact hc (Fin.ext (Option.some.inj hval).symm)
        rw [start, channels_modifyChannel_ne _ _ hc, if_neg hval]

end Engine

end ConsolePipeline.Playback
