import ConsolePipeline.Proofs.Machine.SmallRing
import ConsolePipeline.Proofs.Playback.Ring.Overtaken

namespace ConsolePipeline.Machine

open Mixing Playback

/-!
# Limits of the rings that configurations ask for

The check of a configuration bounds the size of its ring from below only, by two frames and the
margin. Of the rings that pass, those are at fault that are longer than a region, whose reader is
lost at its end, and those in which the last round of a wait may take the reader past the writer.

* `exists_ring`, `exists_player` — the ring that a configuration plays with, and any player.
* `ring_never_stops_iff` — which rings never stop.
* `ring_stays_ahead_iff` — in which rings each frame lands ahead of the reader.
-/

variable {c : Config}

/-- **The ring of a configuration** that passes the check is silent at first, and as long as was
    asked for. -/
theorem exists_ring (h : c.Checked) (hring : c.strategy = .ring) :
    ∃ d, playerFor c = .ok (.ring d) ∧ Ring.Silent c.ring.size.toNat c.frameLength d ∧
      d.config = c.ring := by
  have hclaim := Engine.claim_ok h.first (Engine.claimed_fresh h.first)
  obtain ⟨d, hnew⟩ : ∃ d, Ring.new {} c.channels.1.toNat c.frameLength
      c.mixer.fadePole.toNat c.ring = .ok d := by
    rw [Ring.new, hclaim]
    exact ⟨_, rfl⟩
  have hplayer : playerFor c = .ok (.ring d) := by
    rw [playerFor, hring, Player.new, hnew]
    rfl
  obtain ⟨_, hd, hsilent⟩ := silent_playerFor h hring hplayer
  cases hd
  obtain ⟨ch, e, -, rfl⟩ := Ring.new_inv hnew Engine.quiet_fresh
  exact ⟨_, hplayer, hsilent, rfl⟩

/-- The player of a configuration that passes the check can be had. -/
theorem exists_player {c : Config} (h : c.Checked) : ∃ player, playerFor c = .ok player := by
  by_cases hring : c.strategy = .ring
  · obtain ⟨d, hplayer, -⟩ := exists_ring h hring
    exact ⟨.ring d, hplayer⟩
  · obtain ⟨player, hplayer, -⟩ := playerFor_ready h fun hstrategy => absurd hstrategy hring
    exact ⟨player, hplayer⟩

/-- Frames are much shorter than a region. -/
theorem frameLength_le_regionWords (h : c.Checked) : c.frameLength ≤ regionWords :=
  Nat.le_trans h.frame_le (by decide)

/-! ### Rings that never stop -/

/-- **Which rings never stop:** of those that pass the check, the ones that are not longer than a
    region. Then each word of time is a word played from the first commit on, whatever is called. A
    ring of a single word passes if the sum that the check compares wraps. Its reader is not seen to
    move, unless frames are so long that the first commit fails. -/
theorem ring_never_stops_iff (c : Config) (hcheck : c.check = .ok ()) (hring : c.strategy = .ring) :
    ∃ d, playerFor c = .ok (.ring d) ∧
      (d.NeverStops ↔
        c.ring.size.toNat ≤ 262144 ∧ (c.ring.size.toNat = 1 → 2 < c.frameLength)) := by
  have h := Config.checked hcheck
  obtain ⟨d, hplayer, hsilent, -⟩ := exists_ring h hring
  exact ⟨d, hplayer, hsilent.neverStops_iff (h.ring_isPowerOfTwo hring)
    (frameLength_le_regionWords h)⟩

/-- A ring of two regions. -/
def longRing : Config where
  ring := { size := 524288 }

/-- The default ring never stops; the one of two regions passes the check as well, but does. -/
theorem default_ring_never_stops :
    (∃ d, playerFor {} = .ok (.ring d) ∧ d.NeverStops) ∧
      longRing.check = .ok () ∧ ∃ d, playerFor longRing = .ok (.ring d) ∧ ¬d.NeverStops := by
  refine ⟨?_, by rfl, ?_⟩
  · obtain ⟨d, hplayer, hiff⟩ := ring_never_stops_iff {} rfl rfl
    exact ⟨d, hplayer, hiff.mpr (by decide)⟩
  · obtain ⟨d, hplayer, hiff⟩ := ring_never_stops_iff longRing rfl rfl
    exact ⟨d, hplayer, fun hnever => absurd (hiff.mp hnever).1 (by decide)⟩

/-! ### Rings that stay ahead -/

/-- Where a frame, the margin and a round of waiting fit, two frames and the margin do: the sum that
    the check compares does not wrap. -/
theorem two_frames_le (h : c.Checked) (hring : c.strategy = .ring)
    (haddressable : c.ring.size.toNat ≤ regionWords)
    (hample : c.frameLength + c.ring.margin.toNat + (waitWords - 1) ≤ c.ring.size.toNat) :
    2 * c.frameLength + c.ring.margin.toNat ≤ c.ring.size.toNat := by
  have hholds := UInt64.le_iff_toNat_le.mp (h.ring_holds hring)
  rw [UInt64.toNat_add, UInt64.toNat_mul, show (2 : UInt64).toNat = 2 from rfl] at hholds
  have hframe : c.frameLength ≤ 262144 := frameLength_le_regionWords h
  have hsize : c.ring.size.toNat ≤ 262144 := haddressable
  rw [Config.frameLength] at hframe hample ⊢
  omega

/-- **Which rings stay ahead:** of those that pass the check, the ones that are not longer than a
    region and hold, beside one frame and the margin, the 63 words that the last round of a wait may
    play too many. Then every commit ends, its frame lands ahead of the reader and is not written
    over, and the margin is free after it. -/
theorem ring_stays_ahead_iff (c : Config) (hcheck : c.check = .ok ()) (hring : c.strategy = .ring) :
    ∃ d, playerFor c = .ok (.ring d) ∧
      (d.StaysAhead ↔ c.ring.size.toNat ≤ 262144 ∧
        c.frameLength + c.ring.margin.toNat + 63 ≤ c.ring.size.toNat) := by
  have h := Config.checked hcheck
  obtain ⟨d, hplayer, hsilent, hconfig⟩ := exists_ring h hring
  refine ⟨d, hplayer, ?_⟩
  rw [hsilent.staysAhead_iff (h.ring_isPowerOfTwo hring) h.frame_pos (by rw [hconfig])]
  constructor
  · rintro ⟨haddressable, -, hample⟩
    exact ⟨haddressable, hample⟩
  · rintro ⟨haddressable, hample⟩
    exact ⟨haddressable, two_frames_le h hring haddressable hample, hample⟩

/-- A ring of 64 words for frames of 8, with no more than a margin of 48 beside two of them. -/
def tightRing : Config where
  mixer := { samplesPerFrame := 8, crossfadeLen := 4 }
  ring := { size := 64, margin := 48, guard := 0 }

/-- The default ring stays ahead; the tight one passes the check as well, but does not. -/
theorem default_ring_stays_ahead :
    (∃ d, playerFor {} = .ok (.ring d) ∧ d.StaysAhead) ∧
      tightRing.check = .ok () ∧ ∃ d, playerFor tightRing = .ok (.ring d) ∧ ¬d.StaysAhead := by
  refine ⟨?_, by rfl, ?_⟩
  · obtain ⟨d, hplayer, hiff⟩ := ring_stays_ahead_iff {} rfl rfl
    exact ⟨d, hplayer, hiff.mpr (by decide)⟩
  · obtain ⟨d, hplayer, hiff⟩ := ring_stays_ahead_iff tightRing rfl rfl
    exact ⟨d, hplayer, fun hstays => absurd (hiff.mp hstays).2 (by decide)⟩

end ConsolePipeline.Machine
