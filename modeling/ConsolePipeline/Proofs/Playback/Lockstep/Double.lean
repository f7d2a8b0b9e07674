import ConsolePipeline.Proofs.Playback.Double.Law
import ConsolePipeline.Proofs.Playback.Lockstep.Frames

namespace ConsolePipeline.Playback

open Stereo

/-!
# Double buffering in lockstep

Playback begins with the second frame. From then on each block ends just before the next frame is
taken in, whose slot is free by then.

* `Double.At` — what holds at each moment.
* `Double.lockstep` — every call leads to the next moment, and the frames are heard two frames late.
-/

namespace Double

variable {d : Double} {len pole n : Nat} {history : List Commit} {t : Moment}
  {frames : List (Array Word)} {words : Array Word}

/-- Double buffering as a desk uses it. -/
def rig : Rig Double where
  toPort := port
  service := service
  forget d := { d with notices := #[] }

/-- **What holds at a moment:** before playback, or at the start of a block. -/
def At (len pole : Nat) (t : Moment) (d : Double) : Prop :=
  ∃ history, Keeps port len 1 t history d ∧
    (Preroll len pole history t.holding d ∨
      ∃ p, Live len pole history t.holding d (t.elapsed 1) 0 p)

/-- Each block plays a frame of its own. -/
theorem block_punctual (h : Punctual len 1 history) (hlen : 0 < len) {c : Commit}
    (hc : history[n]? = some c) : block len pole history n = .frame c.frame := by
  have hdue : due len history n = some c := (due_punctual h hlen n).trans hc
  cases n with
  | zero => rw [block, List.head?_eq_getElem?, hc]; rfl
  | succ n => exact block_succ_due hdue

/-- Playback that has come to a place where a block begins is at the start of that block. -/
theorem Live.at_start {m w p : Nat} {holding : Bool}
    (h : Live len pole history holding d m w p) (hsize : d.played.size = n * len) :
    Live len pole history holding d n 0 p := by
  obtain ⟨rfl, rfl⟩ := place_eq_start h.deck.word (h.deck.size.symm.trans hsize)
  exact h

theorem At.advance (hlen : len ≤ regionWords) (h : At len pole (.rest frames) d) :
    ∃ d', advance len d = .ok () d' ∧ At len pole (.ready frames) d' := by
  obtain ⟨history, hkeeps, h | ⟨p, h⟩⟩ := h
  · obtain ⟨d', hd', hpre, hspins⟩ := h.advance len
    exact ⟨d', hd', history, hkeeps.next rfl (fun _ h => nomatch h) hspins, .inl hpre⟩
  · obtain ⟨d', m, w, p', hd', hlive, hsize, hsame⟩ := h.advance hlen len
    have hmany : 2 ≤ frames.length := by
      have := h.many
      rw [hkeeps.length_eq] at this
      exact this
    have hplayed : d'.played.size = (frames.length - 1) * len := by
      rw [hsize, h.deck.size]
      show (frames.length - 2) * len + 0 + len = _
      rw [Nat.add_zero, ← Nat.succ_mul]
      congr 1
      omega
    exact ⟨d', hd', history, hkeeps.next rfl (fun _ h => nomatch h) hsame.waitSpins,
      .inr ⟨p', hlive.at_start hplayed⟩⟩

/-- **There is no wait:** the frame before is playing by now. -/
theorem At.acquire (hpos : 0 < len) (hlen : len ≤ regionWords) (h : At len pole (.ready frames) d) :
    ∃ place d', acquire d = .ok place d' ∧ place.size = len ∧ At len pole (.held frames) d' := by
  obtain ⟨history, hkeeps, h | ⟨p, h⟩⟩ := h
  · obtain ⟨place, d', hd', hsize, hpre, hstats⟩ := h.acquire
    have hspins := congrArg Stats.waitSpins hstats
    exact ⟨place, d', hd', hsize, history, hkeeps.next rfl (fun _ h => nomatch h) hspins, .inl hpre⟩
  · obtain ⟨place, d', m, w, p', hd', hsize, hlive, hspins, hplayed, -⟩ := h.acquire hlen
    -- The block that plays has taken the last frame handed over, so nothing waits and no round is
    -- waited for.
    have hnone : waiting len history (Moment.elapsed 1 (.ready frames)) = [] := by
      have hmany := h.many
      rw [waiting_punctual hkeeps.punctual hpos]
      refine List.drop_eq_nil_of_le ?_
      rw [hkeeps.length_eq] at hmany ⊢
      show frames.length ≤ frames.length - 1 + 1
      omega
    have hrounds : roundsLeft len history (Moment.elapsed 1 (.ready frames)) 0 = 0 := by
      rw [roundsLeft, if_pos hnone]
    rw [hrounds, Nat.add_zero] at hspins
    rw [hrounds, Nat.mul_zero, Nat.add_zero, h.deck.size, Nat.add_zero] at hplayed
    exact ⟨place, d', hd', hsize, history, hkeeps.next rfl (fun _ h => nomatch h) hspins,
      .inr ⟨p', hlive.at_start hplayed⟩⟩

theorem At.write (h : At len pole (.held frames) d) (hwords : words.size = len) :
    ∃ d', write words d = .ok () d' ∧ At len pole (.filled frames words) d' := by
  obtain ⟨history, hkeeps, h | ⟨p, h⟩⟩ := h
  · obtain ⟨hd', hpre⟩ := h.write words
    refine ⟨_, hd', history, hkeeps.next rfl ?_ rfl, .inl hpre⟩
    rintro _ ⟨⟩
    exact Slots.place_overwritten h.shaped h.loading.next_lt h.loading.held hwords
  · obtain ⟨hd', hlive⟩ := h.write words
    refine ⟨_, hd', history, hkeeps.next rfl ?_ rfl, .inr ⟨p, hlive⟩⟩
    rintro _ ⟨⟩
    exact Slots.place_overwritten h.shaped (by omega) h.held.filling hwords

theorem At.commit (hpos : 0 < len) (h : At len pole (.filled frames words) d)
    (hwords : words.size = len) :
    ∃ d', commit len d = .ok () d' ∧ At len pole (.rest (frames ++ [words])) d' := by
  obtain ⟨history, hkeeps, h | ⟨p, h⟩⟩ := h
  · have hlength : history.length = frames.length := hkeeps.length_eq
    have hplayed : d.played.size = (frames.length - 1) * len := by
      have hfew := h.loading.few
      rw [h.played, show frames.length - 1 = 0 by omega, Nat.zero_mul]
      rfl
    match history, h.loading.few, hlength, hkeeps, h with
    | [], _, hlength, hkeeps, h =>
      obtain ⟨d', hd', hpre, hspins⟩ := h.commit_first len
      exact ⟨d', hd', _, hkeeps.commit hwords hplayed hspins, .inl hpre⟩
    | [b], _, hlength, hkeeps, h =>
      obtain ⟨d', hd', hlive, hspins⟩ := h.commit_second hpos len
      refine ⟨d', hd', _, hkeeps.commit hwords hplayed hspins, .inr ⟨0, ?_⟩⟩
      have hstart : Moment.elapsed 1 (.rest (frames ++ [words])) = 0 := by
        show (frames ++ [words]).length - 2 = 0
        rw [List.length_append, ← hlength]
        rfl
      rw [hstart]
      exact hlive
  · obtain ⟨d', hd', hlive, hspins⟩ := h.commit len
    refine ⟨d', hd', _, hkeeps.commit hwords (h.deck.size.trans (Nat.add_zero _)) hspins,
      .inr ⟨p, ?_⟩⟩
    have hsame : Moment.elapsed 1 (.rest (frames ++ [words])) = frames.length - 1 := by
      show (frames ++ [words]).length - 2 = frames.length - 1
      rw [List.length_append]
      rfl
    rw [hsame]
    exact hlive

theorem At.forget (h : At len pole t d) : At len pole t (rig.forget d) := by
  have halike := d.toDeck.alike_forgotten
  obtain ⟨history, hkeeps, h | ⟨p, h⟩⟩ := h
  · exact ⟨history, ⟨hkeeps.frames, hkeeps.punctual, hkeeps.place, hkeeps.waitSpins⟩,
      .inl (h.alike halike)⟩
  · exact ⟨history, ⟨hkeeps.frames, hkeeps.punctual, hkeeps.place, hkeeps.waitSpins⟩,
      .inr ⟨p, h.alike halike⟩⟩

/-- No block is a decay, and no frame is lost. -/
theorem At.even (hpos : 0 < len) (h : At len pole (.rest frames) d) :
    d.toDeck.Even frames.length := by
  obtain ⟨history, hkeeps, h | ⟨p, h⟩⟩ := h
  · exact ⟨h.commits.trans hkeeps.length_eq, h.underruns, h.overruns, hkeeps.waitSpins,
      h.tagMismatches⟩
  · have hmany := h.many
    refine ⟨h.commits.trans hkeeps.length_eq, h.underruns.trans ?_, h.overruns, hkeeps.waitSpins,
      h.tagMismatches⟩
    refine fadeCount_eq_zero fun k hk => ?_
    have hlength : history.length = frames.length := hkeeps.length_eq
    have hk : k < frames.length - 2 + 1 := hk
    have hlt : k < history.length := by omega
    rw [block_punctual hkeeps.punctual hpos (List.getElem?_eq_getElem hlt)]
    rfl

/-- **All frames but the last two have been heard.** -/
theorem At.played (hpos : 0 < len) (h : At len pole (.rest frames) d) :
    d.played.toList = delayed 2 frames := by
  obtain ⟨history, hkeeps, h | ⟨p, h⟩⟩ := h
  · have hlength : history.length = frames.length := hkeeps.length_eq
    have hfew := h.loading.few
    rw [h.played, delayed, show frames.length - 2 = 0 by omega]
    rfl
  · have hsize : d.played.size = (frames.length - 2) * len := h.deck.size.trans (Nat.add_zero _)
    rw [h.deck.played, hsize]
    refine hkeeps.opening_eq h.frames (fun k c hc => ?_) 2
    rw [block_punctual hkeeps.punctual hpos hc]
    rfl

/-- **Double buffering in lockstep.** -/
def lockstep (pole : Nat) (hpos : 0 < len) (hlen : len ≤ regionWords) :
    Lockstep rig len (delayed 2) where
  At := At len pole
  advance := At.advance hlen
  acquire := At.acquire hpos hlen
  write := At.write
  commit := At.commit hpos
  service h := by
    obtain ⟨history, hkeeps, h | ⟨p, h⟩⟩ := h
    · exact ⟨_, service_idle h.solo, history, hkeeps, .inl h⟩
    · exact ⟨_, service_idle h.solo, history, hkeeps, .inr ⟨p, h⟩⟩
  forget := At.forget
  even := At.even hpos
  played := At.played hpos

/-- A new strategy is at rest. -/
theorem at_new {engine : Engine} {channel : Nat} (hnew : new engine channel len pole = .ok d)
    (hquiet : engine.Quiet) : At len pole (.rest []) d := by
  obtain ⟨hpre, hstats⟩ := preroll_new hnew hquiet
  exact ⟨[], Keeps.start (congrArg Stats.waitSpins hstats), .inl hpre⟩

end Double

end ConsolePipeline.Playback
