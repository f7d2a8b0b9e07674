import ConsolePipeline.Proofs.Playback.Chained.Software
import ConsolePipeline.Proofs.Playback.Lockstep.Frames

namespace ConsolePipeline.Playback

open Stereo

/-!
# Chained ping-pong in lockstep

The chain is started by the second frame. From then on the hardware goes on to a slot just before
the next frame is taken in, for which the other slot is free by then.

* `Chained.At` — what holds at each moment.
* `Chained.lockstep` — every call leads to the next moment, and the frames are heard two frames
  late.
-/

namespace Chained

variable {d : Chained} {len pole m n w : Nat} {history : List Commit} {t : Moment}
  {frames : List (Array Word)} {words : Array Word}

/-- Chained ping-pong as a desk uses it. -/
def rig : Rig Chained where
  toPort := port
  service := service
  forget d := { d with notices := #[] }

/-- What holds at a moment of playback: a block is at its start. When its time has come, it is the
    turn of the other slot. -/
def Going (len pole : Nat) (history : List Commit) : Moment → Chained → Prop
  | .rest frames, d => Live len pole history d (frames.length - 2) 0
  | .ready frames, d => Live len pole history d (frames.length - 1) 0 ∧
      d.nextFill = (frames.length - 1 + 1) % 2
  | .held frames, d => Held len pole history d (frames.length - 1) 0
  | .filled frames _, d => Held len pole history d (frames.length - 1) 0

/-- **What holds at a moment:** before playback, or in it. -/
def At (len pole : Nat) (t : Moment) (d : Chained) : Prop :=
  ∃ history, Keeps port len 1 t history d ∧
    (Preroll len pole history t.holding d ∨ Going len pole history t d)

/-- Each block plays a frame of its own. -/
theorem block_punctual (h : Punctual len 1 history) (hlen : 0 < len) {c : Commit}
    (hc : history[n]? = some c) : block len pole history n = .frame c.frame := by
  match n with
  | 0 => rw [block, hc]; rfl
  | 1 => rw [block, hc]; rfl
  | n + 2 => exact block_due ((due_punctual h hlen (n + 2)).trans hc)

/-- Playback that has come to a place where a block begins is at the start of that block. -/
theorem Live.at_start (h : Live len pole history d m w) (hsize : d.played.size = n * len) :
    Live len pole history d n 0 := by
  obtain ⟨rfl, rfl⟩ := place_eq_start h.deck.word (h.deck.size.symm.trans hsize)
  exact h

/-- With a frame waiting, it is the turn of the slot that plays. -/
theorem Live.turn_of_waiting (h : Live len pole history d m w)
    (hwait : waiting len history m ≠ []) :
    d.nextFill = m % 2 := by
  cases h.queue with
  | empty hempty _ => exact absurd hempty hwait
  | one _ _ _ hturn => exact hturn

theorem At.advance (hpos : 0 < len) (hlen : len ≤ regionWords)
    (h : At len pole (.rest frames) d) :
    ∃ d', advance len d = .ok () d' ∧ At len pole (.ready frames) d' := by
  obtain ⟨history, hkeeps, h | h⟩ := h
  · obtain ⟨d', hd', hpre, hspins⟩ := h.advance len
    exact ⟨d', hd', history, hkeeps.next rfl (fun _ h => nomatch h) hspins, .inl hpre⟩
  · have h : Live len pole history d (frames.length - 2) 0 := h
    have hlength : history.length = frames.length := hkeeps.length_eq
    have hmany := h.many
    obtain ⟨d', m, w, hd', hlive, hsize, hsame⟩ := h.advance hlen len
    have hplayed : d'.played.size = (frames.length - 1) * len := by
      rw [hsize, h.deck.size, Nat.add_zero, ← Nat.succ_mul]
      congr 1
      omega
    have hwait : waiting len history (frames.length - 2) ≠ [] := by
      rw [waiting_punctual hkeeps.punctual hpos]
      refine List.ne_nil_of_length_pos ?_
      rw [List.length_drop]
      omega
    have hturn := h.turn_of_waiting hwait
    refine ⟨d', hd', history, hkeeps.next rfl (fun _ h => nomatch h) hsame.waitSpins,
      .inr ⟨hlive.at_start hplayed, ?_⟩⟩
    rw [hsame.nextFill, hturn]
    omega

/-- **There is no wait:** the frame before is playing by now. -/
theorem At.acquire (hpos : 0 < len) (h : At len pole (.ready frames) d) :
    ∃ place d', acquire d = .ok place d' ∧ place.size = len ∧ At len pole (.held frames) d' := by
  obtain ⟨history, hkeeps, h | ⟨h, hturn⟩⟩ := h
  · obtain ⟨place, d', hd', hsize, hpre, hstats⟩ := h.acquire
    have hspins := congrArg Stats.waitSpins hstats
    exact ⟨place, d', hd', hsize, history, hkeeps.next rfl (fun _ h => nomatch h) hspins, .inl hpre⟩
  · have hlength : history.length = frames.length := hkeeps.length_eq
    have hwait : waiting len history (frames.length - 1) = [] := by
      have hmany := h.many
      rw [waiting_punctual hkeeps.punctual hpos]
      exact List.drop_eq_nil_of_le (by omega)
    obtain ⟨place, d', hd', hsize, hheld, hspins⟩ := h.acquire hwait hturn
    exact ⟨place, d', hd', hsize, history, hkeeps.next rfl (fun _ h => nomatch h) hspins,
      .inr hheld⟩

theorem At.write (h : At len pole (.held frames) d) (hwords : words.size = len) :
    ∃ d', write words d = .ok () d' ∧ At len pole (.filled frames words) d' := by
  obtain ⟨history, hkeeps, h | h⟩ := h
  · obtain ⟨hd', hpre⟩ := h.write words
    refine ⟨_, hd', history, hkeeps.next rfl ?_ rfl, .inl hpre⟩
    rintro _ ⟨⟩
    exact Slots.place_overwritten h.shaped h.loading.next_lt h.loading.held hwords
  · have h : Held len pole history d (frames.length - 1) 0 := h
    obtain ⟨hd', hheld⟩ := h.write words
    refine ⟨_, hd', history, hkeeps.next rfl ?_ rfl, .inr hheld⟩
    rintro _ ⟨⟩
    exact Slots.place_overwritten h.shaped (Nat.mod_lt _ Nat.zero_lt_two) h.filling hwords

theorem At.commit (hpos : 0 < len) (h : At len pole (.filled frames words) d)
    (hwords : words.size = len) :
    ∃ d', commit len d = .ok () d' ∧ At len pole (.rest (frames ++ [words])) d' := by
  obtain ⟨history, hkeeps, h | h⟩ := h
  · have hlength : history.length = frames.length := hkeeps.length_eq
    have hplayed : d.played.size = (frames.length - 1) * len := by
      have hfew := h.loading.few
      rw [h.played, show frames.length - 1 = 0 by omega, Nat.zero_mul]
      rfl
    match history, h.loading.few, hlength, hkeeps, h with
    | [], _, hlength, hkeeps, h =>
      obtain ⟨d', hd', hpre, hspins⟩ := h.commit_first len
      exact ⟨d', hd', _, hkeeps.commit hwords hplayed hspins, .inl hpre⟩
    | [b], _, hlength, hkeeps, h =>
      obtain ⟨d', hd', hlive, hspins⟩ := h.commit_second hpos len
      refine ⟨d', hd', _, hkeeps.commit hwords hplayed hspins, .inr ?_⟩
      show Live _ _ _ _ ((frames ++ [words]).length - 2) 0
      rw [List.length_append, ← hlength]
      exact hlive
  · have h : Held len pole history d (frames.length - 1) 0 := h
    obtain ⟨d', hd', hlive, hspins⟩ := h.commit len
    refine ⟨d', hd', _, hkeeps.commit hwords (h.deck.size.trans (Nat.add_zero _)) hspins, .inr ?_⟩
    show Live _ _ _ _ ((frames ++ [words]).length - 2) 0
    rw [List.length_append]
    exact hlive

/-- Only the mailbox and the notices change. -/
theorem Going.alike {s : Deck} (h : Going len pole history t d) (hs : d.toDeck.Alike s) :
    Going len pole history t { d with toDeck := s } := by
  cases t with
  | rest frames => exact Live.alike h hs
  | ready frames => exact ⟨Live.alike h.1 hs, h.2⟩
  | held frames => exact Held.alike h hs
  | filled frames words => exact Held.alike h hs

theorem At.alike {s : Deck} (h : At len pole t d) (hs : d.toDeck.Alike s)
    (hspins : s.stats.waitSpins = d.stats.waitSpins) : At len pole t { d with toDeck := s } := by
  obtain ⟨history, hkeeps, h | h⟩ := h
  · exact ⟨history, hkeeps.next rfl hkeeps.place hspins, .inl (h.alike hs)⟩
  · exact ⟨history, hkeeps.next rfl hkeeps.place hspins, .inr (h.alike hs)⟩

/-- No block is a decay, and no frame is lost. -/
theorem At.even (hpos : 0 < len) (h : At len pole (.rest frames) d) :
    d.toDeck.Even frames.length := by
  obtain ⟨history, hkeeps, h | h⟩ := h
  · exact ⟨h.commits.trans hkeeps.length_eq, h.underruns, h.overruns, hkeeps.waitSpins,
      h.tagMismatches⟩
  · have h : Live len pole history d (frames.length - 2) 0 := h
    have hlength : history.length = frames.length := hkeeps.length_eq
    have hmany := h.many
    refine ⟨h.commits.trans hkeeps.length_eq, h.underruns.trans ?_, h.overruns, hkeeps.waitSpins,
      h.tagMismatches⟩
    refine fadeCount_eq_zero fun k hk => ?_
    have hlt : k < history.length := by omega
    rw [block_punctual hkeeps.punctual hpos (List.getElem?_eq_getElem hlt)]
    rfl

/-- **All frames but the last two have been heard.** -/
theorem At.played (hpos : 0 < len) (h : At len pole (.rest frames) d) :
    d.played.toList = delayed 2 frames := by
  obtain ⟨history, hkeeps, h | h⟩ := h
  · have hlength : history.length = frames.length := hkeeps.length_eq
    have hfew := h.loading.few
    rw [h.played, delayed, show frames.length - 2 = 0 by omega]
    rfl
  · have h : Live len pole history d (frames.length - 2) 0 := h
    have hsize : d.played.size = (frames.length - 2) * len := h.deck.size.trans (Nat.add_zero _)
    rw [h.deck.played, hsize]
    refine hkeeps.opening_eq h.frames (fun k c hc => ?_) 2
    rw [block_punctual hkeeps.punctual hpos hc]
    rfl

/-- **Chained ping-pong in lockstep.** -/
def lockstep (pole : Nat) (hpos : 0 < len) (hlen : len ≤ regionWords) :
    Lockstep rig len (delayed 2) where
  At := At len pole
  advance := At.advance hpos hlen
  acquire := At.acquire hpos
  write := At.write
  commit := At.commit hpos
  service {frames d} h := by
    have hlinked : d.engine.Linked (d.channelOf 0) (d.channelOf 1) := by
      obtain ⟨history, -, h | h⟩ := h
      · exact h.linked
      · exact (h : Live len pole history d (frames.length - 2) 0).linked
    exact ⟨_, service_idle hlinked, h.alike d.alike_emptied rfl⟩
  forget {_ d} h := h.alike d.toDeck.alike_forgotten rfl
  even := At.even hpos
  played := At.played hpos

/-- A new strategy is at rest. -/
theorem at_new {engine : Engine} {first second : Nat}
    (hnew : new engine first second len pole = .ok d) (hquiet : engine.Quiet)
    (hne : first ≠ second) : At len pole (.rest []) d := by
  obtain ⟨hpre, hstats⟩ := preroll_new hnew hquiet hne
  exact ⟨[], Keeps.start (congrArg Stats.waitSpins hstats), .inl hpre⟩

end Chained

end ConsolePipeline.Playback
