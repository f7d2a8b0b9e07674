import ConsolePipeline.Proofs.Playback.Lockstep.Frames
import ConsolePipeline.Proofs.Playback.Triple.Law

namespace ConsolePipeline.Playback

open Stereo

/-!
# Triple buffering in lockstep

Playback begins with the first frame, which is heard three times. From then on one frame is
committed while each block plays, and heard as the block after the next.

* `Triple.blocks_punctual`, `lost_punctual` — each frame is played in its turn, and none is lost.
* `Triple.At` — what holds at each moment.
* `Triple.lockstep` — every call leads to the next moment, and the frames are heard one frame late,
  after two copies of the first.
-/

namespace Triple

variable {d : Triple} {len pole m n w : Nat} {history : List Commit} {t : Moment}
  {frames : List (Array Word)} {words : Array Word}

/-- Triple buffering as a desk uses it. -/
def rig : Rig Triple where
  toPort := port
  service := service
  forget d := { d with notices := #[] }

/-- The frames, the first of them three times. -/
def withCopies : List (Array Word) → List (Array Word)
  | [] => []
  | first :: rest => first :: first :: first :: rest

theorem length_withCopies (hne : frames ≠ []) : (withCopies frames).length = frames.length + 2 := by
  obtain ⟨first, rest, rfl⟩ := List.exists_cons_of_ne_nil hne
  rfl

theorem withCopies_concat (hne : frames ≠ []) (words : Array Word) :
    withCopies (frames ++ [words]) = withCopies frames ++ [words] := by
  obtain ⟨first, rest, rfl⟩ := List.exists_cons_of_ne_nil hne
  rfl

theorem mem_withCopies (h : words ∈ withCopies frames) : words ∈ frames := by
  cases frames with
  | nil => exact h
  | cons first rest => simpa [withCopies] using h

/-! ### Punctual histories -/

/-- **Each block plays a frame of its own,** after the copies of the first. -/
theorem blocks_punctual (hlen : 0 < len) (h : Punctual len 0 history) {k : Nat}
    (hk : (withCopies (history.map Commit.frame))[k]? = some words) :
    (block len pole history k).words = words ∧ (block len pole history k).isFade = false := by
  induction history using List.reverseRecOn generalizing k words with
  | nil => cases hk
  | append_singleton history c ih =>
    obtain ⟨hbefore, hentry⟩ := h.of_concat
    have hblock : c.entry / len = history.length := by
      rw [hentry, Nat.sub_zero, Nat.mul_div_cancel _ hlen]
    by_cases hne : history = []
    · -- The first frame, and its copies in the other two slots.
      subst hne
      match k, hk with
      | 0, hk => exact ⟨Option.some.inj hk, rfl⟩
      | 1, hk => exact ⟨Option.some.inj hk, rfl⟩
      | 2, hk => exact ⟨Option.some.inj hk, rfl⟩
      | k + 3, hk => cases hk
    · have hmap : history.map Commit.frame ≠ [] := by simpa using hne
      rw [List.map_append, List.map_singleton, withCopies_concat hmap] at hk
      have hlength : (withCopies (history.map Commit.frame)).length = history.length + 2 := by
        rw [length_withCopies hmap, List.length_map]
      by_cases hlast : k < history.length + 2
      · rw [List.getElem?_append_left (by omega)] at hk
        rw [block_append hne hblock (by omega)]
        exact ih hbefore hk
      · have hend := (List.getElem?_eq_some_iff.mp hk).1
        rw [List.length_append, List.length_singleton] at hend
        obtain rfl : k = history.length + 2 := by omega
        rw [← hlength, List.getElem?_concat_length] at hk
        rw [block_append_last hne hblock]
        exact ⟨Option.some.inj hk, rfl⟩

/-- One commit at most is made while a block plays. -/
theorem during_punctual (hlen : 0 < len) (h : Punctual len 0 history) (n : Nat) :
    (during len history n).length ≤ 1 := by
  induction history using List.reverseRecOn with
  | nil => exact Nat.zero_le 1
  | append_singleton history c ih =>
    obtain ⟨hbefore, hentry⟩ := h.of_concat
    by_cases hne : history = []
    · subst hne
      exact Nat.zero_le 1
    have hblock : c.entry / len = history.length := by
      rw [hentry, Nat.sub_zero, Nat.mul_div_cancel _ hlen]
    rw [during_append hne, hblock]
    by_cases hn : history.length = n
    · -- All commits before it were made in earlier blocks.
      have hnone : during len history n = [] := by
        refine during_eq_nil fun b hb => ?_
        obtain ⟨k, hk⟩ := List.getElem?_of_mem hb
        have hlt := (List.getElem?_eq_some_iff.mp hk).1
        rw [hbefore k b hk, Nat.sub_zero]
        exact Nat.mul_lt_mul_of_pos_right (by omega) hlen
      rw [if_pos hn, hnone]
      exact Nat.le_refl 1
    · rw [if_neg hn, List.append_nil]
      exact ih hbefore

theorem lost_punctual (hlen : 0 < len) (h : Punctual len 0 history) (m : Nat) :
    lost len history m = 0 := by
  refine List.sum_eq_zero fun x hx => ?_
  obtain ⟨n, -, rfl⟩ := List.mem_map.mp hx
  have := during_punctual hlen h n
  omega

/-! ### The moments of a frame -/

/-- What holds at a moment of playback: a block is at its start. -/
def Going (len pole : Nat) (history : List Commit) : Moment → Triple → Prop
  | .rest frames, d => Live len pole history d (frames.length - 1) 0
  | .ready frames, d => Live len pole history d frames.length 0
  | .held frames, d => Held len pole history d frames.length 0
  | .filled frames _, d => Held len pole history d frames.length 0

/-- **What holds at a moment:** before the first commit, or in playback. -/
def At (len pole : Nat) (t : Moment) (d : Triple) : Prop :=
  ∃ history, Keeps port len 0 t history d ∧
    (history = [] ∧ Preroll len pole t.holding d ∨ Going len pole history t d)

theorem Live.at_start (h : Live len pole history d m w) (hsize : d.played.size = n * len) :
    Live len pole history d n 0 := by
  obtain ⟨rfl, rfl⟩ := place_eq_start h.deck.word (h.deck.size.symm.trans hsize)
  exact h

theorem At.advance (hlen : len ≤ regionWords) (h : At len pole (.rest frames) d) :
    ∃ d', advance len d = .ok () d' ∧ At len pole (.ready frames) d' := by
  obtain ⟨history, hkeeps, ⟨hnil, h⟩ | h⟩ := h
  · obtain ⟨d', hd', hpre⟩ := h.advance len
    have hspins : d'.stats.waitSpins = d.stats.waitSpins := hpre.waitSpins.trans h.waitSpins.symm
    exact ⟨d', hd', history, hkeeps.next rfl (fun _ h => nomatch h) hspins, .inl ⟨hnil, hpre⟩⟩
  · have h : Live len pole history d (frames.length - 1) 0 := h
    have hlength : history.length = frames.length := hkeeps.length_eq
    have hpos := List.length_pos_iff.mpr h.nonempty
    obtain ⟨d', m, w, hd', hlive, hsize⟩ := h.advance hlen len
    have hplayed : d'.played.size = frames.length * len := by
      rw [hsize, h.deck.size, Nat.add_zero, ← Nat.succ_mul]
      congr 1
      omega
    have hspins : d'.stats.waitSpins = d.stats.waitSpins := hlive.waitSpins.trans h.waitSpins.symm
    exact ⟨d', hd', history, hkeeps.next rfl (fun _ h => nomatch h) hspins,
      .inr (hlive.at_start hplayed)⟩

theorem At.acquire (h : At len pole (.ready frames) d) :
    ∃ place d', acquire d = .ok place d' ∧ place.size = len ∧ At len pole (.held frames) d' := by
  obtain ⟨history, hkeeps, ⟨hnil, h⟩ | h⟩ := h
  · obtain ⟨place, d', hd', hsize, hpre⟩ := h.acquire
    have hspins : d'.stats.waitSpins = d.stats.waitSpins := hpre.waitSpins.trans h.waitSpins.symm
    exact ⟨place, d', hd', hsize, history, hkeeps.next rfl (fun _ h => nomatch h) hspins,
      .inl ⟨hnil, hpre⟩⟩
  · have h : Live len pole history d frames.length 0 := h
    obtain ⟨place, d', hd', hsize, hheld⟩ := h.acquire
    have hspins : d'.stats.waitSpins = d.stats.waitSpins := hheld.waitSpins.trans h.waitSpins.symm
    exact ⟨place, d', hd', hsize, history, hkeeps.next rfl (fun _ h => nomatch h) hspins,
      .inr hheld⟩

theorem At.write (h : At len pole (.held frames) d) (hwords : words.size = len) :
    ∃ d', write words d = .ok () d' ∧ At len pole (.filled frames words) d' := by
  obtain ⟨history, hkeeps, ⟨hnil, h⟩ | h⟩ := h
  · obtain ⟨hd', hpre⟩ := h.write words
    refine ⟨_, hd', history, hkeeps.next rfl ?_ rfl, .inl ⟨hnil, hpre⟩⟩
    rintro _ ⟨⟩
    exact Slots.place_overwritten h.shaped (by decide) h.filling hwords
  · have h : Held len pole history d frames.length 0 := h
    obtain ⟨hd', hheld⟩ := h.write words
    refine ⟨_, hd', history, hkeeps.next rfl ?_ rfl, .inr hheld⟩
    rintro _ ⟨⟩
    exact Slots.place_overwritten h.shaped (Nat.mod_lt _ (by decide)) h.filling hwords

theorem At.commit (hpos : 0 < len) (h : At len pole (.filled frames words) d)
    (hwords : words.size = len) :
    ∃ d', commit len d = .ok () d' ∧ At len pole (.rest (frames ++ [words])) d' := by
  have hcount : (frames ++ [words]).length - 1 = frames.length := by
    rw [List.length_append]
    rfl
  obtain ⟨history, hkeeps, ⟨rfl, h⟩ | h⟩ := h
  · have hlength : 0 = frames.length := hkeeps.length_eq
    have hplayed : d.played.size = (frames.length - 0) * len := by
      rw [h.played, ← hlength, Nat.zero_mul]
      rfl
    obtain ⟨d', hd', hlive⟩ := h.commit hpos len
    have hspins : d'.stats.waitSpins = d.stats.waitSpins := hlive.waitSpins.trans h.waitSpins.symm
    refine ⟨d', hd', _, hkeeps.commit hwords hplayed hspins, .inr ?_⟩
    show Live _ _ _ _ ((frames ++ [words]).length - 1) 0
    rw [hcount, ← hlength]
    exact hlive
  · have h : Held len pole history d frames.length 0 := h
    obtain ⟨d', hd', hlive⟩ := h.commit len
    have hspins : d'.stats.waitSpins = d.stats.waitSpins := hlive.waitSpins.trans h.waitSpins.symm
    refine ⟨d', hd', _, hkeeps.commit hwords (h.deck.size.trans (Nat.add_zero _)) hspins, .inr ?_⟩
    show Live _ _ _ _ ((frames ++ [words]).length - 1) 0
    rw [hcount]
    exact hlive

theorem At.forget (h : At len pole t d) : At len pole t (rig.forget d) := by
  have halike := d.toDeck.alike_forgotten
  obtain ⟨history, hkeeps, ⟨hnil, h⟩ | h⟩ := h
  · exact ⟨history, hkeeps.next rfl hkeeps.place rfl, .inl ⟨hnil, h.alike halike rfl⟩⟩
  · refine ⟨history, hkeeps.next rfl hkeeps.place rfl, .inr ?_⟩
    cases t with
    | rest frames => exact Live.alike halike rfl h
    | ready frames => exact Live.alike halike rfl h
    | held frames => exact Held.alike halike rfl h
    | filled frames words => exact Held.alike halike rfl h

/-- No block is a decay, and no frame is lost. -/
theorem At.even (hpos : 0 < len) (h : At len pole (.rest frames) d) :
    d.toDeck.Even frames.length := by
  obtain ⟨history, hkeeps, ⟨rfl, h⟩ | h⟩ := h
  · exact ⟨h.commits.trans hkeeps.length_eq, h.underruns, h.overruns, h.waitSpins, h.tagMismatches⟩
  · have h : Live len pole history d (frames.length - 1) 0 := h
    have hlength : history.length = frames.length := hkeeps.length_eq
    refine ⟨h.commits.trans hlength, h.underruns.trans ?_,
      h.overruns.trans (lost_punctual hpos hkeeps.punctual _), h.waitSpins, h.tagMismatches⟩
    refine fadeCount_eq_zero fun k hk => ?_
    have hmap : history.map Commit.frame ≠ [] := by simpa using h.nonempty
    have hk : k < (withCopies (history.map Commit.frame)).length := by
      rw [length_withCopies hmap, List.length_map]
      omega
    exact (blocks_punctual hpos hkeeps.punctual (List.getElem?_eq_getElem hk)).2

/-- **All frames but the last have been heard,** after two copies of the first. -/
theorem At.played (hpos : 0 < len) (h : At len pole (.rest frames) d) :
    d.played.toList = delayed 3 (withCopies frames) := by
  obtain ⟨history, hkeeps, ⟨rfl, h⟩ | h⟩ := h
  · have hnil : [] = frames := hkeeps.frames
    rw [h.played, ← hnil]
    rfl
  · have h : Live len pole history d (frames.length - 1) 0 := h
    have hframes : history.map Commit.frame = frames := hkeeps.frames
    have hne : frames ≠ [] := by
      rw [← hframes]
      simpa using h.nonempty
    have hsize : d.played.size = ((withCopies frames).length - 3) * len := by
      rw [h.deck.size, Nat.add_zero, length_withCopies hne]
      rfl
    rw [h.deck.played, hsize]
    refine opening_delayed (fun f hf => ?_) (fun k f hf => ?_) 3
    · have hmem := mem_withCopies hf
      rw [← hframes] at hmem
      obtain ⟨c, hc, rfl⟩ := List.mem_map.mp hmem
      exact h.frames c hc
    · rw [← hframes] at hf
      exact (blocks_punctual hpos hkeeps.punctual hf).1

/-- **Triple buffering in lockstep.** -/
def lockstep (pole : Nat) (hpos : 0 < len) (hlen : len ≤ regionWords) :
    Lockstep rig len (fun frames => delayed 3 (withCopies frames)) where
  At := At len pole
  advance := At.advance hlen
  acquire := At.acquire
  write := At.write
  commit := At.commit hpos
  service {frames d} h := by
    have hsolo : d.engine.Solo d.channel := by
      obtain ⟨history, -, ⟨-, h⟩ | h⟩ := h
      · exact h.solo
      · exact (h : Live len pole history d (frames.length - 1) 0).solo
    exact ⟨_, service_idle hsolo, h⟩
  forget := At.forget
  even := At.even hpos
  played := At.played hpos

/-- A new strategy is at rest. -/
theorem at_new {engine : Engine} {channel : Nat} (hnew : new engine channel len pole = .ok d)
    (hquiet : engine.Quiet) : At len pole (.rest []) d := by
  have hpre := preroll_new hnew hquiet
  exact ⟨[], Keeps.start hpre.waitSpins, .inl ⟨rfl, hpre⟩⟩

end Triple

end ConsolePipeline.Playback
