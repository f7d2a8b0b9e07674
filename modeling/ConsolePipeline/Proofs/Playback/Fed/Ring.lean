import ConsolePipeline.Proofs.Playback.Fed.Slots
import ConsolePipeline.Proofs.Playback.Ring.Ahead
import ConsolePipeline.Proofs.Playback.Ring.Law

namespace ConsolePipeline.Playback.Ring

open Run Stereo

/-!
# Waiting never starves the hardware: ring playback

A wait for space is over before the reader comes to the writer, as at least a frame and less a round
lies between them. So each frame follows the one before it, and the reader is never past the last.

* `Shape.Unbroken` — the stream of a history is silence and then the frames; `Unbroken.append` — one
  frame more.
* `Ring.Fed` — the states between calls; `Fed.commit` — a frame is put behind the last one.
-/

variable {σ : Shape} {d d' : Ring} {history : List Commit} {holding : Bool} {c : Commit}
  {count : Nat}

/-! ### The stream -/

/-- **No frame was late:** the stream is a frame of silence and then the frames. -/
structure Shape.Unbroken (σ : Shape) (history : List Commit) : Prop where
  late : (σ.score history).late = 0
  opening : opening (σ.score history).stream (σ.score history).finish =
    List.replicate σ.len silence ++ wordsOf history

namespace Shape

theorem unbroken_nil (σ : Shape) : σ.Unbroken [] := by
  refine ⟨rfl, ?_⟩
  show (List.range σ.len).map (fun _ => silence) = List.replicate σ.len silence ++ []
  rw [List.map_const', List.length_range, List.append_nil]

/-- **A frame that comes in time** is put behind the last one. -/
theorem Unbroken.append (h : σ.Unbroken history) (hentry : c.entry ≤ (σ.score history).finish)
    (hframe : c.frame.size = σ.len) : σ.Unbroken (history ++ [c]) := by
  have hstart : Shape.start (σ.score history) c = (σ.score history).finish :=
    Nat.max_eq_left hentry
  -- The frame is put where the last one ends, so the stream goes on with its words.
  have hwords : ((List.range σ.len).map fun i =>
      (σ.extend (σ.score history) c).stream ((σ.score history).finish + i)) = c.frame.toList := by
    apply List.ext_getElem
    · rw [List.length_map, List.length_range, Array.length_toList, hframe]
    · intro i hi _
      rw [List.length_map, List.length_range] at hi
      rw [List.getElem_map, List.getElem_range, stream_extend, hstart, if_neg (by omega),
        if_pos (by omega), Nat.add_sub_cancel_left, Array.getElem_toList,
        Array.getD_eq_getD_getElem?, Array.getElem?_eq_getElem (by omega), Option.getD_some]
  refine ⟨?_, ?_⟩
  · rw [score_append]
    show (σ.score history).late + (if (σ.score history).finish < c.entry then 1 else 0) = 0
    rw [if_neg (Nat.not_lt.mpr hentry), h.late]
  · rw [score_append]
    show Playback.opening _ (Shape.start (σ.score history) c + σ.len) = _
    rw [hstart, opening_add, hwords, opening_extend (Nat.le_of_eq hstart.symm), h.opening, wordsOf,
      wordsOf, List.flatMap_append, List.flatMap_singleton, List.append_assoc]

/-- The last frame ends after as many words as have been handed over. -/
theorem Unbroken.finish_eq (h : σ.Unbroken history)
    (hframes : ∀ c ∈ history, c.frame.size = σ.len) :
    (σ.score history).finish = σ.len + history.length * σ.len := by
  have hlength := congrArg List.length h.opening
  rw [Playback.opening, List.length_map, List.length_range, List.length_append,
    List.length_replicate, length_wordsOf hframes] at hlength
  exact hlength

end Shape

/-! ### The states between calls -/

/-- **The states between calls,** if no time passes but in waits: the reader is not past the last
    frame, behind which the margin is free. -/
def Fed (σ : Shape) (history : List Commit) (d : Ring) : Prop :=
  d.stats.idleWords = 0 ∧ (history = [] ∧ Preroll σ d ∨
    Live σ history d ∧ Afloat σ.size σ.len σ.config.margin.toNat d ∧ d.readPos ≤ d.writePos ∧
      σ.Unbroken history)

theorem Preroll.silent (h : Preroll σ d) : Silent σ.size σ.len d :=
  ⟨h.started, h.solo, h.stopped, h.played, h.readPos, h.size, h.staging⟩

/-- The first commit takes no time. -/
theorem Preroll.idle_commit (h : Preroll σ d) (hcommit : Ring.commit count d = .ok () d') :
    d'.stats.idleWords = d.stats.idleWords := by
  obtain ⟨s, hmake, rfl⟩ := commit_inv hcommit
  have hstarted : { d with staging := (padded d.staging count d.held).1 }.started = false :=
    h.started
  obtain rfl := makeRoom_inv hstarted hmake
  split <;> rfl

theorem Fed.deck (h : Fed σ history d) (hroomy : σ.Roomy) :
    d.toDeck.Fed σ.len σ.len (σ.size - σ.config.margin.toNat) history holding := by
  have hfits : 2 * σ.len + σ.config.margin.toNat ≤ σ.size := hroomy
  obtain ⟨hidle, ⟨rfl, h⟩ | ⟨h, hafloat, hahead, hunbroken⟩⟩ := h
  · refine ⟨h.underruns, h.tagMismatches, hidle, h.frames, ?_, fun _ => ?_⟩
    · rw [h.played]
      exact List.nil_prefix
    · rw [List.length_nil, Nat.zero_mul]
      omega
  · have hfinish := hunbroken.finish_eq h.frames
    have hwrite := h.writePos
    have hread := h.readPos
    have hroom := hafloat.room
    refine ⟨?_, h.tagMismatches, hidle, h.frames, ?_, fun _ => ?_⟩
    · rw [h.underruns, hunbroken.late, if_neg (Nat.not_lt.mpr hahead)]
    · obtain ⟨k, hk⟩ : ∃ k, (σ.score history).finish = d.played.size + k :=
        ⟨(σ.score history).finish - d.played.size, by omega⟩
      have hwhole := hunbroken.opening
      rw [hk, opening_add, ← h.played] at hwhole
      exact ⟨_, hwhole⟩
    · omega

theorem Fed.write (h : Fed σ history d) (words : Array Word) :
    ∃ d', Ring.write words d = .ok () d' ∧ Fed σ history d' := by
  obtain ⟨hidle, ⟨rfl, h⟩ | ⟨h, hafloat, hahead, hunbroken⟩⟩ := h
  · exact ⟨_, write_ok words d, hidle,
      .inl ⟨rfl, h.staged (by rw [size_overlay, h.staging])⟩⟩
  · exact ⟨_, write_ok words d, hidle, .inr ⟨h.staged (by rw [size_overlay, h.staging]),
      ⟨hafloat.toTurning.staged _, hafloat.room, hafloat.size,
        (size_overlay _ _).trans hafloat.staging, hafloat.margin⟩, hahead, hunbroken⟩⟩

/-- **A frame is put behind the last one,** and the reader is not past it by then. -/
theorem Fed.commit (hroomy : σ.Roomy) (hlen : waitWords ≤ σ.len) (h : Fed σ history d)
    (count : Nat) :
    ∃ d', Ring.commit count d = .ok () d' ∧
      Fed σ (history ++ port.noted (.commit count) d d') d' := by
  have hfits : 2 * σ.len + σ.config.margin.toNat ≤ σ.size := hroomy
  obtain ⟨hidle, ⟨rfl, h⟩ | ⟨h, hafloat, hahead, hunbroken⟩⟩ := h
  · obtain ⟨d', hd', hlive, hread, -⟩ := h.commit count
    have hfollowable : Followable σ.size := hlive.size ▸ hlive.turning.followable
    obtain ⟨t, ht, -, hafloat⟩ := h.silent.commit_ahead (by rw [h.config]) hfollowable hfits count
    cases ht.symm.trans hd'
    refine ⟨d', hd', (h.idle_commit hd').trans hidle, .inr ⟨hlive, hafloat, ?_, ?_⟩⟩
    · rw [hread]
      exact Nat.zero_le _
    · refine σ.unbroken_nil.append ?_ (h.size_padded count)
      show d.played.size ≤ _
      rw [h.played]
      exact Nat.zero_le _
  · obtain ⟨d', hd', hlive⟩ := h.commit hroomy hlen count
    rw [waitWords] at hlen
    -- The wait for space ends while a frame less a round is still to be played.
    obtain ⟨t, ht, hlands, hafloat'⟩ := hafloat.commit (by rw [waitWords]; omega) count
    cases ht.symm.trans hd'
    obtain ⟨-, k, hdelivers, -⟩ := h.turning.commit_inv hd'
    refine ⟨d', hd', hdelivers.idleWords.trans hidle, .inr ⟨hlive, hafloat', ?_, ?_⟩⟩
    · have := hlands.ahead
      omega
    · refine hunbroken.append ?_ (h.size_padded count)
      show d.played.size ≤ _
      rw [← h.readPos, ← h.writePos]
      exact hahead

end ConsolePipeline.Playback.Ring
