import ConsolePipeline.Proofs.Playback.Lockstep.Frames
import ConsolePipeline.Proofs.Playback.Ring.Law

namespace ConsolePipeline.Playback

open Stereo

/-!
# Ring playback in lockstep

The first frame starts the ring, one frame of silence ahead of its own words. From then on the
reader is a frame behind the writer whenever a frame is taken in, and there is space for it.

* `Ring.score_punctual` — the frames follow each other without a gap.
* `Ring.stream_punctual` — the stream is a frame of silence and then the frames.
* `Ring.At` — what holds at each moment.
* `Ring.lockstep` — every call leads to the next moment, and the frames are heard two frames late,
  a frame of silence among them.
-/

namespace Ring

variable {σ : Shape} {d : Ring} {history : List Commit} {t : Moment}
  {frames : List (Array Word)} {words : Array Word}

/-- Ring playback as a desk uses it. -/
def rig : Rig Ring where
  toPort := port
  service := modify sync
  forget d := { d with notices := #[] }

/-- The frames, after one of silence. -/
def withLead (len : Nat) (frames : List (Array Word)) : List (Array Word) :=
  Array.replicate len silence :: frames

/-- Frames one after the other, as blocks. -/
def inTurn (frames : List (Array Word)) (k : Nat) : Block :=
  .frame (frames.getD k #[])

/-! ### Punctual histories -/

/-- **Each frame follows the one before it,** and no frame is late. -/
theorem score_punctual (h : Punctual σ.len 0 history) :
    (σ.score history).finish = (history.length + 1) * σ.len ∧ (σ.score history).late = 0 := by
  induction history using List.reverseRecOn with
  | nil => exact ⟨(Nat.one_mul σ.len).symm, rfl⟩
  | append_singleton history c ih =>
    obtain ⟨hbefore, hentry⟩ := h.of_concat
    obtain ⟨hfinish, hlate⟩ := ih hbefore
    -- The reader is a frame behind the end of the last one.
    have hbehind : c.entry ≤ (σ.score history).finish := by
      rw [hentry, hfinish, Nat.sub_zero]
      exact Nat.mul_le_mul_right _ (Nat.le_succ _)
    rw [Shape.score_append]
    refine ⟨?_, ?_⟩
    · show max (σ.score history).finish c.entry + σ.len = _
      rw [Nat.max_eq_left hbehind, hfinish, List.length_append, List.length_singleton,
        Nat.succ_mul (history.length + 1)]
    · show (σ.score history).late + (if (σ.score history).finish < c.entry then 1 else 0) = 0
      rw [if_neg (Nat.not_lt.mpr hbehind), hlate]

theorem start_punctual {c : Commit} (h : Punctual σ.len 0 (history ++ [c])) :
    Shape.start (σ.score history) c = (history.length + 1) * σ.len := by
  obtain ⟨hbefore, hentry⟩ := h.of_concat
  have hbehind : c.entry ≤ (history.length + 1) * σ.len := by
    rw [hentry, Nat.sub_zero]
    exact Nat.mul_le_mul_right _ (Nat.le_succ _)
  rw [Shape.start, (score_punctual hbefore).1, Nat.max_eq_left hbehind]

/-- **The stream** up to the end of the last frame: a frame of silence, and then the frames. -/
theorem stream_punctual (h : Punctual σ.len 0 history) {i : Nat}
    (hi : i < (history.length + 1) * σ.len) :
    (σ.score history).stream i =
      blockWord σ.len (inTurn (withLead σ.len (history.map Commit.frame))) i := by
  have hpos := σ.pos
  induction history using List.reverseRecOn with
  | nil =>
    have hi : i < σ.len := by simpa using hi
    rw [blockWord, Nat.div_eq_of_lt hi, Nat.mod_eq_of_lt hi]
    show silence = (Array.replicate σ.len silence).getD i silence
    rw [Array.getD_eq_getD_getElem?, Array.getElem?_replicate, if_pos hi, Option.getD_some]
  | append_singleton history c ih =>
    have hstart := start_punctual h
    have hlength : (withLead σ.len (history.map Commit.frame)).length = history.length + 1 := by
      rw [withLead, List.length_cons, List.length_map]
    have hlead : withLead σ.len ((history ++ [c]).map Commit.frame) =
        withLead σ.len (history.map Commit.frame) ++ [c.frame] := by
      rw [List.map_append]
      rfl
    rw [Shape.score_append, Shape.stream_extend, hstart, hlead]
    by_cases hbefore : i < (history.length + 1) * σ.len
    · have hblock : i / σ.len < (withLead σ.len (history.map Commit.frame)).length := by
        rw [hlength]
        exact (Nat.div_lt_iff_lt_mul hpos).mpr hbefore
      rw [if_pos hbefore, ih h.of_concat.1 hbefore, blockWord, blockWord, inTurn, inTurn,
        List.getD_eq_getElem?_getD, List.getD_eq_getElem?_getD, List.getElem?_append_left hblock]
    · -- A word of the last frame.
      obtain ⟨w, rfl⟩ := Nat.exists_eq_add_of_le (Nat.not_lt.mp hbefore)
      have hw : w < σ.len := by
        rw [List.length_append, List.length_singleton, Nat.succ_mul (history.length + 1)] at hi
        omega
      rw [if_neg hbefore, if_pos (by omega), Nat.add_sub_cancel_left, blockWord, div_mul_add hw,
        mod_mul_add hw, ← hlength, inTurn, List.getD_eq_getElem?_getD, List.getElem?_concat_length,
        Option.getD_some]
      rfl

/-! ### The moments of a frame -/

/-- **What holds at a moment:** before the first commit, or in playback. -/
def At (σ : Shape) (t : Moment) (d : Ring) : Prop :=
  ∃ history, Keeps port σ.len 0 t history d ∧
    (history = [] ∧ Preroll σ d ∨ Live σ history d ∧ d.readPos = t.elapsed 0 * σ.len)

theorem At.advance (h : At σ (.rest frames) d) :
    ∃ d', advance σ.len d = .ok () d' ∧ At σ (.ready frames) d' := by
  obtain ⟨history, hkeeps, ⟨hnil, h⟩ | ⟨h, hread⟩⟩ := h
  · obtain ⟨d', hd', hpre, hspins⟩ := h.advance σ.len
    exact ⟨d', hd', history, hkeeps.next rfl (fun _ h => nomatch h) hspins, .inl ⟨hnil, hpre⟩⟩
  · have hlength : history.length = frames.length := hkeeps.length_eq
    have hpos := List.length_pos_iff.mpr h.nonempty
    obtain ⟨d', hd', hlive, hread', hsame⟩ := h.advance σ.len
    refine ⟨d', hd', history, hkeeps.next rfl (fun _ h => nomatch h) hsame.waitSpins,
      .inr ⟨hlive, ?_⟩⟩
    have hread : d.readPos = (frames.length - 1) * σ.len := hread
    show d'.readPos = frames.length * σ.len
    rw [hread', hread, ← Nat.succ_mul]
    congr 1
    omega

theorem At.acquire (h : At σ (.ready frames) d) :
    ∃ place d', acquire d = .ok place d' ∧ place.size = σ.len ∧ At σ (.held frames) d' := by
  have hsize : d.staging.size = σ.len := by
    obtain ⟨history, -, ⟨-, h⟩ | ⟨h, -⟩⟩ := h
    · exact h.staging
    · exact h.staging
  obtain ⟨history, hkeeps, h⟩ := h
  exact ⟨d.staging, d, rfl, hsize, history, hkeeps.next rfl (fun _ h => nomatch h) rfl, h⟩

theorem At.write (h : At σ (.held frames) d) (hwords : words.size = σ.len) :
    ∃ d', write words d = .ok () d' ∧ At σ (.filled frames words) d' := by
  have hsize : ∀ history, Steady σ history d → (overlay words d.staging).size = σ.len :=
    fun history h => by rw [size_overlay, h.staging]
  have hplace : ∀ history, Steady σ history d →
      port.place { d with staging := overlay words d.staging } = some words :=
    fun history h => congrArg some (overlay_of_size_eq (hwords.trans h.staging.symm))
  obtain ⟨history, hkeeps, ⟨hnil, h⟩ | ⟨h, hread⟩⟩ := h
  · refine ⟨_, write_ok words d, history, hkeeps.next rfl ?_ rfl,
      .inl ⟨hnil, h.staged (hsize _ h.toSteady)⟩⟩
    rintro _ ⟨⟩
    exact hplace _ h.toSteady
  · refine ⟨_, write_ok words d, history, hkeeps.next rfl ?_ rfl,
      .inr ⟨h.staged (hsize _ h.toSteady), hread⟩⟩
    rintro _ ⟨⟩
    exact hplace _ h.toSteady

/-- **There is space at once:** the reader is a frame behind the writer. -/
theorem At.commit (hreach : σ.reach σ.len ≤ σ.size) (h : At σ (.filled frames words) d)
    (hwords : words.size = σ.len) :
    ∃ d', commit σ.len d = .ok () d' ∧ At σ (.rest (frames ++ [words])) d' := by
  have hcount : Moment.elapsed 0 (.rest (frames ++ [words])) = frames.length := by
    show (frames ++ [words]).length - 1 = frames.length
    rw [List.length_append]
    rfl
  obtain ⟨history, hkeeps, ⟨rfl, h⟩ | ⟨h, hread⟩⟩ := h
  · have hlength : 0 = frames.length := hkeeps.length_eq
    have hplayed : d.played.size = (frames.length - 0) * σ.len := by
      rw [h.played, ← hlength, Nat.zero_mul]
      rfl
    obtain ⟨d', hd', hlive, hread, hspins⟩ := h.commit σ.len
    refine ⟨d', hd', _, hkeeps.commit hwords hplayed hspins, .inr ⟨hlive, ?_⟩⟩
    rw [hcount, hread, ← hlength, Nat.zero_mul]
  · have hread : d.readPos = frames.length * σ.len := hread
    have hlength : history.length = frames.length := hkeeps.length_eq
    have hwrite : d.writePos = d.readPos + σ.len := by
      rw [h.writePos, (score_punctual hkeeps.punctual).1, hlength, hread, Nat.succ_mul]
    have hframes := σ.two_mul_len_le
    have hahead : σ.reach (d.writePos - d.readPos) ≤ σ.size := by
      rw [hwrite, Nat.add_sub_cancel_left]
      exact hreach
    obtain ⟨d', hd', hlive, hread', hspins⟩ := h.commit_ready (by omega) hahead σ.len
    refine ⟨d', hd', _, hkeeps.commit hwords (h.readPos.symm.trans hread) hspins, .inr ⟨hlive, ?_⟩⟩
    rw [hcount, hread', hread]

/-- Looking at the reader when no time has passed changes nothing. -/
theorem At.sync (h : At σ t d) : d.sync = d := by
  obtain ⟨history, -, ⟨-, h⟩ | ⟨h, -⟩⟩ := h
  · rw [Ring.sync, h.started]
    rfl
  · exact h.sync

theorem At.forget (h : At σ t d) : At σ t (rig.forget d) := by
  have halike := d.toDeck.alike_forgotten
  obtain ⟨history, hkeeps, ⟨hnil, h⟩ | ⟨h, hread⟩⟩ := h
  · exact ⟨history, hkeeps.next rfl hkeeps.place rfl, .inl ⟨hnil, h.alike halike⟩⟩
  · exact ⟨history, hkeeps.next rfl hkeeps.place rfl, .inr ⟨h.alike halike, hread⟩⟩

/-- The reader never passes the writer. -/
theorem At.even (h : At σ (.rest frames) d) : d.toDeck.Even frames.length := by
  obtain ⟨history, hkeeps, ⟨rfl, h⟩ | ⟨h, hread⟩⟩ := h
  · exact ⟨h.commits.trans hkeeps.length_eq, h.underruns, h.overruns, hkeeps.waitSpins,
      h.tagMismatches⟩
  · have hread : d.readPos = (frames.length - 1) * σ.len := hread
    have hlength : history.length = frames.length := hkeeps.length_eq
    obtain ⟨hfinish, hlate⟩ := score_punctual hkeeps.punctual
    have hbehind : ¬d.writePos < d.readPos := by
      rw [h.writePos, hfinish, hread, hlength, Nat.not_lt]
      exact Nat.mul_le_mul_right _ (by omega)
    refine ⟨h.commits.trans hlength, ?_, h.overruns, hkeeps.waitSpins, h.tagMismatches⟩
    rw [h.underruns, hlate, if_neg hbehind]

/-- **All frames but the last two have been heard,** after one of silence. -/
theorem At.played (h : At σ (.rest frames) d) :
    d.played.toList = delayed 2 (withLead σ.len frames) := by
  have hlead : (withLead σ.len frames).length - 2 = frames.length - 1 := by
    rw [withLead, List.length_cons]
    omega
  obtain ⟨history, hkeeps, ⟨rfl, h⟩ | ⟨h, hread⟩⟩ := h
  · have hnil : [] = frames := hkeeps.frames
    rw [h.played, ← hnil]
    rfl
  · have hread : d.readPos = (frames.length - 1) * σ.len := hread
    have hframes : history.map Commit.frame = frames := hkeeps.frames
    have hlength : history.length = frames.length := hkeeps.length_eq
    -- Frames that came in time stand one behind the other in the stream.
    have hstream : opening (σ.score history).stream ((frames.length - 1) * σ.len) =
        opening (blockWord σ.len (inTurn (withLead σ.len frames)))
          ((frames.length - 1) * σ.len) := by
      refine opening_congr fun i hi => ?_
      have hend : (frames.length - 1) * σ.len ≤ (history.length + 1) * σ.len :=
        Nat.mul_le_mul_right _ (by omega)
      rw [stream_punctual hkeeps.punctual (by omega), hframes]
    rw [h.toRunning.played, ← h.readPos, hread, hstream, ← hlead]
    refine opening_delayed (fun f hf => ?_) (fun k f hf => ?_) 2
    · rcases List.mem_cons.mp hf with rfl | hf
      · exact Array.size_replicate
      · rw [← hframes] at hf
        obtain ⟨c, hc, rfl⟩ := List.mem_map.mp hf
        exact h.frames c hc
    · show (withLead σ.len frames).getD k #[] = f
      rw [List.getD_eq_getElem?_getD, hf, Option.getD_some]

/-- **Ring playback in lockstep.** -/
def lockstep (σ : Shape) (hreach : σ.reach σ.len ≤ σ.size) :
    Lockstep rig σ.len (fun frames => delayed 2 (withLead σ.len frames)) where
  At := At σ
  advance := At.advance
  acquire := At.acquire
  write := At.write
  commit := At.commit hreach
  service {_ d} h := ⟨d, by
    show EStateM.Result.ok () d.sync = .ok () d
    rw [h.sync], h⟩
  forget := At.forget
  even := At.even
  played := At.played

/-- A new ring is at rest. -/
theorem at_new {engine : Engine} {channel : Nat}
    (hnew : new engine channel σ.len σ.pole σ.config = .ok d) (hquiet : engine.Quiet) :
    At σ (.rest []) d := by
  obtain ⟨hpre, hstats⟩ := preroll_new hnew hquiet
  exact ⟨[], Keeps.start (congrArg Stats.waitSpins hstats), .inl ⟨rfl, hpre⟩⟩

end Ring

end ConsolePipeline.Playback
