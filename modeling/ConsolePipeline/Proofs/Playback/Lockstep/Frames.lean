import Mathlib.Data.List.Induction
import ConsolePipeline.Proofs.Playback.Deck

namespace ConsolePipeline.Playback

open Stereo

/-!
# Lockstep

In lockstep a frame's worth of time passes before each frame is taken in, so that hardware and
software move on together.

* `Rig` — what a strategy is used for in lockstep; `Moment` — where in a frame it is.
* `Lockstep` — what holds at each moment of a run, and that each call leads to the next moment.
* `Punctual` — the history of such a run; `waiting_punctual`, `due_punctual` — each block finds the
  next frame.
* `Keeps` — what ties such a history to a moment.
* `opening_blocks` — the words of whole blocks.
-/

/-! ### Moments of a frame -/

/-- A strategy as a desk uses it. -/
structure Rig (σ : Type) extends Port σ where
  /-- Serve pending completions. -/
  service : Run σ Unit
  /-- What is left once the notices have been collected. -/
  forget : σ → σ

/-- How far a run in lockstep has come, given the frames handed over so far. -/
inductive Moment
  /-- A whole number of frames has been taken in. -/
  | rest (frames : List (Array Word))
  /-- The time of another frame has passed. -/
  | ready (frames : List (Array Word))
  /-- A place for it is held. -/
  | held (frames : List (Array Word))
  /-- Its words have been written there. -/
  | filled (frames : List (Array Word)) (words : Array Word)

namespace Moment

/-- The frames handed over so far. -/
def frames : Moment → List (Array Word)
  | rest frames => frames
  | ready frames => frames
  | held frames => frames
  | filled frames _ => frames

/-- Whether a place is held. -/
def holding : Moment → Bool
  | rest _ => false
  | ready _ => false
  | held _ => true
  | filled _ _ => true

/-- What has been written to the place that is held. -/
def words : Moment → Option (Array Word)
  | filled _ words => some words
  | _ => none

/-- Frames' worth of words played, if playback begins with the commit that `lag` commits precede. -/
def elapsed (lag : Nat) : Moment → Nat
  | rest frames => frames.length - (lag + 1)
  | ready frames => frames.length - lag
  | held frames => frames.length - lag
  | filled frames _ => frames.length - lag

end Moment

/-- So many frames have been committed, and nothing has gone wrong. -/
structure Deck.Even (d : Deck) (commits : Nat) : Prop where
  commits : d.stats.commits = commits
  underruns : d.stats.underruns = 0
  overruns : d.stats.overruns = 0
  waitSpins : d.stats.waitSpins = 0
  tagMismatches : d.stats.tagMismatches = 0

/-- **A strategy in lockstep.** `At` is what holds at a moment, and each call leads on to the next;
    `heard` are the words played once some frames have been taken in. -/
structure Lockstep {σ : Type} (R : Rig σ) (len : Nat) (heard : List (Array Word) → List Word) where
  At : Moment → σ → Prop
  advance : ∀ {frames d}, At (.rest frames) d →
    ∃ d', R.advance len d = .ok () d' ∧ At (.ready frames) d'
  acquire : ∀ {frames d}, At (.ready frames) d →
    ∃ place d', R.acquire d = .ok place d' ∧ place.size = len ∧ At (.held frames) d'
  write : ∀ {frames d words}, At (.held frames) d → words.size = len →
    ∃ d', R.write words d = .ok () d' ∧ At (.filled frames words) d'
  commit : ∀ {frames d words}, At (.filled frames words) d → words.size = len →
    ∃ d', R.commit len d = .ok () d' ∧ At (.rest (frames ++ [words])) d'
  service : ∀ {frames d}, At (.rest frames) d →
    ∃ d', R.service d = .ok () d' ∧ At (.rest frames) d'
  forget : ∀ {t d}, At t d → At t (R.forget d)
  even : ∀ {frames d}, At (.rest frames) d → (R.deck d).Even frames.length
  played : ∀ {frames d}, At (.rest frames) d → (R.deck d).played.toList = heard frames

/-! ### Punctual histories -/

/-- Commit `k` is made when `k - lag` frames' worth of words have been played. -/
def Punctual (len lag : Nat) (history : List Commit) : Prop :=
  ∀ k c, history[k]? = some c → c.entry = (k - lag) * len

section Punctual

variable {len lag n : Nat} {history : List Commit} {c : Commit}

theorem punctual_nil : Punctual len lag [] := fun _ _ h => by
  rw [List.getElem?_nil] at h
  cases h

theorem Punctual.concat (h : Punctual len lag history)
    (hentry : c.entry = (history.length - lag) * len) : Punctual len lag (history ++ [c]) := by
  intro k b hb
  by_cases hk : k < history.length
  · rw [List.getElem?_append_left hk] at hb
    exact h k b hb
  · have hlt : k < (history ++ [c]).length := (List.getElem?_eq_some_iff.mp hb).1
    rw [List.length_append, List.length_singleton] at hlt
    obtain rfl : k = history.length := by omega
    rw [List.getElem?_concat_length] at hb
    obtain rfl : c = b := Option.some.inj hb
    exact hentry

theorem Punctual.of_concat (h : Punctual len lag (history ++ [c])) :
    Punctual len lag history ∧ c.entry = (history.length - lag) * len := by
  refine ⟨fun k b hb => h k b ?_, h _ c List.getElem?_concat_length⟩
  rw [List.getElem?_append_left (List.getElem?_eq_some_iff.mp hb).1]
  exact hb

/-- Once block `n` has begun, the commits after it wait. -/
theorem waiting_punctual (h : Punctual len 1 history) (hlen : 0 < len) (n : Nat) :
    waiting len history n = history.drop (n + 1) := by
  induction n with
  | zero => rw [waiting, List.drop_one]
  | succ n ih =>
    cases hnext : history[n + 1]? with
    | none =>
      have hlength : history.length ≤ n + 1 := List.getElem?_eq_none_iff.mp hnext
      rw [List.drop_eq_nil_of_le hlength] at ih
      rw [waiting_succ_of_nil ih, List.drop_eq_nil_of_le (by omega)]
    | some c =>
      obtain ⟨hlt, hget⟩ := List.getElem?_eq_some_iff.mp hnext
      rw [List.drop_eq_getElem_cons hlt, hget] at ih
      have hentry : c.entry < (n + 1) * len := by
        rw [h (n + 1) c hnext, Nat.add_sub_cancel, Nat.succ_mul]
        omega
      exact waiting_succ_of_lt ih hentry

/-- **Block `n` plays the frame of commit `n`.** -/
theorem due_punctual (h : Punctual len 1 history) (hlen : 0 < len) (n : Nat) :
    due len history n = history[n]? := by
  cases n with
  | zero => rw [due, List.head?_eq_getElem?]
  | succ n =>
    rw [due, waiting_punctual h hlen, List.head?_drop]
    cases hnext : history[n + 1]? with
    | none => rfl
    | some c =>
      have hentry : c.entry < (n + 1) * len := by
        rw [h (n + 1) c hnext, Nat.add_sub_cancel, Nat.succ_mul]
        omega
      rw [Option.filter_some, if_pos (decide_eq_true hentry)]

end Punctual

/-! ### Whole blocks -/

section Blocks

variable {len m w k : Nat} {blocks : Nat → Block} {frames : List (Array Word)}

/-- **The words of whole blocks** are those of the frames that they play. -/
theorem opening_blocks (hsize : ∀ f ∈ frames, f.size = len)
    (h : ∀ k f, frames[k]? = some f → (blocks k).words = f) :
    opening (blockWord len blocks) (frames.length * len) = frames.flatMap Array.toList := by
  induction frames using List.reverseRecOn with
  | nil => rw [List.length_nil, Nat.zero_mul, List.flatMap_nil]; rfl
  | append_singleton frames f ih =>
    have hbefore := ih (fun g hg => hsize g (List.mem_append_left _ hg)) fun k g hg => h k g (by
      rw [List.getElem?_append_left (List.getElem?_eq_some_iff.mp hg).1]
      exact hg)
    have hlast : (blocks frames.length).words = f := h _ _ List.getElem?_concat_length
    have hf : f.size = len := hsize f (List.mem_append_right _ List.mem_cons_self)
    have hblock := extract_block (w := 0) (n := len) hlast.symm hf (by omega)
    rw [Nat.add_zero, Nat.zero_add, ← hf, Array.extract_size, hf] at hblock
    rw [List.length_append, List.length_singleton, Nat.succ_mul, opening_add, hbefore, ← hblock,
      List.flatMap_append, List.flatMap_singleton]

/-- What has been heard of frames of which the last `lag` have not been played yet. -/
def delayed (lag : Nat) (frames : List (Array Word)) : List Word :=
  (frames.take (frames.length - lag)).flatMap Array.toList

theorem opening_delayed (hsize : ∀ f ∈ frames, f.size = len)
    (h : ∀ k f, frames[k]? = some f → (blocks k).words = f) (lag : Nat) :
    opening (blockWord len blocks) ((frames.length - lag) * len) = delayed lag frames := by
  have hlength : (frames.take (frames.length - lag)).length = frames.length - lag := by
    rw [List.length_take]
    omega
  have hsizes : ∀ f ∈ frames.take (frames.length - lag), f.size = len :=
    fun f hf => hsize f (List.mem_of_mem_take hf)
  have hblocks : ∀ k f, (frames.take (frames.length - lag))[k]? = some f →
      (blocks k).words = f := by
    intro k f hf
    rw [List.getElem?_take] at hf
    split at hf
    · exact h k f hf
    · cases hf
  have hopening := opening_blocks hsizes hblocks
  rw [hlength] at hopening
  exact hopening

theorem fadeCount_eq_zero {n : Nat} (h : ∀ j < n, (blocks j).isFade = false) :
    fadeCount blocks n = 0 := by
  rw [fadeCount, List.countP_eq_zero]
  intro j hj
  rw [h j (List.mem_range.mp hj)]
  exact Bool.false_ne_true

/-- A place at the start of a block is at the start of one block only. -/
theorem place_eq_start (hw : w < len) (h : m * len + w = k * len) : m = k ∧ w = 0 := by
  have hm : (m * len + w) / len = m := div_mul_add hw
  have hk : (k * len + 0) / len = k := div_mul_add (by omega)
  rw [h, ← Nat.add_zero (k * len), hk] at hm
  subst hm
  omega

end Blocks

/-! ### The history of a run -/

/-- What ties a history of commits to a moment. -/
structure Keeps {σ : Type} (P : Port σ) (len lag : Nat) (t : Moment) (history : List Commit)
    (d : σ) : Prop where
  frames : history.map Commit.frame = t.frames
  punctual : Punctual len lag history
  place : ∀ words, t.words = some words → P.place d = some words
  waitSpins : (P.deck d).stats.waitSpins = 0

namespace Keeps

variable {σ : Type} {P : Port σ} {len lag : Nat} {t t' : Moment} {history : List Commit} {d d' : σ}
  {frames : List (Array Word)} {words : Array Word}

theorem length_eq (h : Keeps P len lag t history d) : history.length = t.frames.length := by
  rw [← h.frames, List.length_map]

theorem start (hspins : (P.deck d).stats.waitSpins = 0) : Keeps P len lag (.rest []) [] d :=
  ⟨rfl, punctual_nil, (fun _ h => nomatch h), hspins⟩

/-- From one moment to the next of the same frame. -/
theorem next (h : Keeps P len lag t history d) (hframes : t'.frames = t.frames)
    (hplace : ∀ words, t'.words = some words → P.place d' = some words)
    (hspins : (P.deck d').stats.waitSpins = (P.deck d).stats.waitSpins) :
    Keeps P len lag t' history d' :=
  ⟨h.frames.trans hframes.symm, h.punctual, hplace, hspins.trans h.waitSpins⟩

/-- What a commit of the frame in the place that is held adds to the history. -/
theorem noted (h : Keeps P len lag (.filled frames words) history d) (hsize : words.size = len) :
    P.noted (.commit len) d d' = [⟨(P.deck d).played.size, (P.deck d').played.size, words⟩] := by
  rw [Port.noted, h.place words rfl, Option.map_some, padded_of_size_le (Nat.le_of_eq hsize)]
  rfl

/-- **A commit ends a frame,** if it is made in time. -/
theorem commit (h : Keeps P len lag (.filled frames words) history d) (hsize : words.size = len)
    (hentry : (P.deck d).played.size = (frames.length - lag) * len)
    (hspins : (P.deck d').stats.waitSpins = (P.deck d).stats.waitSpins) :
    Keeps P len lag (.rest (frames ++ [words])) (history ++ P.noted (.commit len) d d') d' := by
  have hlength : history.length = frames.length := h.length_eq
  rw [h.noted hsize]
  refine ⟨?_, h.punctual.concat ?_, (fun _ h => nomatch h), hspins.trans h.waitSpins⟩
  · rw [List.map_append, h.frames]
    rfl
  · rw [hlength]
    exact hentry

/-- **What has been heard of a run in lockstep,** if each block plays a frame of its own. -/
theorem opening_eq {blocks : Nat → Block} (h : Keeps P len lag t history d)
    (hsize : ∀ c ∈ history, c.frame.size = len)
    (hblocks : ∀ k c, history[k]? = some c → (blocks k).words = c.frame) (n : Nat) :
    opening (blockWord len blocks) ((t.frames.length - n) * len) = delayed n t.frames := by
  refine opening_delayed ?_ ?_ n
  · intro f hf
    rw [← h.frames] at hf
    obtain ⟨c, hc, rfl⟩ := List.mem_map.mp hf
    exact hsize c hc
  · intro k f hf
    rw [← h.frames, List.getElem?_map] at hf
    obtain ⟨c, hc, rfl⟩ := Option.map_eq_some_iff.mp hf
    exact hblocks k c hc

end Keeps

end ConsolePipeline.Playback
