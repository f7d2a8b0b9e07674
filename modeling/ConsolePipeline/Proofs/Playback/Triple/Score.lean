import Mathlib.Algebra.GroupWithZero.Nat
import Mathlib.Algebra.BigOperators.Group.List.Basic
import ConsolePipeline.Proofs.Playback.Score

namespace ConsolePipeline.Playback.Triple

open Stereo

/-!
# Triple buffering: what a listener should hear

The frame that a block plays was committed while the block two before it was playing. If there were
several, the last one is played and the others are lost.

* `during` — the commits made while a block played; `lost` — how many of them are not played.
* `block` — the blocks that a history of commits calls for.
* `during_append`, `lost_append`, `block_append`, `block_append_last` — what a commit changes.
* `length_eq_lost_add_frameCount` — every commit is lost or played.
-/

variable {len pole m n : Nat} {history : List Commit} {c : Commit}

/-! ### Commits made while a block played -/

/-- The commits made while block `n` played, the first one of all apart: it starts block 0. -/
def during (len : Nat) (history : List Commit) (n : Nat) : List Commit :=
  history.tail.filter fun c => c.entry / len = n

/-- How many commits were overwritten by a later one of the same block, up to block `m`. -/
def lost (len : Nat) (history : List Commit) (m : Nat) : Nat :=
  ((List.range (m + 1)).map fun n => (during len history n).length - 1).sum

theorem during_append (hne : history ≠ []) (c : Commit) (n : Nat) :
    during len (history ++ [c]) n =
      during len history n ++ if c.entry / len = n then [c] else [] := by
  rw [during, List.tail_append_of_ne_nil hne, List.filter_append, List.filter_singleton]
  by_cases hn : c.entry / len = n
  · rw [if_pos hn, decide_eq_true hn]
    rfl
  · rw [if_neg hn, decide_eq_false hn]
    rfl

/-- Nothing has been committed in a block that has not begun. -/
theorem during_eq_nil (h : ∀ c ∈ history, c.entry < n * len) : during len history n = [] := by
  rw [during, List.filter_eq_nil_iff]
  intro c hc hn
  have hentry := h c (List.mem_of_mem_tail hc)
  have hlt : c.entry / len < n := Nat.div_lt_of_lt_mul (by rw [Nat.mul_comm]; exact hentry)
  rw [of_decide_eq_true hn] at hlt
  exact Nat.lt_irrefl n hlt

theorem during_subset (len n : Nat) (history : List Commit) : during len history n ⊆ history :=
  fun _ hc => List.mem_of_mem_tail (List.mem_of_mem_filter hc)

theorem lost_succ (len : Nat) (history : List Commit) (m : Nat) :
    lost len history (m + 1) = lost len history m + ((during len history (m + 1)).length - 1) := by
  rw [lost, List.range_succ, List.map_append, List.sum_append, List.map_singleton,
    List.sum_singleton]
  rfl

/-- **A commit is lost,** or makes another one lost, if it is not the first of its block. -/
theorem lost_append (hne : history ≠ []) (hc : c.entry / len = m) :
    lost len (history ++ [c]) m =
      lost len history m + if during len history m = [] then 0 else 1 := by
  have hbefore : ∀ n ∈ List.range m, (during len (history ++ [c]) n).length - 1 =
      (during len history n).length - 1 := by
    intro n hn
    have hne' : c.entry / len ≠ n := by
      rw [hc]
      exact (Nat.ne_of_lt (List.mem_range.mp hn)).symm
    rw [during_append hne, if_neg hne', List.append_nil]
  have hlast : (during len (history ++ [c]) m).length = (during len history m).length + 1 := by
    rw [during_append hne, if_pos hc, List.length_append, List.length_singleton]
  rw [lost, lost, List.range_succ, List.map_append, List.sum_append, List.map_append,
    List.sum_append, List.map_congr_left hbefore, List.map_singleton, List.map_singleton,
    List.sum_singleton, List.sum_singleton, hlast, Nat.add_assoc]
  cases during len history m with
  | nil => rfl
  | cons b rest => rw [if_neg (List.cons_ne_nil b rest)]; rfl

/-! ### Blocks -/

/-- The first frame of a history. -/
def firstFrame (history : List Commit) : Array Word :=
  (history.head?.map Commit.frame).getD #[]

/-- **Block `n`:** the last frame committed while the block two before it played. The first three
    blocks play the first frame if there is none, the others a decay of what their slot played
    before. -/
def block (len pole : Nat) (history : List Commit) : Nat → Block
  | 0 => .frame (firstFrame history)
  | 1 => .copy (firstFrame history)
  | 2 => match (during len history 0).getLast? with
    | some c => .frame c.frame
    | none => .copy (firstFrame history)
  | n + 3 => match (during len history (n + 1)).getLast? with
    | some c => .frame c.frame
    | none => .fade (afterglow pole (block len pole history n).words)

theorem block_eq_frame (h : (during len history n).getLast? = some c) :
    block len pole history (n + 2) = .frame c.frame := by
  cases n with
  | zero => rw [block, h]
  | succ n => rw [block, h]

theorem block_eq_fade (h : during len history (n + 1) = []) :
    block len pole history (n + 3) = .fade (afterglow pole (block len pole history n).words) := by
  rw [block, h, List.getLast?_nil]

/-- A block plays a frame of its own if one was committed two blocks before. -/
theorem isFrame_block (n : Nat) :
    (block len pole history (n + 2)).isFrame = !(during len history n).isEmpty := by
  cases h : during len history n with
  | nil =>
    cases n with
    | zero => rw [block, h, List.getLast?_nil]; rfl
    | succ n => rw [block_eq_fade h]; rfl
  | cons b rest =>
    rw [block_eq_frame (by rw [h]; exact List.getLast?_eq_some_getLast (List.cons_ne_nil b rest))]
    rfl

/-- A commit decides the block after the next one. -/
theorem block_append_last (hne : history ≠ []) (hc : c.entry / len = m) :
    block len pole (history ++ [c]) (m + 2) = .frame c.frame := by
  apply block_eq_frame
  rw [during_append hne, if_pos hc, List.getLast?_concat]

/-- A commit leaves the blocks before that as they were. -/
theorem block_append (hne : history ≠ []) (hc : c.entry / len = m) (hn : n ≤ m + 1) :
    block len pole (history ++ [c]) n = block len pole history n := by
  have hfirst : firstFrame (history ++ [c]) = firstFrame history := by
    rw [firstFrame, List.head?_append_of_ne_nil history hne, firstFrame]
  have hduring : ∀ k < m, during len (history ++ [c]) k = during len history k := by
    intro k hk
    rw [during_append hne, if_neg (by omega), List.append_nil]
  induction n using Nat.strongRecOn with
  | ind n ih =>
    match n, hn, ih with
    | 0, _, _ => rw [block, block, hfirst]
    | 1, _, _ => rw [block, block, hfirst]
    | 2, hn, _ => rw [block, block, hduring 0 (by omega), hfirst]
    | n + 3, hn, ih => rw [block, block, hduring (n + 1) (by omega), ih n (by omega) (by omega)]

theorem size_block (hne : history ≠ []) (hframes : ∀ c ∈ history, c.frame.size = len) (n : Nat) :
    (block len pole history n).words.size = len := by
  have hfirst : (firstFrame history).size = len := by
    obtain ⟨c, rest, rfl⟩ := List.exists_cons_of_ne_nil hne
    exact hframes c List.mem_cons_self
  have hlast : ∀ k c, (during len history k).getLast? = some c → c.frame.size = len :=
    fun k c hc => hframes c (during_subset len k history (List.mem_of_getLast? hc))
  induction n using Nat.strongRecOn with
  | ind n ih =>
    match n, ih with
    | 0, _ => exact hfirst
    | 1, _ => exact hfirst
    | 2, _ =>
      cases h : (during len history 0).getLast? with
      | some c => rw [block, h]; exact hlast 0 c h
      | none => rw [block, h]; exact hfirst
    | n + 3, ih =>
      cases h : (during len history (n + 1)).getLast? with
      | some c => rw [block, h]; exact hlast (n + 1) c h
      | none =>
        rw [block, h]
        exact (size_afterglow pole _).trans (ih n (by omega))

/-! ### Every commit is accounted for -/

/-- Commits made up to a block are those made before it and those made while it played. -/
theorem countP_le_succ (len m : Nat) (commits : List Commit) :
    (commits.countP fun c => c.entry / len ≤ m + 1) =
      (commits.countP fun c => c.entry / len ≤ m) +
        commits.countP fun c => c.entry / len = m + 1 := by
  induction commits with
  | nil => rfl
  | cons c rest ih =>
    simp only [List.countP_cons, ih, decide_eq_true_eq]
    split <;> split <;> split <;> omega

theorem length_during (len n : Nat) (history : List Commit) :
    (during len history n).length = history.tail.countP fun c => c.entry / len = n := by
  rw [during, List.countP_eq_length_filter]

/-- Commits up to block `m` are lost or due in one of the blocks up to `m + 2`. -/
theorem countP_tail_eq (len pole : Nat) (history : List Commit) (m : Nat) :
    (history.tail.countP fun c => c.entry / len ≤ m) + 1 =
      lost len history m + frameCount (block len pole history) (m + 3) := by
  -- Of the commits made while a block is played the last one is played two blocks later, and the
  -- others are lost.
  have hbelow : ∀ n, (if (block len pole history (n + 2)).isFrame then 1 else 0) +
      ((during len history n).length - 1) = (during len history n).length := by
    intro n
    rw [isFrame_block]
    cases during len history n with
    | nil => rfl
    | cons b rest => simp [Nat.add_comm]
  induction m with
  | zero =>
    have hzero : (if (block len pole history 2).isFrame then 1 else 0) +
        ((during len history 0).length - 1) = (during len history 0).length := hbelow 0
    have hlost : lost len history 0 = (during len history 0).length - 1 := by
      simp [lost]
    have hcount : frameCount (block len pole history) 2 = 1 := rfl
    have hle : (history.tail.countP fun c => c.entry / len ≤ 0) =
        (during len history 0).length := by
      simp only [length_during, Nat.le_zero_eq]
    rw [hle, hlost, frameCount_succ, hcount]
    omega
  | succ m ih =>
    have hsucc : (if (block len pole history (m + 3)).isFrame then 1 else 0) +
        ((during len history (m + 1)).length - 1) = (during len history (m + 1)).length :=
      hbelow (m + 1)
    rw [countP_le_succ, ← length_during, lost_succ, frameCount_succ]
    omega

/-- **Every commit is accounted for:** it is lost, or one block plays its frame. -/
theorem length_eq_lost_add_frameCount (hne : history ≠ [])
    (hentries : ∀ c ∈ history, c.entry < (m + 1) * len) :
    history.length = lost len history m + frameCount (block len pole history) (m + 3) := by
  rw [← countP_tail_eq]
  have hall : (history.tail.countP fun c => c.entry / len ≤ m) = history.tail.length := by
    rw [List.countP_eq_length]
    intro c hc
    have hlt : c.entry / len < m + 1 :=
      Nat.div_lt_of_lt_mul (by rw [Nat.mul_comm]; exact hentries c (List.mem_of_mem_tail hc))
    exact decide_eq_true (Nat.lt_succ_iff.mp hlt)
  rw [hall, List.length_tail]
  have := List.length_pos_iff.mpr hne
  omega

end ConsolePipeline.Playback.Triple
