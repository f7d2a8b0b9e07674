import ConsolePipeline.Proofs.Playback.Calls

namespace ConsolePipeline.Playback

open Stereo

/-!
# What a listener should hear

A strategy that plays slots puts out block after block, each as long as a slot. Which blocks these
are follows from the history of commits alone: from the frames, and from how many words had been
played when each was handed over.

* `Block`, `blockWord` — the blocks, and the stream of words they make up.
* `opening` — the first words of a stream; `framesIn` — the frames among the first blocks.
* `waiting`, `due` — frames played in the order of their commits, each as soon as a block begins;
  `dueCount` — how many have been.
* `waiting_append`, `due_append` — a later commit does not change what has been played.
-/

/-! ### Streams and blocks -/

/-- The first `n` words of a stream. -/
def opening (stream : Nat → Word) (n : Nat) : List Word :=
  (List.range n).map stream

theorem opening_add (stream : Nat → Word) (m n : Nat) :
    opening stream (m + n) = opening stream m ++ (List.range n).map fun i => stream (m + i) := by
  simp only [opening, List.range_add, List.map_append, List.map_map, Function.comp_def]

theorem opening_congr {s t : Nat → Word} {n : Nat} (h : ∀ i < n, s i = t i) :
    opening s n = opening t n :=
  List.map_congr_left fun i hi => h i (List.mem_range.mp hi)

/-- What the hardware plays between two completions. -/
inductive Block
  /-- A frame, played for the first time. -/
  | frame (words : Array Word)
  /-- A start-up copy of the first frame. -/
  | copy (words : Array Word)
  /-- A decay, because no frame was there. -/
  | fade (words : Array Word)

namespace Block

def words : Block → Array Word
  | frame words => words
  | copy words => words
  | fade words => words

/-- The frame that is played, if it is one. -/
def frame? : Block → Option (Array Word)
  | frame words => some words
  | _ => none

def isFrame : Block → Bool
  | frame _ => true
  | _ => false

def isCopy : Block → Bool
  | copy _ => true
  | _ => false

def isFade : Block → Bool
  | fade _ => true
  | _ => false

end Block

/-- Word `i` of the stream that blocks of `len` words make up. -/
def blockWord (len : Nat) (blocks : Nat → Block) (i : Nat) : Word :=
  (blocks (i / len)).words.getD (i % len) silence

/-- How many of the first `n` blocks are frames. -/
def frameCount (blocks : Nat → Block) (n : Nat) : Nat :=
  (List.range n).countP fun k => (blocks k).isFrame

/-- How many of the first `n` blocks are decays. -/
def fadeCount (blocks : Nat → Block) (n : Nat) : Nat :=
  (List.range n).countP fun k => (blocks k).isFade

/-- The frames among the first `n` blocks. -/
def framesIn (blocks : Nat → Block) (n : Nat) : List (Array Word) :=
  (List.range n).filterMap fun k => (blocks k).frame?

theorem framesIn_succ (blocks : Nat → Block) (n : Nat) :
    framesIn blocks (n + 1) = framesIn blocks n ++ (blocks n).frame?.toList := by
  rw [framesIn, List.range_succ, List.filterMap_append]
  cases hframe : (blocks n).frame? <;> simp [framesIn, hframe]

theorem frameCount_succ (blocks : Nat → Block) (n : Nat) :
    frameCount blocks (n + 1) = frameCount blocks n + if (blocks n).isFrame then 1 else 0 := by
  rw [frameCount, List.range_succ, List.countP_append, List.countP_singleton]
  rfl

theorem fadeCount_succ (blocks : Nat → Block) (n : Nat) :
    fadeCount blocks (n + 1) = fadeCount blocks n + if (blocks n).isFade then 1 else 0 := by
  rw [fadeCount, List.range_succ, List.countP_append, List.countP_singleton]
  rfl

theorem fadeCount_congr {a b : Nat → Block} {n : Nat} (h : ∀ k < n, a k = b k) :
    fadeCount a n = fadeCount b n :=
  List.countP_congr fun k hk => by rw [h k (List.mem_range.mp hk)]

theorem div_mul_add {len m w : Nat} (hw : w < len) : (m * len + w) / len = m := by
  rw [Nat.mul_comm, Nat.mul_add_div (by omega), Nat.div_eq_of_lt hw, Nat.add_zero]

theorem mod_mul_add {len m w : Nat} (hw : w < len) : (m * len + w) % len = w := by
  rw [Nat.mul_comm, Nat.mul_add_mod, Nat.mod_eq_of_lt hw]

/-- Words cut from a block are the next words of the stream. -/
theorem extract_block {len m w n : Nat} {words : Array Word} {blocks : Nat → Block}
    (hwords : words = (blocks m).words) (hsize : words.size = len) (hn : w + n ≤ len) :
    (words.extract w (w + n)).toList =
      (List.range n).map fun i => blockWord len blocks (m * len + w + i) := by
  apply List.ext_getElem
  · simp only [Array.toList_extract, List.extract_eq_take_drop, List.length_take, List.length_drop,
      Array.length_toList, List.length_map, List.length_range]
    omega
  · intro i hi _
    have hi : i < n := by
      simp only [Array.toList_extract, List.extract_eq_take_drop, List.length_take,
        List.length_drop, Array.length_toList] at hi
      omega
    have hlt : w + i < len := by omega
    rw [List.getElem_map, List.getElem_range, blockWord, Nat.add_assoc, div_mul_add hlt,
      mod_mul_add hlt, ← hwords, Array.getElem_toList, Array.getElem_extract,
      Array.getD_eq_getD_getElem?, Array.getElem?_eq_getElem (by omega), Option.getD_some]

/-- The blocks before a place in the stream decide its words up to there. -/
theorem opening_blockWord_congr {len m n : Nat} {a b : Nat → Block} (h : ∀ k ≤ m, a k = b k)
    (hlen : 0 < len) (hn : n ≤ (m + 1) * len) :
    opening (blockWord len a) n = opening (blockWord len b) n := by
  apply opening_congr
  intro i hi
  have hk : i / len < m + 1 := (Nat.div_lt_iff_lt_mul hlen).mpr (by omega)
  rw [blockWord, blockWord, h _ (Nat.lt_succ_iff.mp hk)]

/-! ### Frames in the order of their commits -/

section Queue

variable (len : Nat) (history : List Commit)

/-- The commits whose frames still wait once block `n` has begun. A block takes the next frame if
    its commit was made before the block began. -/
def waiting : Nat → List Commit
  | 0 => history.tail
  | n + 1 =>
    if (waiting n).head?.any fun c => c.entry < (n + 1) * len then (waiting n).tail
    else waiting n

/-- The commit whose frame block `n` plays. -/
def due : Nat → Option Commit
  | 0 => history.head?
  | n + 1 => (waiting len history n).head?.filter fun c => c.entry < (n + 1) * len

end Queue

variable {len n : Nat} {history : List Commit} {c : Commit}

theorem due_succ_of_nil (h : waiting len history n = []) : due len history (n + 1) = none := by
  rw [due, h]
  rfl

theorem waiting_succ_of_nil (h : waiting len history n = []) :
    waiting len history (n + 1) = [] := by
  rw [waiting, h]
  rfl

theorem due_succ_of_lt {rest : List Commit} (h : waiting len history n = c :: rest)
    (hlt : c.entry < (n + 1) * len) : due len history (n + 1) = some c := by
  rw [due, h, List.head?_cons, Option.filter_some, if_pos (decide_eq_true hlt)]

theorem waiting_succ_of_lt {rest : List Commit} (h : waiting len history n = c :: rest)
    (hlt : c.entry < (n + 1) * len) : waiting len history (n + 1) = rest := by
  rw [waiting, h, List.head?_cons, Option.any_some, if_pos (decide_eq_true hlt), List.tail_cons]

theorem waiting_of_nil {m : Nat} (h : waiting len history n = []) (hm : n ≤ m) :
    waiting len history m = [] := by
  induction hm with
  | refl => exact h
  | step _ ih => exact waiting_succ_of_nil ih

/-- A block takes a frame off those that wait, or takes none. -/
theorem waiting_eq_cons_or (len n : Nat) (history : List Commit) :
    (∃ c, due len history (n + 1) = some c ∧
      waiting len history n = c :: waiting len history (n + 1)) ∨
    (due len history (n + 1) = none ∧ waiting len history (n + 1) = waiting len history n) := by
  cases hwait : waiting len history n with
  | nil => exact .inr ⟨due_succ_of_nil hwait, waiting_succ_of_nil hwait⟩
  | cons c rest =>
    by_cases hlt : c.entry < (n + 1) * len
    · exact .inl ⟨c, due_succ_of_lt hwait hlt, by rw [waiting_succ_of_lt hwait hlt]⟩
    · refine .inr ⟨?_, ?_⟩
      · rw [due, hwait, List.head?_cons, Option.filter_some, if_neg (by simpa using hlt)]
      · rw [waiting, hwait, List.head?_cons, Option.any_some, if_neg (by simpa using hlt)]

theorem waiting_subset (len n : Nat) (history : List Commit) :
    waiting len history n ⊆ history := by
  induction n with
  | zero => exact fun c hc => List.mem_of_mem_tail hc
  | succ n ih =>
    obtain ⟨c, _, hcons⟩ | ⟨_, hsame⟩ := waiting_eq_cons_or len n history
    · rw [hcons] at ih
      exact List.Subset.trans (List.subset_cons_self c _) ih
    · rw [hsame]
      exact ih

theorem due_mem (h : due len history n = some c) : c ∈ history := by
  cases n with
  | zero => exact List.mem_of_mem_head? h
  | succ n =>
    obtain ⟨c', hdue, hcons⟩ | ⟨hnone, _⟩ := waiting_eq_cons_or len n history
    · obtain rfl : c' = c := Option.some.inj (hdue.symm.trans h)
      exact waiting_subset len n history (by rw [hcons]; exact List.mem_cons_self)
    · rw [hnone] at h
      cases h

/-- **A commit made after block `n` began leaves what waited then as it was,** and joins it. -/
theorem waiting_append (hne : history ≠ []) (h : n * len ≤ c.entry) :
    waiting len (history ++ [c]) n = waiting len history n ++ [c] := by
  induction n with
  | zero => exact List.tail_append_of_ne_nil hne
  | succ n ih =>
    have hn : n * len ≤ (n + 1) * len := Nat.mul_le_mul_right len (Nat.le_succ n)
    have hwait := ih (Nat.le_trans hn h)
    cases hold : waiting len history n with
    | nil =>
      rw [hold, List.nil_append] at hwait
      rw [waiting, hwait, waiting_succ_of_nil hold, List.head?_cons, Option.any_some,
        if_neg (by simpa using h), List.nil_append]
    | cons b rest =>
      rw [hold, List.cons_append] at hwait
      rw [waiting, waiting, hwait, hold, List.head?_cons, List.head?_cons]
      cases Option.any (fun c : Commit => decide (c.entry < (n + 1) * len)) (some b) <;> rfl

theorem due_append (hne : history ≠ []) (h : n * len ≤ c.entry) :
    due len (history ++ [c]) n = due len history n := by
  cases n with
  | zero =>
    rw [due, due, List.head?_append_of_ne_nil history hne]
  | succ n =>
    have hn : n * len ≤ (n + 1) * len := Nat.mul_le_mul_right len (Nat.le_succ n)
    rw [due, due, waiting_append hne (Nat.le_trans hn h)]
    cases hold : waiting len history n with
    | nil =>
      rw [List.nil_append, List.head?_cons, Option.filter_some, if_neg (by simpa using h)]
      rfl
    | cons b rest => rfl

/-- **No frame is lost or played twice:** each commit is played by one block or still waits. -/
theorem length_eq_waiting_add (hne : history ≠ []) (n : Nat) :
    history.length = (waiting len history n).length +
      (List.range (n + 1)).countP fun k => (due len history k).isSome := by
  induction n with
  | zero =>
    obtain ⟨c, rest, rfl⟩ := List.exists_cons_of_ne_nil hne
    rfl
  | succ n ih =>
    rw [List.range_succ, List.countP_append, List.countP_singleton]
    obtain ⟨c, hdue, hcons⟩ | ⟨hnone, hsame⟩ := waiting_eq_cons_or len n history
    · rw [hcons, List.length_cons] at ih
      rw [hdue, Option.isSome_some, if_pos rfl]
      omega
    · rw [hnone, hsame, Option.isSome_none]
      simpa using ih

/-! ### Commits and the blocks that play them -/

/-- How many commits have been played, or are being played, when block `n` begins. -/
def dueCount (len : Nat) (history : List Commit) (n : Nat) : Nat :=
  (List.range n).countP fun k => (due len history k).isSome

theorem dueCount_succ (len : Nat) (history : List Commit) (n : Nat) :
    dueCount len history (n + 1) =
      dueCount len history n + if (due len history n).isSome then 1 else 0 := by
  rw [dueCount, List.range_succ, List.countP_append, List.countP_singleton]
  rfl

theorem dueCount_one (hne : history ≠ []) : dueCount len history 1 = 1 := by
  obtain ⟨c, rest, rfl⟩ := List.exists_cons_of_ne_nil hne
  rfl

/-- The commits that wait are those after the ones that have been played. -/
theorem waiting_eq_drop (hne : history ≠ []) (n : Nat) :
    waiting len history n = history.drop (dueCount len history (n + 1)) := by
  induction n with
  | zero =>
    obtain ⟨c, rest, rfl⟩ := List.exists_cons_of_ne_nil hne
    rfl
  | succ n ih =>
    rw [dueCount_succ]
    obtain ⟨c, hdue, hcons⟩ | ⟨hnone, hsame⟩ := waiting_eq_cons_or len n history
    · rw [hdue, Option.isSome_some, if_pos rfl, ← List.tail_drop, ← ih, hcons, List.tail_cons]
    · rw [hnone, hsame, ih]
      rfl

/-- **Commits are played in their order:** the next one is the first that has not been played. -/
theorem getElem?_dueCount (h : due len history n = some c) :
    history[dueCount len history n]? = some c := by
  have hne : history ≠ [] := List.ne_nil_of_mem (due_mem h)
  cases n with
  | zero => exact List.head?_eq_getElem?.symm.trans h
  | succ n =>
    rw [← List.head?_drop, ← waiting_eq_drop hne]
    exact (Option.filter_eq_some_iff.mp h).1

/-- Every commit that has been played was played by a block. -/
theorem exists_due {k : Nat} (h : k < dueCount len history n) :
    ∃ j < n, dueCount len history j = k ∧ (due len history j).isSome := by
  induction n with
  | zero => exact absurd h (Nat.not_lt_zero k)
  | succ n ih =>
    by_cases hk : k < dueCount len history n
    · obtain ⟨j, hj, hcount⟩ := ih hk
      exact ⟨j, Nat.lt_succ_of_lt hj, hcount⟩
    · rw [dueCount_succ] at h
      split at h
      · next hdue => exact ⟨n, Nat.lt_succ_self n, by omega, hdue⟩
      · exact absurd h hk

theorem dueCount_append (hne : history ≠ []) (h : ∀ k < n, k * len ≤ c.entry) :
    dueCount len (history ++ [c]) n = dueCount len history n :=
  List.countP_congr fun k hk => by rw [due_append hne (h k (List.mem_range.mp hk))]

end ConsolePipeline.Playback
