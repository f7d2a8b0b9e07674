import ConsolePipeline.Proofs.FrameSkip.Turns

namespace ConsolePipeline.FrameSkip

/-!
# Both fields are drawn

An effect that flickers shows one picture on frames of even number and another on odd ones. A policy
that always skips the same ones of them would show only half of it. What the adaptive policy
remembers of past renders is enough to rule that out over consecutive frames, whoever made them
render.

* `Remembers`, `Remembers.render` — the memory of the policy, and the renders that it stands for.
* `Adaptive.protects_weak_iff`, `protects_strong_iff` — which frame is protected, in terms of
  renders.
* `Fair` — what weak protection keeps up; `Steady` — what strong protection does;
  `Remembers.weak_skip`, `strong_skip` — they let no frame go by that is needed.
* `Watched`, `Watched.decide` — a controller over consecutive frames, one decision more.
* `fields_protected` — over a whole run.
-/

/-- Two frames of the same field. -/
def SameField (x y : Nat) : Prop :=
  x % 2 = y % 2

instance (x y : Nat) : Decidable (SameField x y) :=
  inferInstanceAs (Decidable (_ = _))

section

variable {fs : List Nat} {n x y z : Nat}

/-- A pair at the end of a list that has grown by one. -/
theorem pair_suffix_concat_iff : [x, y] <:+ fs ++ [n] ↔ fs.getLast? = some x ∧ y = n := by
  have hlength : [y].length = [n].length := rfl
  rw [show [x, y] = [x] ++ [y] from rfl, List.suffix_append_inj_of_length_eq hlength,
    List.singleton_suffix_iff_getLast?_eq_some, List.singleton_inj]

/-- Three at the end of a list that has grown by one. -/
theorem three_suffix_concat_iff : [x, y, z] <:+ fs ++ [n] ↔ [x, y] <:+ fs ∧ z = n := by
  have hlength : [z].length = [n].length := rfl
  rw [show [x, y, z] = [x, y] ++ [z] from rfl, List.suffix_append_inj_of_length_eq hlength,
    List.singleton_inj]

/-- A frame and the next one are of different fields. -/
theorem not_sameField_succ (y : Nat) : ¬SameField y (y + 1) := by
  unfold SameField
  omega

/-! ### The memory of the policy -/

/-- **The policy remembers** the field of the last render, and whether the render before was of the
    same one. -/
structure Remembers (a : Adaptive) (fs : List Nat) : Prop where
  last : a.lastParity = fs.getLast?.map (· % 2)
  same : 1 ≤ a.sameParity ↔ ∃ x y, [x, y] <:+ fs ∧ SameField x y

namespace Remembers

variable {a : Adaptive}

theorem reset (a : Adaptive) : Remembers a.reset [] :=
  ⟨rfl, by simp [Adaptive.reset]⟩

/-- A skip is not remembered. -/
theorem skip (h : Remembers a fs) (n : Nat) (s : State) :
    Remembers (a.decided n false s).1 fs :=
  h

/-- **A render is.** -/
theorem render (h : Remembers a fs) (n : Nat) (s : State) :
    Remembers (a.decided n true s).1 (fs ++ [n]) := by
  constructor
  · rw [List.getLast?_concat]
    rfl
  · -- The count goes on just when the last render was of this field.
    have hcount : 1 ≤ (a.decided n true s).1.sameParity ↔ a.lastParity = some (n % 2) := by
      show 1 ≤ (if a.lastParity = some (n % 2) then a.sameParity + 1 else 0) ↔ _
      split_ifs with hlast
      · simp [hlast]
      · simp [hlast]
    rw [hcount, h.last, Option.map_eq_some_iff]
    constructor
    · rintro ⟨x, hx, hfield⟩
      exact ⟨x, n, pair_suffix_concat_iff.mpr ⟨hx, rfl⟩, hfield⟩
    · rintro ⟨x, y, hsuffix, hfield⟩
      obtain ⟨hx, rfl⟩ := pair_suffix_concat_iff.mp hsuffix
      exact ⟨x, hx, hfield⟩

end Remembers

theorem bne_field_iff (n y : Nat) : (n % 2 != y % 2) = true ↔ ¬SameField y n := by
  rw [bne_iff_ne, ne_comm]
  rfl

namespace Adaptive

variable {a : Adaptive}

/-- **Weak protection** renders a frame of the other field after two renders of one. -/
theorem protects_weak_iff (h : Remembers a fs) (hweak : a.tuning.parity = .weak) :
    a.protects n = true ↔ ∃ x y, [x, y] <:+ fs ∧ SameField x y ∧ ¬SameField y n := by
  have hlast := h.last
  unfold protects
  cases hfs : fs.getLast? with
  | none =>
    rw [hfs] at hlast
    rw [hlast]
    obtain rfl := List.getLast?_eq_none_iff.mp hfs
    simp
  | some y =>
    rw [hfs] at hlast
    rw [hlast, hweak]
    -- Of two renders at the end, the later one is the last of all.
    have hend : ∀ x z, [x, z] <:+ fs → z = y := by
      rintro x z ⟨before, rfl⟩
      rw [List.getLast?_append_cons] at hfs
      exact Option.some.inj hfs
    simp only [Option.map_some, Bool.and_eq_true, bne_field_iff, decide_eq_true_eq, h.same]
    constructor
    · rintro ⟨hother, x, z, hsuffix, hsame⟩
      obtain rfl := hend x z hsuffix
      exact ⟨x, z, hsuffix, hsame, hother⟩
    · rintro ⟨x, z, hsuffix, hsame, hother⟩
      obtain rfl := hend x z hsuffix
      exact ⟨hother, x, z, hsuffix, hsame⟩

/-- **Strong protection** renders every frame of the other field than the last render's. -/
theorem protects_strong_iff (h : Remembers a fs) (hstrong : a.tuning.parity = .strong) :
    a.protects n = true ↔ ∃ y, fs.getLast? = some y ∧ ¬SameField y n := by
  have hlast := h.last
  unfold protects
  cases hfs : fs.getLast? with
  | none =>
    rw [hfs] at hlast
    rw [hlast]
    simp
  | some y =>
    rw [hfs] at hlast
    rw [hlast, hstrong]
    exact (bne_field_iff n y).trans (by simp)

end Adaptive

/-! ### What protection keeps up -/

/-- **What holds under weak protection** before the decision on frame `n`. -/
structure Fair (fs : List Nat) (n : Nat) : Prop where
  /-- No three renders in a row are of the same field. -/
  three : ∀ x y z, [x, y, z] <:+: fs → ¬(SameField x y ∧ SameField y z)
  /-- Two of the same field are followed by a render of the other, unless they have only just been
      made. -/
  followed : ∀ x y, [x, y] <:+: fs → SameField x y → y + 1 ∈ fs ∨ [x, y] <:+ fs
  recent : ∀ x y, [x, y] <:+ fs → SameField x y → y + 1 = n

namespace Fair

theorem nil (n : Nat) : Fair [] n := by
  constructor <;> simp

/-- A frame may be skipped if it is not needed. -/
theorem skip (h : Fair fs n) (hfree : ¬∃ x y, [x, y] <:+ fs ∧ SameField x y) :
    Fair fs (n + 1) where
  three := h.three
  followed := h.followed
  recent := fun x y hsuffix hsame => absurd ⟨x, y, hsuffix, hsame⟩ hfree

/-- **A frame may always be rendered:** if two renders of a field have just been made, it is of the
    other. -/
theorem render (h : Fair fs n) : Fair (fs ++ [n]) (n + 1) where
  three := by
    intro x y z hinfix
    rcases List.infix_concat_iff.mp hinfix with hsuffix | hbefore
    · obtain ⟨hpair, rfl⟩ := three_suffix_concat_iff.mp hsuffix
      rintro ⟨hsame, hthird⟩
      rw [← h.recent x y hpair hsame] at hthird
      exact not_sameField_succ y hthird
    · exact h.three x y z hbefore
  followed := by
    intro x y hinfix hsame
    rcases List.infix_concat_iff.mp hinfix with hsuffix | hbefore
    · exact .inr hsuffix
    · -- A pair from before is followed by a render from before, or by this one.
      rcases h.followed x y hbefore hsame with hnext | hpair
      · exact .inl (List.mem_append_left _ hnext)
      · rw [h.recent x y hpair hsame]
        exact .inl (List.mem_append_right _ (List.mem_singleton_self n))
  recent := by
    intro x y hsuffix _
    obtain ⟨-, rfl⟩ := pair_suffix_concat_iff.mp hsuffix
    rfl

end Fair

/-- **What holds under strong protection** before the decision on frame `n`: from the first render
    on, no frame has been skipped. -/
structure Steady (fs : List Nat) (n : Nat) : Prop where
  kept : ∀ x ∈ fs, ∀ f, x ≤ f → f < n → f ∈ fs
  recent : ∀ y, fs.getLast? = some y → y + 1 = n

namespace Steady

theorem nil (n : Nat) : Steady [] n := by
  constructor <;> simp

theorem skip (h : Steady fs n) (hnone : fs.getLast? = none) : Steady fs (n + 1) := by
  obtain rfl := List.getLast?_eq_none_iff.mp hnone
  exact nil (n + 1)

theorem render (h : Steady fs n) : Steady (fs ++ [n]) (n + 1) where
  kept := by
    intro x hx f hle hlt
    rcases Nat.lt_succ_iff_lt_or_eq.mp hlt with hlt | rfl
    · rcases List.mem_append.mp hx with hx | hx
      · exact List.mem_append_left _ (h.kept x hx f hle hlt)
      · have := List.mem_singleton.mp hx
        omega
    · exact List.mem_append_right _ (List.mem_singleton_self f)
  recent := by
    intro y hy
    rw [List.getLast?_concat] at hy
    rw [Option.some.inj hy]

end Steady

namespace Remembers

variable {a : Adaptive}

/-- What weak protection lets go by was not needed. -/
theorem weak_skip (h : Remembers a fs) (hweak : a.tuning.parity = .weak) (hfair : Fair fs n)
    (hskip : a.protects n ≠ true) : Fair fs (n + 1) := by
  refine hfair.skip ?_
  rintro ⟨x, y, hsuffix, hsame⟩
  -- The pair has only just been made, so this frame is of the other field.
  have hother : ¬SameField y n := by
    rw [← hfair.recent x y hsuffix hsame]
    exact not_sameField_succ y
  exact hskip ((Adaptive.protects_weak_iff h hweak).mpr ⟨x, y, hsuffix, hsame, hother⟩)

/-- What strong protection lets go by comes before the first render. -/
theorem strong_skip (h : Remembers a fs) (hstrong : a.tuning.parity = .strong)
    (hsteady : Steady fs n) (hskip : a.protects n ≠ true) : Steady fs (n + 1) := by
  refine hsteady.skip ?_
  by_contra hsome
  obtain ⟨y, hy⟩ := Option.ne_none_iff_exists'.mp hsome
  have hother : ¬SameField y n := by
    rw [← hsteady.recent y hy]
    exact not_sameField_succ y
  exact hskip ((Adaptive.protects_strong_iff h hstrong).mpr ⟨y, hy, hother⟩)

end Remembers

end

/-! ### Controllers over consecutive frames -/

/-- What is skipped is not protected. -/
theorem Controller.protects_of_skip {c : Controller} {frame : Nat} {force : Bool}
    (h : (c.choose frame force).render = false) : c.policy.protects frame ≠ true := by
  intro hprotects
  unfold choose at h
  rw [if_pos hprotects] at h
  split_ifs at h

/-- **A controller with an adaptive policy,** before the decision on frame `n`, with its decisions
    since frame `first`. -/
structure Watched (tuning : Tuning) (first n : Nat) (h : History) : Prop where
  policy : ∃ a, h.controller.policy = .adaptive a ∧ a.tuning = tuning ∧
    Remembers a (renderedFrom first h.rulings)
  decisions : first + h.rulings.length = n
  fair : tuning.parity = .weak → Fair (renderedFrom first h.rulings) n
  steady : tuning.parity = .strong → Steady (renderedFrom first h.rulings) n

namespace Watched

variable {tuning : Tuning} {first n : Nat} {h : History}

theorem start {a : Adaptive} (c : Controller) (hpolicy : c.policy = .adaptive a) (first : Nat) :
    Watched a.tuning first first ⟨c.reset, []⟩ where
  policy := ⟨a.reset, by rw [Controller.reset, hpolicy]; rfl, rfl, .reset a⟩
  decisions := rfl
  fair := fun _ => .nil first
  steady := fun _ => .nil first

/-- Measurements change no policy. -/
theorem measure (w : Watched tuning first n h) (m : Measurement) :
    Watched tuning first n (h.call m.call) := by
  obtain ⟨c, rs⟩ := h
  cases m <;> exact ⟨w.policy, w.decisions, w.fair, w.steady⟩

/-- **One decision more.** -/
theorem decide (w : Watched tuning first n h) (force : Bool) :
    Watched tuning first (n + 1) (h.call (.decide n force)) := by
  obtain ⟨c, rs⟩ := h
  obtain ⟨a, hpolicy, htuning, hremembers⟩ := w.policy
  have hpolicy : c.policy = .adaptive a := hpolicy
  have hn : first + rs.length = n := w.decisions
  have hremembers : Remembers a (renderedFrom first rs) := hremembers
  have hrender : (History.ruling c n force).decision.render = (c.choose n force).render := rfl
  have hnext : (c.decide n force).2.policy =
      .adaptive (a.decided n (c.choose n force).render c.state).1 := by
    simp only [Controller.decide, hpolicy]
    rfl
  have hcount : first + (rs ++ [History.ruling c n force]).length = n + 1 := by
    rw [List.length_append, List.length_singleton, ← hn]
    rfl
  rw [History.call_decide]
  cases hdecided : (c.choose n force).render with
  | true =>
    have hfs : renderedFrom first (rs ++ [History.ruling c n force]) =
        renderedFrom first rs ++ [n] := by
      rw [renderedFrom_concat, hrender, hdecided, if_pos rfl, hn]
    refine ⟨⟨_, hnext, ?_, ?_⟩, hcount, ?_, ?_⟩
    · rw [hdecided]
      exact htuning
    · rw [hfs, hdecided]
      exact hremembers.render n c.state
    · intro hweak
      rw [hfs]
      exact (w.fair hweak).render
    · intro hstrong
      rw [hfs]
      exact (w.steady hstrong).render
  | false =>
    have hfs : renderedFrom first (rs ++ [History.ruling c n force]) = renderedFrom first rs := by
      rw [renderedFrom_concat, hrender, hdecided, if_neg Bool.false_ne_true, List.append_nil]
    -- A skipped frame is not a protected one.
    have hunprotected : a.protects n ≠ true := by
      have h := Controller.protects_of_skip hdecided
      rw [hpolicy] at h
      exact h
    refine ⟨⟨_, hnext, ?_, ?_⟩, hcount, ?_, ?_⟩
    · rw [hdecided]
      exact htuning
    · rw [hfs, hdecided]
      exact hremembers.skip n c.state
    · intro hweak
      rw [hfs]
      exact hremembers.weak_skip (htuning ▸ hweak) (w.fair hweak) hunprotected
    · intro hstrong
      rw [hfs]
      exact hremembers.strong_skip (htuning ▸ hstrong) (w.steady hstrong) hunprotected

end Watched

/-- **No field of a flicker effect is left out** over consecutive frames since a reset, whatever is
    forced and measured meanwhile. With weak protection, no three renders in a row are of the same
    field, and after two of one field the first frame of the other is rendered. With strong
    protection, no frame is skipped after the first render. -/
theorem fields_protected (c : Controller) (a : Adaptive) (hpolicy : c.policy = .adaptive a)
    (first : Nat) (turns : List Turn) :
    let h := (History.mk c []).run (.reset :: callsFrom first turns)
    let rendered := renderedFrom first h.rulings
    h.rulings.map (·.force) = turns.map (·.force) ∧
    (a.tuning.parity = .weak →
      (∀ x y z, [x, y, z] <:+: rendered → ¬(x % 2 = y % 2 ∧ y % 2 = z % 2)) ∧
      ∀ x y, [x, y] <:+: rendered → x % 2 = y % 2 →
        ∀ f, IsLeast {f | y < f ∧ f % 2 ≠ y % 2} f → f < first + turns.length → f ∈ rendered) ∧
    (a.tuning.parity = .strong →
      ∀ x ∈ rendered, ∀ f, x ≤ f → f < first + turns.length → f ∈ rendered) := by
  intro h rendered
  have w : Watched a.tuning first (first + turns.length) h :=
    History.run_callsFrom (fun _ _ m w => w.measure m) (fun _ _ force w => w.decide force)
      (.start c hpolicy first) turns
  refine ⟨History.forces_callsFrom _ first turns, fun hweak => ?_, fun hstrong => ?_⟩
  · refine ⟨(w.fair hweak).three, fun x y hinfix hsame f hleast hlt => ?_⟩
    -- The first frame of the other field is the next one.
    obtain rfl : f = y + 1 := by
      have hle : f ≤ y + 1 := hleast.2 ⟨Nat.lt_succ_self y, by omega⟩
      have := hleast.1.1
      omega
    rcases (w.fair hweak).followed x y hinfix hsame with hnext | hsuffix
    · exact hnext
    · have := (w.fair hweak).recent x y hsuffix hsame
      omega
  · exact (w.steady hstrong).kept

/-- A controller far behind with its frames, two of which are forced: after frames 0 and 2, frame 3
    is rendered for the sake of its field. -/
theorem field_protected_after_two_even_frames :
    let c := Controller.new (.adaptive { parity := .weak }) 8
    let behind : Turn := ⟨[.finished ⟨50000, 0, 16666⟩], false⟩
    let turns := [{ behind with force := true }, behind, { behind with force := true }, behind,
      behind, behind]
    let rendered := renderedFrom 0 ((History.mk c []).run (.reset :: callsFrom 0 turns)).rulings
    c.policy = .adaptive { tuning := { parity := .weak } } ∧ rendered = [0, 2, 3] ∧
      [0, 2] <:+: rendered ∧ IsLeast {f | 2 < f ∧ f % 2 ≠ 2 % 2} 3 ∧ 3 ∈ rendered := by
  intro c behind turns rendered
  have hrendered : rendered = [0, 2, 3] := by decide
  have hpair : [0, 2] <:+: rendered := by
    rw [hrendered]
    exact ⟨[], [3], rfl⟩
  have hleast : IsLeast {f | 2 < f ∧ f % 2 ≠ 2 % 2} 3 :=
    ⟨⟨by decide, by decide⟩, fun f hf => hf.1⟩
  exact ⟨rfl, hrendered, hpair, hleast,
    ((fields_protected c _ rfl 0 turns).2.1 rfl).2 0 2 hpair rfl 3 hleast (by decide)⟩

end ConsolePipeline.FrameSkip
