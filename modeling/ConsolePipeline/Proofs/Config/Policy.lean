import ConsolePipeline.Proofs.Config.Saved
import ConsolePipeline.Proofs.Json.Edits

namespace ConsolePipeline

open FrameSkip Json

/-!
# Policies from edited files

The kind of a policy is found wherever it stands among the members of its object, and the others are
read as the record that goes with it. The object is held in memory until then, so what is added to
it has to be fit for that.

* `Tuning.kept`, `Selection.kept` — a policy with defaults for the members that are left out.
* `splitKind?_of_perm`, `splitKind?_none` — the kind is found if it is there once.
* `Selection.held_edited` — an edited policy can be held in memory.
* `Selection.codec_lenient` — an edited policy is read, and one with a repeated member refused.
-/

variable {e : Edits} {path : List String} {v w : Value} {ms ks ns rest : List (Text × Value)}
  {kind : String}

/-! ### Objects in memory -/

namespace Json.Value

theorem isSound_object : (object ms).isSound = true ↔ ∀ m ∈ ms, m.1.isSome ∧ m.2.isSound := by
  show isSound.membersSound ms = true ↔ _
  induction ms with
  | nil => simp [isSound.membersSound]
  | cons m ms ih => simp [isSound.membersSound, ih, and_assoc]

theorem depth_object_le {d : Nat} : (object ms).depth ≤ d + 1 ↔ ∀ m ∈ ms, m.2.depth ≤ d := by
  show depth.membersDepth ms + 1 ≤ d + 1 ↔ _
  induction ms with
  | nil => simp [depth.membersDepth]
  | cons m ms ih =>
    simp only [depth.membersDepth, List.forall_mem_cons, ← ih]
    omega

end Json.Value

namespace FrameSkip

/-! ### Tunings and levels -/

/-- A tuning with defaults for the members that are left out of the object at `path`. -/
def Tuning.kept (keeps : List String → Bool) (path : List String) (t : Tuning) : Tuning :=
  let start : Tuning := {}
  { defaultRenderCostUs :=
      if keeps (path ++ ["default_render_cost_us"]) then t.defaultRenderCostUs
      else start.defaultRenderCostUs
    thresholdDivisor :=
      if keeps (path ++ ["threshold_divisor"]) then t.thresholdDivisor else start.thresholdDivisor
    paydownNum := if keeps (path ++ ["paydown_num"]) then t.paydownNum else start.paydownNum
    paydownDen := if keeps (path ++ ["paydown_den"]) then t.paydownDen else start.paydownDen
    maxBacklogFrames :=
      if keeps (path ++ ["max_backlog_frames"]) then t.maxBacklogFrames else start.maxBacklogFrames
    audioWaitResetUs :=
      if keeps (path ++ ["audio_wait_reset_us"]) then t.audioWaitResetUs else start.audioWaitResetUs
    parity := if keeps (path ++ ["parity"]) then t.parity else start.parity }

theorem Tuning.takes (t : Tuning) :
    Member.Takes e path Tuning.fields t {} (t.kept e.keeps path) := by
  refine .of (Codec.uint32_lenient _) rfl ?_
  refine .of (Codec.uint32_lenient _) rfl ?_
  refine .of (Codec.uint32_lenient _) rfl ?_
  refine .of (Codec.uint32_lenient _) rfl ?_
  refine .of (Codec.uint32_lenient _) rfl ?_
  refine .of (Codec.uint32_lenient _) rfl ?_
  refine .of (Parity.codec_faithful.lenient (fun _ => rfl) _) rfl ?_
  exact .nil

theorem Tuning.codec_lenient (t : Tuning) : Tuning.codec.Lenient e path t (t.kept e.keeps path) :=
  Codec.record_lenient (by decide) (by simp [Tuning.fields, Member.commute_of]) t.takes

/-- A level is read if its member stays. -/
theorem Level.takes (hlevel : e.keeps (path ++ ["level"]) = true) (level : Level) :
    Member.Takes e path Level.fields (some level) Option.none (some level) := by
  have hflat : (Level.codec.write level).isFlat = true := rfl
  refine ⟨fun {all ks} hfind hks => ?_, fun f hf w hw t => ?_⟩
  · have hread := Level.codec_faithful.reads level
    cases hks with
    | keep _ hv hks =>
      cases hks
      rw [Member.readMembers_cons, Member.readOne, hfind _ List.mem_cons_self,
        hv.eq_of_flat hflat]
      show ((Level.codec.read? (Level.codec.write level)).map some).bind _ = _
      rw [hread]
      rfl
    | drop hdrop _ => exact absurd hdrop (ne_false_of_eq_true hlevel)
  · obtain rfl := List.mem_singleton.mp hf
    exact (hw.not_flat hflat).elim

theorem Level.record_lenient (hlevel : e.keeps (path ++ ["level"]) = true) (level : Level) :
    (Codec.record Level.fields Option.none).Lenient e path (some level) (some level) :=
  Codec.record_lenient (by decide) (List.pairwise_singleton _ _) (Level.takes hlevel level)

namespace Selection

/-! ### The kind -/

/-- A policy with defaults for the members that are left out. Its kind and its level stay. -/
def kept (keeps : List String → Bool) (path : List String) : Selection → Selection
  | .pattern level => .pattern level
  | .adaptive t => .adaptive (t.kept keeps path)

/-- **The kind is found wherever it stands** if it is there once; the others stay in their order. -/
theorem splitKind?_of_perm (hperm : ns.Perm ((some "kind", .ofString kind) :: rest))
    (hfresh : ∀ m ∈ rest, m.1 ≠ some "kind") :
    ∃ ns', splitKind? (.object ns) = some (kind, .object ns') ∧ ns'.Perm rest := by
  have hkind : ns.filter (fun m => m.1 == some "kind") = [(some "kind", .ofString kind)] := by
    have hnone : rest.filter (fun m => m.1 == some "kind") = [] :=
      List.filter_eq_nil_iff.mpr fun m hm => by simpa using hfresh m hm
    have hfilter := hperm.filter fun m => m.1 == some "kind"
    rw [List.filter_cons_of_pos (by simp), hnone] at hfilter
    exact List.perm_singleton.mp hfilter
  refine ⟨ns.filter fun m => m.1 != some "kind", ?_, ?_⟩
  · rw [splitKind?, hkind]
    rfl
  · have hall : rest.filter (fun m => m.1 != some "kind") = rest :=
      List.filter_eq_self.mpr fun m hm => by simpa using hfresh m hm
    have hfilter := hperm.filter fun m => m.1 != some "kind"
    rwa [List.filter_cons_of_neg (by simp), hall] at hfilter

/-- A kind that is there twice is not found. -/
theorem splitKind?_none (h : 2 ≤ ns.countP fun m => m.1 == some "kind") :
    splitKind? (.object ns) = none := by
  rw [List.countP_eq_length_filter] at h
  rw [splitKind?]
  split
  · rename_i hone
    rw [hone] at h
    exact absurd h (Nat.not_succ_le_self 1)
  · rfl

/-- The kind stays, and the others are edited. -/
theorem edited_kind (hkind : e.keeps (path ++ ["kind"]) = true)
    (h : EditedMembers e path ((some "kind", .ofString kind) :: ms) ks) :
    ∃ ks', ks = (some "kind", .ofString kind) :: ks' ∧ EditedMembers e path ms ks' := by
  cases h with
  | keep _ hv hrest =>
    rw [hv.eq_of_flat rfl]
    exact ⟨_, rfl, hrest⟩
  | drop hdrop _ => exact absurd hdrop (ne_false_of_eq_true hkind)

section Tagged

variable (hkind : e.keeps (path ++ ["kind"]) = true) (hfresh : some "kind" ∉ ms.map Prod.fst)

include hkind hfresh

/-- **The kind of an edited policy is found,** and the rest are the edited members that go with
    it. -/
theorem splitKind?_edited
    (h : Edited e path (.object ((some "kind", .ofString kind) :: ms)) w) :
    ∃ w', splitKind? w = some (kind, w') ∧ Edited e path (.object ms) w' := by
  cases h with
  | leaf hflat => cases hflat
  | @object _ _ ks added ns hkept hadded horder =>
    obtain ⟨ks', rfl, hkept'⟩ := edited_kind hkind hkept
    have hadded' : ∀ m ∈ added, m.1 ≠ some "kind" ∧ e.Adds path ms m := by
      intro m hm
      obtain ⟨hsome, hnew, hadmits⟩ := hadded m hm
      rw [List.map_cons, List.mem_cons, not_or] at hnew
      exact ⟨hnew.1, hsome, hnew.2, hadmits⟩
    obtain ⟨ns', hsplit, hperm⟩ := splitKind?_of_perm horder fun m hm => by
      rcases List.mem_append.mp hm with hm | hm
      · intro hname
        exact hfresh (hname ▸ hkept'.names_sublist.subset (List.mem_map_of_mem hm))
      · exact (hadded' m hm).1
    exact ⟨_, hsplit, .object hkept' (fun m hm => (hadded' m hm).2) hperm⟩

/-- **If a member of a policy has been repeated,** that is the kind, or it is a member that goes
    with it. -/
theorem splitKind?_repeated (hflat : ∀ m ∈ ms, m.2.isFlat = true)
    (h : Repeated e path (.object ((some "kind", .ofString kind) :: ms)) w) :
    splitKind? w = none ∨
      ∃ w', splitKind? w = some (kind, w') ∧ Repeated e path (.object ms) w' := by
  cases h with
  | @here _ _ ks added ns k m hkept horder hk hm hsame =>
    obtain ⟨ks', rfl, hkept'⟩ := edited_kind hkind hkept
    by_cases hagain : ∃ a ∈ added, a.1 = some "kind"
    · -- The kind is there twice.
      obtain ⟨a, ha, hname⟩ := hagain
      have hmore : 0 < (ks' ++ added).countP fun m => m.1 == some "kind" :=
        List.countP_pos_iff.mpr ⟨a, List.mem_append_right _ ha, by simp [hname]⟩
      refine .inl (splitKind?_none ?_)
      rw [horder.countP_eq, List.cons_append, List.countP_cons_of_pos (by simp)]
      exact Nat.succ_le_succ hmore
    · -- The kind is found, so the member that has been repeated is one of the others.
      have hother : ∀ a ∈ added, a.1 ≠ some "kind" := fun a ha hname => hagain ⟨a, ha, hname⟩
      obtain ⟨ns', hsplit, hperm⟩ := splitKind?_of_perm horder fun m hm => by
        rcases List.mem_append.mp hm with hm | hm
        · intro hname
          exact hfresh (hname ▸ hkept'.names_sublist.subset (List.mem_map_of_mem hm))
        · exact hother m hm
      have hk' : k ∈ ks' := by
        rcases List.mem_cons.mp hk with rfl | hk
        · exact absurd hsame (hother m hm)
        · exact hk
      exact .inr ⟨_, hsplit, .here hkept' hperm hk' hm hsame⟩
  | inside hv _ hrepeated =>
    rcases List.mem_cons.mp hv with hv | hv
    · -- Neither the kind nor what goes with it has members of its own.
      obtain ⟨-, rfl⟩ := Prod.mk.inj hv
      exact (hrepeated.not_flat rfl).elim
    · exact (hrepeated.not_flat (hflat _ hv)).elim

end Tagged

/-! ### Policies -/

/-- **An edited policy can be held in memory** if what is added to it can. -/
theorem held_edited (hheld : (Value.object ms).isSound ∧ (Value.object ms).depth ≤ maxDepth)
    (hflat : ∀ m ∈ ms, m.2.isFlat = true)
    (hadmits : ∀ v, e.admits path v → v.isSound ∧ v.depth < maxDepth)
    (h : Edited e path (.object ms) w) : w.isSound ∧ w.depth ≤ maxDepth := by
  cases h with
  | leaf => exact hheld
  | @object _ _ ks added ns hkept hadded horder =>
    obtain ⟨hsound, hdepth⟩ := hheld
    rw [Value.isSound_object] at hsound
    rw [maxDepth, Value.depth_object_le] at hdepth
    -- A member was there before, and flat, or has been added, and admitted.
    have hmember : ∀ m ∈ ns, (m.1.isSome ∧ m.2.isSound) ∧ m.2.depth ≤ 125 := by
      intro m hm
      rcases List.mem_append.mp (horder.mem_iff.mp hm) with hm | hm
      · have hm := (hkept.sublist_of_flat hflat).subset hm
        exact ⟨hsound m hm, hdepth m hm⟩
      · obtain ⟨hsome, -, hvalue⟩ := hadded m hm
        obtain ⟨hsound, hdepth⟩ := hadmits m.2 hvalue
        exact ⟨⟨hsome, hsound⟩, Nat.le_of_lt_succ hdepth⟩
    exact ⟨Value.isSound_object.mpr fun m hm => (hmember m hm).1,
      Value.depth_object_le.mpr fun m hm => (hmember m hm).2⟩

theorem codec_read?_object (w : Value) (hheld : w.isSound ∧ w.depth ≤ maxDepth) :
    codec.read? w = (splitKind? w).bind fun p => ofKind? p.1 p.2 := by
  simp only [codec, hheld.1, hheld.2, decide_true, Bool.and_true, if_true]

theorem codec_read?_none (w : Value) (h : ((splitKind? w).bind fun p => ofKind? p.1 p.2) = none) :
    codec.read? w = none := by
  simp only [codec]
  split
  · exact h
  · rfl

/-- A policy from the members that go with its kind. -/
theorem codec_lenient_of_kind {s s' : Selection}
    (hvalue : s.toValue = .object ((some "kind", .ofString kind) :: ms))
    (hkind : e.keeps (path ++ ["kind"]) = true) (hfresh : some "kind" ∉ ms.map Prod.fst)
    (hflat : ∀ m ∈ ms, m.2.isFlat = true)
    (hadmits : ∀ v, e.admits path v → v.isSound ∧ v.depth < maxDepth)
    (hreads : ∀ {w}, Edited e path (.object ms) w → ofKind? kind w = some s')
    (hrefuses : ∀ {w}, Repeated e path (.object ms) w → ofKind? kind w = none) :
    codec.Lenient e path s s' where
  reads := by
    intro w hw
    have hw : Edited e path s.toValue w := hw
    have hheld := s.toValue_held
    rw [hvalue] at hw hheld
    have hall : ∀ m ∈ (some "kind", .ofString kind) :: ms, m.2.isFlat = true :=
      List.forall_mem_cons.mpr ⟨rfl, hflat⟩
    -- Without its kind, the object is one of the members that go with it.
    obtain ⟨w', hsplit, hedited⟩ := splitKind?_edited hkind hfresh hw
    rw [codec_read?_object w (held_edited hheld hall hadmits hw), hsplit]
    exact hreads hedited
  refuses := by
    intro w hw
    have hw : Repeated e path s.toValue w := hw
    rw [hvalue] at hw
    refine codec_read?_none w ?_
    -- It is the kind that is repeated, or one of the members that go with it.
    obtain hsplit | ⟨w', hsplit, hrepeated⟩ := splitKind?_repeated hkind hfresh hflat hw
    · rw [hsplit]
      rfl
    · rw [hsplit]
      exact hrefuses hrepeated

/-- **An edited policy is read,** and one with a repeated member refused. -/
theorem codec_lenient (hkind : e.keeps (path ++ ["kind"]) = true)
    (hlevel : e.keeps (path ++ ["level"]) = true)
    (hadmits : ∀ v, e.admits path v → v.isSound ∧ v.depth < maxDepth) (s : Selection) :
    codec.Lenient e path s (s.kept e.keeps path) := by
  cases s with
  | pattern level =>
    have hlenient : (Codec.record Level.fields none).Lenient e path (some level) (some level) :=
      Level.record_lenient hlevel level
    have hvalue : toValue (.pattern level) =
        .object ((some "kind", .ofString "pattern") :: [(some "level", Level.codec.write level)]) :=
      rfl
    refine codec_lenient_of_kind hvalue hkind (by simp) ?_ hadmits (fun {w} hw => ?_)
      fun {w} hw => ?_
    · exact List.forall_mem_cons.mpr ⟨rfl, List.forall_mem_nil _⟩
    · simp only [ofKind?, hlenient.reads hw]
      rfl
    · simp only [ofKind?, hlenient.refuses hw]
      rfl
  | adaptive t =>
    have hlenient : Tuning.codec.Lenient e path t (t.kept e.keeps path) := t.codec_lenient
    have hvalue : toValue (.adaptive t) =
        .object ((some "kind", .ofString "adaptive") :: Member.written t Tuning.fields) := rfl
    refine codec_lenient_of_kind hvalue hkind ?_ ?_ hadmits (fun {w} hw => ?_) fun {w} hw => ?_
    · rw [Member.names_written]
      exact by decide
    · intro m hm
      -- No field of the tuning holds an object or an array.
      obtain ⟨f, hf, rfl⟩ := List.mem_map.mp hm
      simp only [Tuning.fields, List.mem_cons, List.not_mem_nil, or_false] at hf
      obtain rfl | rfl | rfl | rfl | rfl | rfl | rfl := hf <;> rfl
    · have hread : Tuning.codec.read? w = _ := hlenient.reads hw
      simp only [ofKind?, hread]
      rfl
    · have hread : Tuning.codec.read? w = _ := hlenient.refuses hw
      simp only [ofKind?, hread]
      rfl

end Selection

end FrameSkip

end ConsolePipeline
