import ConsolePipeline.Proofs.Config.Policy

namespace ConsolePipeline

open FrameSkip Json Mixing Playback

/-!
# Configurations from edited files

Loading depends only on the members that a configuration has. In a saved file, blanks may stand
anywhere between tokens, members may be put in another order, unknown ones may be added, and members
may be left out, which then have their defaults. Only a member that is there twice is refused.

The policy for skipping frames is the exception: a value that is added to it must not hold a number
too large for a double or half of a surrogate pair, and must not be nested too deep.

* `Config.kept` — a configuration with defaults for the members that are left out.
* `Config.codec_lenient` — an edited configuration is read, and one with a repeated member refused.
* `Config.load_edited` — what is loaded from an edited file.
* `Config.load_unfit_policy` — what a policy must not hold; `refuses_huge_addition` — a number that
  is too large.
-/

variable {e : Edits} {path : List String} {keeps : List String → Bool}

/-! ### What is kept -/

/-- The same with defaults for the members that are left out of the object at `path`. -/
def Mixing.MixerConfig.kept (keeps : List String → Bool) (path : List String) (c : MixerConfig) :
    MixerConfig :=
  let start : MixerConfig := {}
  { samplesPerFrame :=
      if keeps (path ++ ["samples_per_frame"]) then c.samplesPerFrame else start.samplesPerFrame
    crossfadeLen := if keeps (path ++ ["crossfade_len"]) then c.crossfadeLen else start.crossfadeLen
    fadePole := if keeps (path ++ ["fade_pole"]) then c.fadePole else start.fadePole }

/-- The same with defaults for the members that are left out of the object at `path`. -/
def Playback.RingConfig.kept (keeps : List String → Bool) (path : List String) (c : RingConfig) :
    RingConfig :=
  let start : RingConfig := {}
  { size := if keeps (path ++ ["size"]) then c.size else start.size
    margin := if keeps (path ++ ["margin"]) then c.margin else start.margin
    guard := if keeps (path ++ ["guard"]) then c.guard else start.guard }

/-- The same with defaults for the members that are left out of the object at `path`. -/
def Mixing.Controls.kept (keeps : List String → Bool) (path : List String) (c : Controls) :
    Controls :=
  let start : Controls := {}
  { enabled := if keeps (path ++ ["enabled"]) then c.enabled else start.enabled
    fmEnabled := if keeps (path ++ ["fm_enabled"]) then c.fmEnabled else start.fmEnabled
    psgEnabled := if keeps (path ++ ["psg_enabled"]) then c.psgEnabled else start.psgEnabled
    volume := if keeps (path ++ ["volume"]) then c.volume else start.volume }

/-- **A configuration with defaults for the members that are left out.** -/
def Config.kept (keeps : List String → Bool) (c : Config) : Config :=
  let start : Config := {}
  { region := if keeps ["region"] then c.region else start.region
    h40 := if keeps ["h40"] then c.h40 else start.h40
    sampleRate := if keeps ["sample_rate"] then c.sampleRate else start.sampleRate
    skipPolicy :=
      if keeps ["skip_policy"] then c.skipPolicy.kept keeps ["skip_policy"] else start.skipPolicy
    maxConsecutiveSkips :=
      if keeps ["max_consecutive_skips"] then c.maxConsecutiveSkips else start.maxConsecutiveSkips
    strategy := if keeps ["buffer_strategy"] then c.strategy else start.strategy
    pacing := if keeps ["dma_pacing"] then c.pacing else start.pacing
    channels := if keeps ["dma_channels"] then c.channels else start.channels
    mixer := if keeps ["mixer"] then c.mixer.kept keeps ["mixer"] else start.mixer
    ring := if keeps ["ring"] then c.ring.kept keeps ["ring"] else start.ring
    audio := if keeps ["audio"] then c.audio.kept keeps ["audio"] else start.audio
    profileInterval :=
      if keeps ["profile_interval_frames"] then c.profileInterval else start.profileInterval }

/-- What is kept if everything stays. -/
theorem Config.kept_all (hkeeps : ∀ p, keeps p = true) (c : Config) : c.kept keeps = c := by
  have hpolicy : c.skipPolicy.kept keeps ["skip_policy"] = c.skipPolicy := by
    cases c.skipPolicy <;> simp [Selection.kept, Tuning.kept, hkeeps]
  simp [Config.kept, MixerConfig.kept, RingConfig.kept, Controls.kept, hkeeps, hpolicy]

/-! ### Reading -/

theorem Mixing.MixerConfig.codec_lenient (c : MixerConfig) :
    MixerConfig.codec.Lenient e path c (c.kept e.keeps path) := by
  refine Codec.record_lenient (by decide) (by simp [Member.commute_of]) ?_
  refine .of (Codec.uint64_lenient _) rfl ?_
  refine .of (Codec.uint64_lenient _) rfl ?_
  refine .of (Codec.uint32_lenient _) rfl ?_
  exact .nil

theorem Playback.RingConfig.codec_lenient (c : RingConfig) :
    RingConfig.codec.Lenient e path c (c.kept e.keeps path) := by
  refine Codec.record_lenient (by decide) (by simp [Member.commute_of]) ?_
  refine .of (Codec.uint64_lenient _) rfl ?_
  refine .of (Codec.uint64_lenient _) rfl ?_
  refine .of (Codec.uint64_lenient _) rfl ?_
  exact .nil

theorem Mixing.Controls.codec_lenient (c : Controls) :
    Controls.codec.Lenient e path c (c.kept e.keeps path) := by
  refine Codec.record_lenient (by decide) (by simp [Member.commute_of]) ?_
  refine .of (Codec.bool_lenient _) rfl ?_
  refine .of (Codec.bool_lenient _) rfl ?_
  refine .of (Codec.bool_lenient _) rfl ?_
  refine .of (Codec.uint8_lenient _) rfl ?_
  exact .nil

namespace Config

/-- **An edited configuration is read,** and one with a repeated member refused. -/
theorem codec_lenient (hkind : e.keeps ["skip_policy", "kind"] = true)
    (hlevel : e.keeps ["skip_policy", "level"] = true)
    (hadmits : ∀ v, e.admits ["skip_policy"] v → v.isSound ∧ v.depth < Selection.maxDepth)
    (c : Config) : codec.Lenient e [] c (c.kept e.keeps) := by
  have hchannels : (Codec.pair Codec.uint64).Faithful := Codec.pair_faithful Codec.uint64_faithful
  refine Codec.record_lenient (by decide) (by simp [fields, Member.commute_of]) ?_
  refine .of (Region.codec_faithful.lenient (fun _ => rfl) _) rfl ?_
  refine .of (Codec.bool_lenient _) rfl ?_
  refine .of (Codec.uint32_lenient _) rfl ?_
  refine .of (Selection.codec_lenient hkind hlevel hadmits _) rfl ?_
  refine .of (Codec.uint32_lenient _) rfl ?_
  refine .of (Strategy.codec_faithful.lenient (fun _ => rfl) _) rfl ?_
  refine .of (Pacing.codec_faithful.lenient (fun _ => rfl) _) rfl ?_
  refine .of (hchannels.lenient (fun _ => rfl) _) rfl ?_
  refine .of (MixerConfig.codec_lenient _) rfl ?_
  refine .of (RingConfig.codec_lenient _) rfl ?_
  refine .of (Controls.codec_lenient _) rfl ?_
  refine .of (Codec.uint32_lenient _) rfl ?_
  exact .nil

/-- **Loading depends only on the members that a configuration has.** Take the saved form of a
    configuration that passes the check, put the members of its objects in any order, add members
    with unknown names, which in the policy hold what can be held in memory, and lay the result out
    with any blanks. It is loaded as that configuration. If members have been left out, other than
    the kind and the level of the policy, they have their defaults, provided that the result passes
    the check. If a member has been repeated, nothing is loaded. -/
theorem load_edited {c : Config} {v : Value} {s : String} (hcheck : c.check = .ok ())
    (hkind : e.keeps ["skip_policy", "kind"] = true)
    (hlevel : e.keeps ["skip_policy", "level"] = true)
    (hadmits : ∀ v, e.admits ["skip_policy"] v → v.isSound ∧ v.depth < Selection.maxDepth)
    (hs : v.Document s) :
    (Edited e [] (codec.write c) v → (∀ p, e.keeps p = true) → load (some s.toUTF8) = .ok c) ∧
      (Edited e [] (codec.write c) v → (c.kept e.keeps).check = .ok () →
        load (some s.toUTF8) = .ok (c.kept e.keeps)) ∧
      (Repeated e [] (codec.write c) v → load (some s.toUTF8) = .error .malformed) := by
  have hlenient := codec_lenient hkind hlevel hadmits c
  refine ⟨fun hv hall => ?_, fun hv hkept => ?_, fun hv => ?_⟩
  · rw [load_document hs, hlenient.reads hv, kept_all hall]
    simp only [hcheck]
  · rw [load_document hs, hlenient.reads hv]
    simp only [hkept]
  · rw [load_document hs, hlenient.refuses hv]

/-- Of a configuration, only the parity of its policy stays; simple values are added. -/
def parityOnly : Edits where
  keeps p := p ∈ [["skip_policy"], ["skip_policy", "kind"], ["skip_policy", "level"],
    ["skip_policy", "parity"]]
  admits _ v := v.isSound ∧ v.depth = 0

/-- Everything stays; simple values are added. -/
def additions : Edits where
  keeps _ := true
  admits _ v := v.isSound ∧ v.depth = 0

/-- A console that adapts its skips, from a file with a note, from one in which only the parity is
    left, and from one that gives the parity twice. -/
theorem load_edited_restless :
    (∃ v s, Value.Document v s ∧ Edited additions [] (codec.write restless) v ∧
      load (some s.toUTF8) = .ok restless) ∧
    (∃ v s, Value.Document v s ∧ Edited parityOnly [] (codec.write restless) v ∧
      load (some s.toUTF8) = .ok { skipPolicy := .adaptive { parity := .strong } }) ∧
    ∃ v s, Value.Document v s ∧ Repeated parityOnly [] (codec.write restless) v ∧
      load (some s.toUTF8) = .error .malformed := by
  have hcheck : restless.check = .ok () := rfl
  have hdepth : ∀ v : Value, v.isSound ∧ v.depth = 0 → v.isSound ∧ v.depth < Selection.maxDepth :=
    fun v hv => ⟨hv.1, hv.2 ▸ by decide⟩
  -- What is left of the policy's members, in the order of the file.
  have hkept : EditedMembers parityOnly ["skip_policy"]
      ((some "kind", .ofString "adaptive") ::
        Member.written { defaultRenderCostUs := 4294967295, paydownDen := 0, parity := .strong }
          Tuning.fields)
      [(some "kind", .ofString "adaptive"), (some "parity", .ofString "strong")] :=
    .keep rfl (.leaf rfl) <| .drop rfl <| .drop rfl <| .drop rfl <| .drop rfl <| .drop rfl <|
      .drop rfl <| .keep rfl (.leaf rfl) .nil
  refine ⟨?_, ?_, ?_⟩
  · let v : Value := .object ((some "note", .null) :: Member.written restless fields)
    have hlegible : (codec.write restless).Legible := codec_faithful.legible restless
    rw [codec, Codec.record_write] at hlegible
    have hv : Edited additions [] (codec.write restless) v := by
      rw [codec, Codec.record_write]
      refine .object (.refl (fun _ => rfl) [] _ hlegible) ?_ (List.perm_append_singleton _ _).symm
      intro m hm
      obtain rfl := List.mem_singleton.mp hm
      exact ⟨rfl, by decide, rfl, rfl⟩
    have hs : v.Document v.pretty := Value.document_pretty ⟨rfl, trivial, hlegible⟩
    obtain ⟨hload, -, -⟩ := load_edited (e := additions) hcheck rfl rfl hdepth hs
    exact ⟨v, _, hs, hv, hload hv fun _ => rfl⟩
  · let policy : Value := .record [("parity", .ofString "strong"), ("kind", .ofString "adaptive")]
    let v : Value := .record [("skip_policy", policy)]
    have hpolicy : Edited parityOnly ["skip_policy"] restless.skipPolicy.toValue policy :=
      .object hkept (List.forall_mem_nil _) (.swap _ _ [])
    have hv : Edited parityOnly [] (codec.write restless) v :=
      .object (.drop rfl <| .drop rfl <| .drop rfl <| .keep rfl hpolicy <| .drop rfl <| .drop rfl <|
        .drop rfl <| .drop rfl <| .drop rfl <| .drop rfl <| .drop rfl <| .drop rfl .nil)
        (List.forall_mem_nil _) (List.Perm.refl _)
    have hs : v.Document v.pretty :=
      Value.document_pretty ⟨rfl, ⟨rfl, rfl, rfl, rfl, trivial⟩, trivial⟩
    obtain ⟨-, hload, -⟩ := load_edited (e := parityOnly) hcheck rfl rfl hdepth hs
    exact ⟨v, _, hs, hv, hload hv rfl⟩
  · let policy : Value := .record [("kind", .ofString "adaptive"), ("parity", .ofString "strong"),
      ("parity", .ofString "weak")]
    let v : Value := .record [("skip_policy", policy)]
    have hpolicy : Repeated parityOnly ["skip_policy"] restless.skipPolicy.toValue policy :=
      .here hkept (List.Perm.refl _) (List.mem_cons_of_mem _ List.mem_cons_self)
        List.mem_cons_self rfl
    have hv : Repeated parityOnly [] (codec.write restless) v :=
      .inside (List.mem_of_getElem? (i := 3) rfl) List.mem_cons_self hpolicy
    have hs : v.Document v.pretty :=
      Value.document_pretty ⟨rfl, ⟨rfl, rfl, rfl, rfl, rfl, rfl, trivial⟩, trivial⟩
    obtain ⟨-, -, hload⟩ := load_edited (e := parityOnly) hcheck rfl rfl hdepth hs
    exact ⟨v, _, hs, hv, hload hv⟩

/-! ### What is refused -/

/-- **A policy that cannot be held in memory is refused,** whatever else the file holds. -/
theorem load_unfit_policy {ms : List (Text × Value)} {policy : Value} {s : String}
    (hs : (Value.object ms).Document s) (hpolicy : (some "skip_policy", policy) ∈ ms)
    (hunfit : ¬(policy.isSound ∧ policy.depth ≤ Selection.maxDepth)) :
    load (some s.toUTF8) = .error .malformed := by
  have hrefused : Selection.codec.read? policy = none := by
    simp only [Selection.codec, Bool.and_eq_true, decide_eq_true_eq, hunfit, if_false]
  have hread : codec.read? (.object ms) = none := by
    refine Codec.record_read?_none (.inl (Member.readMembers_none (f := .of "skip_policy"
      Selection.codec skipPolicy fun v c => { c with skipPolicy := v }) rfl hpolicy (fun c => ?_) _))
    show (Selection.codec.read? policy).map _ = none
    rw [hrefused]
    rfl
  rw [load_document hs, hread]

/-- A policy with a member of which nothing is known and whose value is too large. -/
def hugePolicy : Value :=
  .record [("kind", .ofString "pattern"), ("level", .ofString "high"),
    ("x", .number ⟨false, 1, 999, false⟩)]

/-- The saved form of the defaults with that policy. -/
def hugeAddition : Value :=
  .object ((Member.written ({} : Config) fields).take 3 ++ (some "skip_policy", hugePolicy) ::
    (Member.written ({} : Config) fields).drop 4)

/-- **Not every value may be added to a policy:** with a number among its members that is too large
    for a double, the file of the defaults is refused. -/
theorem refuses_huge_addition :
    ({} : Config).check = .ok () ∧ hugeAddition.Document hugeAddition.pretty ∧
      Edited ⟨fun _ => true, fun _ v => v.depth = 0⟩ [] (codec.write {}) hugeAddition ∧
      load (some hugeAddition.pretty.toUTF8) = .error .malformed := by
  let e : Edits := ⟨fun _ => true, fun _ v => v.depth = 0⟩
  have hkeeps : ∀ p, e.keeps p = true := fun _ => rfl
  have hsame : ∀ {p v}, Value.Legible v → Edited e p v v := fun h => .refl hkeeps _ _ h
  have hlegible : Value.Legible.membersLegible (Member.written ({} : Config) fields) := by
    have hwritten := codec_faithful.legible ({} : Config)
    rwa [codec, Codec.record_write] at hwritten
  obtain ⟨-, hregion, -, hwide, -, hrate, -, -, hrest⟩ := hlegible
  -- The addition is a member of the policy; all else is the file of the defaults.
  have hpolicy : Edited e ["skip_policy"] (Selection.toValue (.pattern .high)) hugePolicy := by
    refine .object (.refl hkeeps _ _ ⟨rfl, rfl, rfl, rfl, trivial⟩) ?_ (List.Perm.refl _)
    intro m hm
    obtain rfl := List.mem_singleton.mp hm
    exact ⟨rfl, by decide, rfl⟩
  have hsettled : Number.Settled ⟨false, 1, 999, false⟩ := fun hplain => absurd hplain (by decide)
  have hs : hugeAddition.Document hugeAddition.pretty :=
    Value.document_pretty ⟨rfl, hregion, rfl, hwide, rfl, hrate, rfl,
      ⟨rfl, rfl, rfl, rfl, rfl, hsettled, trivial⟩, hrest⟩
  refine ⟨rfl, hs, ?_, ?_⟩
  · exact .object (.keep rfl (hsame hregion) <| .keep rfl (hsame hwide) <|
      .keep rfl (hsame hrate) <| .keep rfl hpolicy <| .refl hkeeps _ _ hrest)
      (List.forall_mem_nil _) (List.Perm.refl _)
  · have hleading : leadingDigits 1 = (1, 0) := by rw [leadingDigits, if_pos (by decide)]
    -- With an exponent of 999 the number overflows, so the policy cannot be held in memory.
    have hhuge : Number.overflows ⟨false, 1, 999, false⟩ = true := by
      simp [Number.overflows, hleading, maxTenExponent]
    have hsound : hugePolicy.isSound = false := by
      simp [hugePolicy, Value.record, Value.isSound, Value.isSound.membersSound, hhuge]
    exact load_unfit_policy hs (List.mem_of_getElem? (i := 3) rfl) fun hfit =>
      ne_true_of_eq_false hsound hfit.1

end Config

end ConsolePipeline
