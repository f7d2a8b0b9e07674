import ConsolePipeline.Config.File
import ConsolePipeline.Proofs.Json.Codec

namespace ConsolePipeline

open FrameSkip Json Mixing Playback

/-!
# Saved configurations

A configuration that is written to a file is read back from it, whichever values it holds: each
field has a codec that reads back what it writes, and the record of the fields therefore has one.
Only the policy for skipping frames needs a closer look. Its kind is one of the members of its
object, and the object is held in memory first, so it must not be nested too deep and no number in
it may be too large; what is written for a policy is flat, and its numbers have 32 bits.

* `FrameSkip.Selection.codec_faithful` — policies.
* `Config.codec_faithful` — configurations.
* `Config.load_document`, `Config.load_text` — what loading a file gives, and the file of a
  configuration.
* `Config.load_saved` — a checked configuration is loaded as it was saved.
-/

namespace FrameSkip

theorem Level.codec_faithful : Level.codec.Faithful :=
  Codec.choice_faithful (by decide) fun l => by cases l <;> decide

@[simp] theorem Parity.codec_faithful : Parity.codec.Faithful :=
  Codec.choice_faithful (by decide) fun p => by cases p <;> decide

theorem Tuning.codec_faithful : Tuning.codec.Faithful := by
  apply Codec.record_faithful
  · decide
  · intro t
    simp [Tuning.fields]
  · intro t
    simp [Tuning.fields]

namespace Selection

/-! ### Policies -/

/-- No number of 32 bits is too large for a double. -/
theorem overflows_uint32 (n : UInt32) : (Number.ofNat n.toNat).overflows = false := by
  have h : n.toNat < 2 ^ 32 := n.toNat_lt
  have hdouble : nearestDouble n.toNat = n.toNat := by
    rw [nearestDouble, if_pos (by omega)]
  have hone : nearestDouble 1 = 1 := by decide
  have hlimit : 2 ^ 32 ≤ doubleLimit := by decide +kernel
  have hleading : leadingDigits n.toNat = (n.toNat, 0) := by
    rw [leadingDigits, if_pos (by omega)]
  simp [Number.overflows, Number.ofNat, hleading, hdouble, hone, maxTenExponent]
  omega

@[simp] theorem isSound_uint32 (n : UInt32) : (Codec.uint32.write n).isSound := by
  simp [Codec.uint32, Codec.unsigned, Value.ofNat, Value.isSound, overflows_uint32]

@[simp] theorem depth_uint32 (n : UInt32) : (Codec.uint32.write n).depth = 0 := rfl

@[simp] theorem isSound_parity (p : Parity) : (Parity.codec.write p).isSound := rfl

@[simp] theorem depth_parity (p : Parity) : (Parity.codec.write p).depth = 0 := rfl

/-- What is written for a policy can be held in memory: it is flat, and every part of it is
    sound. -/
theorem toValue_held (s : Selection) : s.toValue.isSound ∧ s.toValue.depth ≤ maxDepth := by
  cases s with
  | pattern level => exact ⟨rfl, (by decide : 1 ≤ maxDepth)⟩
  | adaptive t =>
    simp [toValue, Value.record, Value.ofString, Tuning.fields, Member.of, Value.isSound,
      Value.isSound.membersSound, Value.depth, Value.depth.membersDepth, maxDepth]

/-- The kind of a policy that was written is found, and the rest is what goes with it. -/
theorem splitKind?_toValue (s : Selection) : splitKind? s.toValue = some (match s with
    | .pattern level => ("pattern", .object [(some "level", Level.codec.write level)])
    | .adaptive t => ("adaptive", Tuning.codec.write t)) := by
  cases s with
  | pattern level => rfl
  | adaptive t => rfl

theorem toValue_legible (s : Selection) : s.toValue.Legible := by
  cases s with
  | pattern level => exact ⟨rfl, rfl, rfl, Level.codec_faithful.legible level, trivial⟩
  | adaptive t => exact ⟨rfl, rfl, Tuning.codec_faithful.legible t⟩

@[simp] theorem codec_faithful : codec.Faithful where
  legible := toValue_legible
  reads s := by
    have hheld := toValue_held s
    have hsplit := splitKind?_toValue s
    simp only [codec, hheld.1, hheld.2, hsplit, decide_true, Bool.and_true, if_true,
      Option.bind_some]
    cases s with
    | pattern level => cases level <;> rfl
    | adaptive t =>
      simp [ofKind?, Tuning.codec_faithful.reads t]

end Selection

end FrameSkip

/-! ### Configurations -/

@[simp] theorem Region.codec_faithful : Region.codec.Faithful :=
  Codec.choice_faithful (by decide) fun r => by cases r <;> decide

@[simp] theorem Playback.Strategy.codec_faithful : Strategy.codec.Faithful :=
  Codec.choice_faithful (by decide) fun s => by cases s <;> decide

@[simp] theorem Playback.Pacing.codec_faithful : Pacing.codec.Faithful :=
  Codec.choice_faithful (by decide) fun p => by cases p <;> decide

@[simp] theorem Mixing.MixerConfig.codec_faithful : MixerConfig.codec.Faithful := by
  apply Codec.record_faithful
  · decide
  · intro c
    simp
  · intro c
    simp

@[simp] theorem Playback.RingConfig.codec_faithful : RingConfig.codec.Faithful := by
  apply Codec.record_faithful
  · decide
  · intro c
    simp
  · intro c
    simp

@[simp] theorem Mixing.Controls.codec_faithful : Controls.codec.Faithful := by
  apply Codec.record_faithful
  · decide
  · intro c
    simp
  · intro c
    simp

namespace Config

/-- **Every configuration is read back from what is written for it.** -/
theorem codec_faithful : codec.Faithful := by
  have hchannels : (Codec.pair Codec.uint64).Faithful := Codec.pair_faithful Codec.uint64_faithful
  apply Codec.record_faithful
  · decide
  · intro c
    simp [fields, hchannels]
  · intro c
    simp [fields, hchannels]

/-- What is loaded from a document. -/
theorem load_document {v : Value} {s : String} (h : v.Document s) :
    load (some s.toUTF8) = match codec.read? v with
      | none => .error .malformed
      | some c => match c.check with
        | .ok () => .ok c
        | .error reason => .error (.invalid reason) := by
  have hutf8 : String.fromUTF8? s.toUTF8 = some s := dif_pos s.isValidUTF8
  simp only [load, Option.bind_some, hutf8, ofText, parse?_document h]
  cases codec.read? v with
  | none => rfl
  | some c => cases c.check <;> rfl

/-- **What loading the file of a configuration gives:** the configuration itself, or the reason why
    no pipeline can be built from it. -/
theorem load_text (c : Config) :
    load (some c.text.toUTF8) = match c.check with
      | .ok () => .ok c
      | .error reason => .error (.invalid reason) := by
  have hdocument : (codec.write c).Document c.text :=
    Value.document_pretty (codec_faithful.legible c)
  rw [load_document hdocument, codec_faithful.reads]

/-- **A configuration that passes the check is loaded as it was saved,** and saving what was loaded
    leaves the same bytes. -/
theorem load_saved (c : Config) (h : c.check = .ok ()) :
    load (some c.text.toUTF8) = .ok c ∧
      ∀ c', load (some c.text.toUTF8) = .ok c' → c'.text.toUTF8 = c.text.toUTF8 := by
  have hload : load (some c.text.toUTF8) = .ok c := by
    rw [load_text, h]
  refine ⟨hload, ?_⟩
  intro c' hc'
  rw [hload, Except.ok.injEq] at hc'
  rw [← hc']

/-- A console of the other region that adapts its skips, with numbers at both ends of their
    range. -/
def restless : Config where
  region := .pal
  skipPolicy := .adaptive { defaultRenderCostUs := 4294967295, paydownDen := 0, parity := .strong }
  strategy := .chained
  pacing := .realTime
  channels := (11, 0)
  ring := { size := 18446744073709551615 }

theorem load_saved_restless :
    restless.check = .ok () ∧ load (some restless.text.toUTF8) = .ok restless ∧
      ∀ c', load (some restless.text.toUTF8) = .ok c' → c'.text.toUTF8 = restless.text.toUTF8 := by
  have hcheck : restless.check = .ok () := rfl
  exact ⟨hcheck, load_saved restless hcheck⟩

end Config

end ConsolePipeline
