import ConsolePipeline.Config.Basic
import ConsolePipeline.Json.Codec

namespace ConsolePipeline

open FrameSkip Json Mixing Playback

/-!
# The form of a configuration

A configuration is a JSON object with one member for each field; what is missing keeps its default.
The policy for skipping frames tells by the member `kind` which of two kinds it is, wherever that
member stands; the object is held in memory until it is found, so everything in it has to be fit for
that.

* `Config.codec`, `Selection.codec` — how they are written and read.
-/

namespace FrameSkip

/-- Nothing, as the value that goes with a name inside a policy. -/
def isVoidInPolicy : Value → Bool
  | .null | .object [] => true
  | _ => false

def Level.codec : Codec Level :=
  .choice all name isVoidInPolicy

def Parity.codec : Codec Parity :=
  .choice all name isVoidInPolicy

def Tuning.fields : List (Member Tuning) :=
  [.of "default_render_cost_us" .uint32 defaultRenderCostUs
     fun v t => { t with defaultRenderCostUs := v },
   .of "threshold_divisor" .uint32 thresholdDivisor fun v t => { t with thresholdDivisor := v },
   .of "paydown_num" .uint32 paydownNum fun v t => { t with paydownNum := v },
   .of "paydown_den" .uint32 paydownDen fun v t => { t with paydownDen := v },
   .of "max_backlog_frames" .uint32 maxBacklogFrames fun v t => { t with maxBacklogFrames := v },
   .of "audio_wait_reset_us" .uint32 audioWaitResetUs fun v t => { t with audioWaitResetUs := v },
   .of "parity" Parity.codec parity fun v t => { t with parity := v }]

def Tuning.codec : Codec Tuning :=
  .record fields {}

/-- The field of a fixed pattern. It has no default, so the level may turn out to be missing. -/
def Level.fields : List (Member (Option Level)) :=
  [{ name := "level", write := .ofOption Level.codec.write,
     read? := fun v _ => (Level.codec.read? v).map some }]

namespace Selection

/-- How deep a policy may be nested. -/
def maxDepth : Nat := 126

/-- The kind of a policy, and its value without the kind: the member `kind` of an object, or the
    head of a list. -/
def splitKind? : Value → Option (String × Value)
  | .object ms =>
    match ms.filter fun m => m.1 == some "kind" with
    | [(_, .string (some kind))] => some (kind, .object (ms.filter fun m => m.1 != some "kind"))
    | _ => none
  | .array (.string (some kind) :: vs) => some (kind, .array vs)
  | _ => none

/-- A policy of a given kind. -/
def ofKind? (kind : String) (v : Value) : Option Selection :=
  match kind with
  | "pattern" => ((Codec.record Level.fields none).read? v).join.map .pattern
  | "adaptive" => (Tuning.codec.read? v).map .adaptive
  | _ => none

/-- A policy with its kind in front. -/
def toValue : Selection → Value
  | .pattern level => .record [("kind", .ofString "pattern"), ("level", Level.codec.write level)]
  | .adaptive t =>
    .record (("kind", .ofString "adaptive") :: Tuning.fields.map fun f => (f.name, f.write t))

def codec : Codec Selection where
  write := toValue
  read? v :=
    if v.isSound && v.depth ≤ maxDepth then
      (splitKind? v).bind fun (kind, v) => ofKind? kind v
    else
      none

end Selection

end FrameSkip

/-- Nothing, as the value that goes with a name. -/
def isVoid : Value → Bool
  | .null => true
  | _ => false

def Region.codec : Codec Region :=
  .choice [ntsc, pal] name isVoid

def Playback.Strategy.codec : Codec Strategy :=
  .choice all name isVoid

def Playback.Pacing.codec : Codec Pacing :=
  .choice all name isVoid

def Mixing.MixerConfig.codec : Codec MixerConfig :=
  .record
    [.of "samples_per_frame" .uint64 samplesPerFrame fun v c => { c with samplesPerFrame := v },
     .of "crossfade_len" .uint64 crossfadeLen fun v c => { c with crossfadeLen := v },
     .of "fade_pole" .uint32 fadePole fun v c => { c with fadePole := v }]
    {}

def Playback.RingConfig.codec : Codec RingConfig :=
  .record
    [.of "size" .uint64 size fun v c => { c with size := v },
     .of "margin" .uint64 margin fun v c => { c with margin := v },
     .of "guard" .uint64 guard fun v c => { c with guard := v }]
    {}

def Mixing.Controls.codec : Codec Controls :=
  .record
    [.of "enabled" .bool enabled fun v c => { c with enabled := v },
     .of "fm_enabled" .bool fmEnabled fun v c => { c with fmEnabled := v },
     .of "psg_enabled" .bool psgEnabled fun v c => { c with psgEnabled := v },
     .of "volume" .uint8 volume fun v c => { c with volume := v }]
    {}

namespace Config

def fields : List (Member Config) :=
  [.of "region" Region.codec region fun v c => { c with region := v },
   .of "h40" .bool h40 fun v c => { c with h40 := v },
   .of "sample_rate" .uint32 sampleRate fun v c => { c with sampleRate := v },
   .of "skip_policy" Selection.codec skipPolicy fun v c => { c with skipPolicy := v },
   .of "max_consecutive_skips" .uint32 maxConsecutiveSkips
     fun v c => { c with maxConsecutiveSkips := v },
   .of "buffer_strategy" Strategy.codec strategy fun v c => { c with strategy := v },
   .of "dma_pacing" Pacing.codec pacing fun v c => { c with pacing := v },
   .of "dma_channels" (.pair .uint64) channels fun v c => { c with channels := v },
   .of "mixer" MixerConfig.codec mixer fun v c => { c with mixer := v },
   .of "ring" RingConfig.codec ring fun v c => { c with ring := v },
   .of "audio" Controls.codec audio fun v c => { c with audio := v },
   .of "profile_interval_frames" .uint32 profileInterval
     fun v c => { c with profileInterval := v }]

def codec : Codec Config :=
  .record fields {}

end Config

end ConsolePipeline
