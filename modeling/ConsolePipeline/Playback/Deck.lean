import ConsolePipeline.Log.Entry
import ConsolePipeline.Playback.Dma
import ConsolePipeline.Playback.Slots

namespace ConsolePipeline.Playback

open Stereo

/-!
# What all playback strategies share

* `Stats` — the counters of a strategy.
* `Deck` — the engine, the words played so far, the word last committed, counters and log entries.
* `padded` — a frame cut short is filled up with its last word.
* `finishedSlot` — which slot a completed transfer has read.
-/

/-- Counters kept by every strategy. -/
structure Stats where
  /-- Frames committed. -/
  commits : Nat := 0
  samplesCommitted : Nat := 0
  /-- Times the hardware had to play something that was no frame. -/
  underruns : Nat := 0
  /-- Frames overwritten before they were played. -/
  overruns : Nat := 0
  /-- Completion interrupts served. -/
  irqs : Nat := 0
  /-- Rounds of busy waiting. -/
  waitSpins : Nat := 0
  /-- Words played. -/
  hardwareWords : Nat := 0
  /-- Words of time in which nothing was played. -/
  idleWords : Nat := 0
  /-- Completions whose tag was not that of the slot software had started. -/
  tagMismatches : Nat := 0
  deriving DecidableEq, Repr, Inhabited

/-- The part of a strategy's state that does not depend on the strategy. -/
structure Deck where
  engine : Engine
  /-- Every word that has reached the audio output. -/
  played : Array Word := #[]
  /-- The word last committed, with which the next frame is padded if it is empty. -/
  held : Word := silence
  stats : Stats := {}
  /-- Log entries since they were last collected. -/
  notices : Array Log.Entry := #[]
  deriving DecidableEq, Repr, Inhabited

namespace Deck

/-- Note an entry about transfers. -/
def note (d : Deck) (level : Log.Level) (text : String) : Deck :=
  { d with notices := d.notices.push ⟨.dma, level, text⟩ }

/-- Count an underrun and note it. -/
def underrun (d : Deck) (text : String) : Deck :=
  { d with stats := { d.stats with underruns := d.stats.underruns + 1 } }.note .warn text

/-- Count a committed frame of `length` words, of which `held` is the last. -/
def committed (d : Deck) (held : Word) (length : Nat) : Deck :=
  { d with
    held
    stats := { d.stats with
      commits := d.stats.commits + 1
      samplesCommitted := d.stats.samplesCommitted + length } }

/-- Count one round of busy waiting. -/
def spun (d : Deck) : Deck :=
  { d with stats := { d.stats with waitSpins := d.stats.waitSpins + 1 } }

/-- One transfer step of up to `limit` words: what is put out is played, and the time that passes
    is counted as busy or idle. -/
def transfer (memory : Array (Array Word)) (limit : Nat) : Run Deck Step := fun d =>
  match d.engine.step memory limit with
  | .error e => .error e d
  | .ok (step, out, engine) =>
    let stats := if step.idle then
        { d.stats with idleWords := d.stats.idleWords + step.transferred }
      else
        { d.stats with hardwareWords := d.stats.hardwareWords + step.transferred }
    match d with
    | ⟨_, played, held, _, notices⟩ => .ok step ⟨engine, played ++ out, held, stats, notices⟩

/-- Serve a channel's completion interrupt: its bit is cleared, the mailbox emptied. The answer is
    the tag found there. -/
def serve (ch : ChannelId) : Run Deck (Option Nat) := fun d =>
  let (tag, engine) := (d.engine.clearPending (Engine.bit ch)).takeMail
  .ok tag { d with engine, stats := { d.stats with irqs := d.stats.irqs + 1 } }

end Deck

/-- A frame of which `count` words are written, filled up with the last of them, or with
    `fallback` if there is none; and the word it was filled up with. -/
def padded (words : Array Word) (count : Nat) (fallback : Word) : Array Word × Word :=
  let count := min count words.size
  let hold := if 0 < count then words.getD (count - 1) fallback else fallback
  (words.extract 0 count ++ Array.replicate (words.size - count) hold, hold)

/-- How an entry shows a number that may be missing. -/
def optionText : Option Nat → String
  | some n => s!"Some({n})"
  | none => "None"

/-- The slot that a completed transfer has read, from the mailbox tag and from what software last
    started on the channel. If they disagree, which the flag tells, the tag holds only if it names
    a slot that is draining. -/
def finishedSlot (tag started : Option Nat) (slots : Slots) : Option Nat × Bool :=
  let tagged := tag.filter (· < slots.count)
  if tagged.isSome ∧ tagged = started then (tagged, false)
  else match tagged with
    | some slot => (if slots.state? slot = some .draining then some slot else started, true)
    | none => (started, true)

/-- Count and note a tag that disagrees with what software started. -/
def Deck.mismatch (d : Deck) (tag started : Option Nat) : Deck :=
  { d with stats := { d.stats with tagMismatches := d.stats.tagMismatches + 1 } }.note .warn
    s!"completion tag {optionText tag} disagrees with started slot {optionText started}"

/-- Note a commit that no acquired slot belongs to. -/
def Deck.strayCommit (d : Deck) : Deck :=
  d.note .error "commit without an acquired slot"

end ConsolePipeline.Playback
