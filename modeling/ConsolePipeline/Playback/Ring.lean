import ConsolePipeline.Playback.Deck

namespace ConsolePipeline.Playback

open Stereo

/-!
# Ring playback

One large ring that a single channel reads in ring mode and never stops. Software keeps a write
cursor and learns from the live read address how far playback has got. It waits only while the space
ahead of the reader is smaller than a frame and a margin. Past the write cursor the ring holds a
fade of the last sample and then silence, and whatever the reader has passed is silenced behind it,
so a late frame is heard as a decay and never as an old lap.

* `Ring.sync` — the reader's position, counted without wrapping.
* `Ring.commit` — one frame written ahead of the reader.
-/

/-- The shape of a ring. -/
structure RingConfig where
  /-- Words in the ring; rounded up to a power of two that holds two frames and the margin. -/
  size : UInt64 := 4096
  /-- Words that stay free after a write. -/
  margin : UInt64 := 256
  /-- Words past the write cursor that hold a fade; the rest of the free space is silent. -/
  guard : UInt64 := 512
  deriving DecidableEq, Repr, Inhabited

/-- The least power of two that is at least `n`. -/
def powerFrom (n : Nat) : Nat :=
  if n ≤ 1 then 1 else 1 <<< ((n - 1).log2 + 1)

/-- Words of a ring for frames of the given length. The sum is one of 64-bit numbers. -/
def RingConfig.sizeFor (c : RingConfig) (length : Nat) : Nat :=
  powerFrom (max c.size (2 * UInt64.ofNat length + c.margin)).toNat

/-- Put words at an absolute position of a ring, wrapping around. -/
def writeWrapped (words : Array Word) (pos : Nat) (ring : Array Word) : Array Word :=
  go words.size ring
where
  go : Nat → Array Word → Array Word
    | 0, ring => ring
    | n + 1, ring =>
      let i := words.size - (n + 1)
      go n (ring.setIfInBounds ((pos + i) % ring.size) (words.getD i silence))

/-- Silence `n` words from an absolute position of a ring on, wrapping around. -/
def silenceWrapped : (n pos : Nat) → Array Word → Array Word
  | 0, _, ring => ring
  | n + 1, pos, ring => silenceWrapped n (pos + 1) (ring.setIfInBounds (pos % ring.size) silence)

/-- A ring on one channel. Cursors count words since playback began and never wrap. -/
structure Ring extends Deck where
  ring : Array Word
  /-- The frame being written. -/
  staging : Array Word
  channel : ChannelId
  config : RingConfig
  /-- Pole of the fade past the write cursor. -/
  pole : Nat
  writePos : Nat := 0
  readPos : Nat := 0
  /-- The reader's place in the ring when it was last looked at. -/
  lastIndex : Nat := 0
  started : Bool := false
  /-- Whether the reader has passed the writer since the last commit. -/
  starved : Bool := false
  deriving DecidableEq, Repr, Inhabited

namespace Ring

/-- Claim the channel; nothing plays yet. -/
def new (engine : Engine) (channel length pole : Nat) (config : RingConfig) :
    Except ClaimError Ring := do
  let (channel, engine) ← engine.claim channel
  return {
    engine, channel, config, pole
    ring := Array.replicate (config.sizeFor length) silence
    staging := Array.replicate length silence }

/-- Run a computation on the shared part. -/
def onDeck {α : Type} : Run Deck α → Run Ring α :=
  Run.within fun ⟨deck, ring, staging, channel, config, pole, writePos, readPos, lastIndex, started,
      starved⟩ =>
    (deck, fun deck => ⟨deck, ring, staging, channel, config, pole, writePos, readPos, lastIndex,
      started, starved⟩)

/-- Words in the ring. -/
def size (d : Ring) : Nat :=
  d.ring.size

/-- Words committed and not played yet. -/
def fillLevel (d : Ring) : Nat :=
  d.writePos - d.readPos

/-- The reader's place in the ring, from the channel's read address. -/
def readIndex (d : Ring) : Nat :=
  wordOf (d.engine.readAddr d.channel) % d.size

/-- Words that the reader has moved on since it was last looked at. -/
def readDelta (d : Ring) : Nat :=
  (d.readIndex + d.size - d.lastIndex) % d.size

/-- Count an underrun when the reader first passes the writer. -/
def checkStarved (d : Ring) : Ring :=
  if d.writePos < d.readPos ∧ !d.starved then
    { d with
      starved := true
      toDeck := d.toDeck.underrun
        s!"ring underrun, reader {d.readPos - d.writePos} words past writer" }
  else d

/-- Bring the read cursor up to date, and silence what the reader has passed. -/
def sync (d : Ring) : Ring :=
  if d.started then
    let index := d.readIndex
    let delta := d.readDelta
    checkStarved
      { d with
        ring := silenceWrapped delta d.readPos d.ring
        lastIndex := index
        readPos := d.readPos + delta }
  else d

/-- One transfer of at most half the ring, so that the read address tells how far it went. -/
def step (limit : Nat) : Run Ring Nat := do
  let ring := (← get).ring
  let step ← onDeck (Deck.transfer #[ring] (min limit (max (ring.size / 2) 1)))
  modify sync
  return step.transferred

/-- Let the hardware play so many words. -/
def advance (words : Nat) : Run Ring Unit :=
  Run.elapse step words

/-- One round of a busy wait. -/
def spin : Run Ring Unit := do
  modify fun d => { d with toDeck := d.toDeck.spun }
  advance waitWords

/-- Space that a frame needs ahead of the reader: itself and the margin, as 64-bit numbers. -/
def frameSpace (d : Ring) : Nat :=
  (UInt64.ofNat d.staging.size + d.config.margin).toNat

/-- Whether the next frame has to wait for space, as 64-bit numbers tell. A reader that is past the
    space it needs makes their difference wrap, and is never seen to have made room. -/
def mustWait (d : Ring) : Bool :=
  UInt64.ofNat d.size <
    UInt64.ofNat d.writePos + UInt64.ofNat d.frameSpace - UInt64.ofNat d.readPos

/-- Words from a position on can be wrapped around the ring once, and not more often. -/
def wrapOnce (n pos : Nat) : Run Ring Unit := do
  let size := (← get).size
  if 2 * size - pos % size < n then
    throw .outOfRange

/-- Fill the free space past the write cursor: a fade of the sample on the left of `held`, then
    silence. -/
def fillGuard (held : Word) : Run Ring Unit := do
  let d ← get
  let free := d.readPos + d.size - d.writePos
  let faded := min d.config.guard.toNat free
  wrapOnce free d.writePos
  modify fun d =>
    { d with
      ring := silenceWrapped (free - faded) (d.writePos + faded)
        (writeWrapped (fade (left held) d.pole faded) d.writePos d.ring) }

/-- Start the channel at the beginning of the ring. -/
def start (d : Ring) : Ring :=
  { d with
    engine := (d.engine.configure d.channel none (some d.size)).armAndStart d.channel
      (regionAddress 0 0) 0 0
    started := true
    lastIndex := 0 }

/-- The place for the next frame; there is always one. -/
def acquire : Run Ring (Array Word) :=
  return (← get).staging

/-- Put words over the start of the frame being written. -/
def write (words : Array Word) : Run Ring Unit :=
  modify fun d =>
    let old := d.staging
    { d with staging := words.extract 0 old.size ++ old.extract words.size old.size }

/-- Find the place of the next frame: after one frame of silence at the start; then after the last
    frame or at the reader, whichever is ahead, once there is space. -/
def makeRoom : Run Ring Unit := do
  if (← get).started then
    modify sync
    modify fun d => { d with writePos := max d.writePos d.readPos }
    let d ← get
    Run.waitWhile mustWait spin (d.writePos + d.frameSpace - d.readPos + 1)
  else
    wrapOnce (← get).staging.size 0
    modify fun d => { d with writePos := d.staging.size }

/-- Write the frame, its first `count` words being given, ahead of the reader. The first commit
    starts playback. -/
def commit (count : Nat) : Run Ring Unit := do
  let d ← get
  let (words, held) := padded d.staging count d.held
  modify fun d => { d with staging := words }
  makeRoom
  wrapOnce (← get).staging.size (← get).writePos
  modify fun d =>
    { d with
      ring := writeWrapped d.staging d.writePos d.ring
      writePos := d.writePos + d.staging.size
      starved := false }
  fillGuard held
  modify fun d => { d with toDeck := d.toDeck.committed held d.staging.size }
  unless (← get).started do
    modify start

end Ring

end ConsolePipeline.Playback
