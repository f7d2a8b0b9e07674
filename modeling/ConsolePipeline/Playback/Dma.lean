import ConsolePipeline.Fault
import ConsolePipeline.Stereo.Word

namespace ConsolePipeline.Playback

open Stereo

/-!
# The transfer engine

Twelve channels that move words from memory to the audio output. A channel has a read address, a
count and a tag; when its count runs out it raises its bit among the pending interrupts, posts its
tag to a mailbox and starts the channel it is chained to. A channel in ring mode never runs out: its
address wraps around. Memory is a row of regions, placed `regionStride` bytes apart.

* `Engine.arm`, `start`, `configure`, `claim` — what software sets up.
* `Engine.step` — one transfer, cut at a completion and at a wrap point.
-/

/-- The number of channels. -/
def channelCount : Nat := 12

/-- A channel that exists. -/
abbrev ChannelId := Fin channelCount

instance : Inhabited ChannelId := ⟨⟨0, by decide⟩⟩

/-- The channel of a given number, which must exist. -/
def ChannelId.ofNat (n : Nat) : Except Fault ChannelId :=
  if h : n < channelCount then .ok ⟨n, h⟩ else .error (.noChannel n)

/-- Address of the first region. -/
def memoryBase : UInt32 := 0x20000000

/-- Bytes from one region to the next. -/
def regionStride : UInt32 := 0x00100000

/-- Words of hardware time that pass in one round of a busy wait. -/
def waitWords : Nat := 64

/-- Byte address of a word of a region. -/
def regionAddress (region word : Nat) : UInt32 :=
  memoryBase + UInt32.ofNat region * regionStride + UInt32.ofNat word * 4

/-- The region that an address lies in, as the engine decodes it. -/
def regionOf (address : UInt32) : Nat :=
  ((address - memoryBase) / regionStride).toNat

/-- The word within its region that an address stands for. -/
def wordOf (address : UInt32) : Nat :=
  (((address - memoryBase) % regionStride) / 4).toNat

/-- Why a channel cannot be claimed. -/
inductive ClaimError
  | noSuchChannel (channel : Nat)
  | channelClaimed (channel : Nat)
  deriving DecidableEq, Repr, Inhabited

def ClaimError.message : ClaimError → String
  | noSuchChannel n => s!"DMA channel {n} does not exist"
  | channelClaimed n => s!"DMA channel {n} is already claimed"

/-- One channel. -/
structure Channel where
  claimed : Bool := false
  busy : Bool := false
  readAddr : UInt32 := 0
  /-- Words still to be moved. -/
  remaining : Nat := 0
  /-- What is posted when the count runs out. -/
  tag : Nat := 0
  /-- The channel to start then. -/
  chainTo : Option Nat := none
  /-- Length of the ring, in ring mode. -/
  ringWords : Option Nat := none
  deriving DecidableEq, Repr, Inhabited

/-- Load address, count and tag; the channel does not run yet. -/
def Channel.arm (c : Channel) (readAddr : UInt32) (count tag : Nat) : Channel :=
  { c with readAddr, remaining := count, tag, busy := false }

/-- Run, if there is anything to move. -/
def Channel.start (c : Channel) : Channel :=
  { c with busy := c.ringWords.isSome || 0 < c.remaining }

/-- The last completed transfer's tag, until someone takes it, and how often one was posted. -/
structure Mailbox where
  last : Option Nat := none
  posted : Nat := 0
  deriving DecidableEq, Repr, Inhabited

/-- Post a tag over whatever is there. The largest 32-bit tag marks an empty box. -/
def Mailbox.post (m : Mailbox) (tag : Nat) : Mailbox :=
  ⟨if tag = 4294967295 then none else some tag, m.posted + 1⟩

/-- The whole engine. -/
structure Engine where
  channels : Vector Channel channelCount := Vector.replicate channelCount {}
  /-- Pending interrupts, one bit a channel. -/
  pending : UInt32 := 0
  mailbox : Mailbox := {}
  deriving DecidableEq, Repr, Inhabited

/-- The outcome of one transfer step. -/
structure Step where
  /-- Hardware time that passed, in words. -/
  transferred : Nat
  /-- No channel ran, so the output starved for that time. -/
  idle : Bool
  /-- The channel whose count ran out. -/
  completed : Option ChannelId
  deriving DecidableEq, Repr, Inhabited

namespace Engine

/-- The bit of a channel among the pending interrupts. -/
def bit (ch : ChannelId) : UInt32 :=
  1 <<< UInt32.ofNat ch.val

/-- One of the channels. -/
def channel (e : Engine) (ch : ChannelId) : Channel :=
  e.channels[ch]

def modifyChannel (e : Engine) (ch : ChannelId) (f : Channel → Channel) : Engine :=
  { e with channels := e.channels.set ch (f (e.channel ch)) }

/-- Take a channel for one's own. -/
def claim (e : Engine) (n : Nat) : Except ClaimError (ChannelId × Engine) :=
  if h : n < channelCount then
    let ch : ChannelId := ⟨n, h⟩
    if (e.channel ch).claimed then .error (.channelClaimed n)
    else .ok (ch, e.modifyChannel ch fun c => { c with claimed := true })
  else
    .error (.noSuchChannel n)

/-- Set chaining and ring mode. -/
def configure (e : Engine) (ch : ChannelId) (chainTo ringWords : Option Nat) : Engine :=
  e.modifyChannel ch fun c => { c with chainTo, ringWords }

/-- Load a channel without starting it. -/
def arm (e : Engine) (ch : ChannelId) (readAddr : UInt32) (count tag : Nat) : Engine :=
  e.modifyChannel ch fun c => c.arm readAddr count tag

/-- Let a channel run. -/
def start (e : Engine) (ch : ChannelId) : Engine :=
  e.modifyChannel ch Channel.start

def armAndStart (e : Engine) (ch : ChannelId) (readAddr : UInt32) (count tag : Nat) : Engine :=
  (e.arm ch readAddr count tag).start ch

/-- The live read address of a channel. -/
def readAddr (e : Engine) (ch : ChannelId) : UInt32 :=
  (e.channel ch).readAddr

def isPending (e : Engine) (ch : ChannelId) : Bool :=
  e.pending &&& bit ch != 0

/-- Clear the pending interrupts whose bits are set in `mask`. -/
def clearPending (e : Engine) (mask : UInt32) : Engine :=
  { e with pending := e.pending &&& ~~~mask }

/-- Empty the mailbox. -/
def takeMail (e : Engine) : Option Nat × Engine :=
  (e.mailbox.last, { e with mailbox := { e.mailbox with last := none } })

/-- The channel that moves words now: the lowest busy one. -/
def running? (e : Engine) : Option ChannelId :=
  (List.finRange channelCount).find? fun ch => (e.channel ch).busy

/-- Note that a channel's count has run out, and start the channel it is chained to. -/
def complete (e : Engine) (ch : ChannelId) : Except Fault Engine :=
  let c := e.channel ch
  let e := e.modifyChannel ch fun c => { c with busy := false }
  let e := { e with pending := e.pending ||| bit ch, mailbox := e.mailbox.post c.tag }
  match c.chainTo with
  | none => .ok e
  | some next => (ChannelId.ofNat next).map e.start

/-- Move up to `limit` words. The answer holds the step's outcome, the words put out and the engine
    afterwards. A step ends early where a count runs out and where a ring wraps around. -/
def step (e : Engine) (memory : Array (Array Word)) (limit : Nat) :
    Except Fault (Step × Array Word × Engine) :=
  let idle : Step := ⟨limit, true, none⟩
  if limit = 0 then .ok (idle, #[], e)
  else match e.running? with
  | none => .ok (idle, #[], e)
  | some ch =>
    let c := e.channel ch
    let region := regionOf c.readAddr
    let word := wordOf c.readAddr
    match memory[region]? with
    | none => .ok (idle, #[], e.modifyChannel ch fun c => { c with busy := false })
    | some words =>
      match c.ringWords with
      | some ring =>
        if ring < word then .error .outOfRange
        else
          let n := min limit (ring - word)
          if words.size < word + n then .error .outOfRange
          else
            let next := regionAddress region ((word + n) &&& (ring - 1))
            .ok (⟨n, false, none⟩, words.extract word (word + n),
              e.modifyChannel ch fun c => { c with readAddr := next })
      | none =>
        let n := min (min limit c.remaining) (words.size - word)
        if n = 0 then
          .ok (idle, #[], e.modifyChannel ch fun c => { c with busy := false })
        else
          let e := e.modifyChannel ch fun c =>
            { c with
              readAddr := c.readAddr + UInt32.ofNat (n * 4)
              remaining := c.remaining - n }
          let out := words.extract word (word + n)
          if c.remaining - n = 0 then
            (e.complete ch).map fun e => (⟨n, false, some ch⟩, out, e)
          else
            .ok (⟨n, false, none⟩, out, e)

end Engine

end ConsolePipeline.Playback
