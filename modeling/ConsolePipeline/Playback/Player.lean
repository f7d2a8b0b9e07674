import ConsolePipeline.Playback.Chained
import ConsolePipeline.Playback.Double
import ConsolePipeline.Playback.Ring
import ConsolePipeline.Playback.Strategy
import ConsolePipeline.Playback.Triple

namespace ConsolePipeline.Playback

open Stereo

/-!
# Players

A player is any of the four strategies, seen from the software side: acquire a place for the next
frame, write it, commit it; let hardware time pass; serve completions.
-/

/-- A playback strategy with its state. -/
inductive Player
  | double (d : Double)
  | chained (d : Chained)
  | ring (d : Ring)
  | triple (d : Triple)
  deriving DecidableEq, Inhabited

namespace Player

/-- Build a strategy on an engine. Strategies with one channel use the first. -/
def new (strategy : Strategy) (engine : Engine) (channels : Nat × Nat) (length pole : Nat)
    (config : RingConfig) : Except ClaimError Player :=
  match strategy with
  | .double => (Double.new engine channels.1 length pole).map .double
  | .chained => (Chained.new engine channels.1 channels.2 length pole).map .chained
  | .ring => (Ring.new engine channels.1 length pole config).map .ring
  | .triple => (Triple.new engine channels.1 length pole).map .triple

/-- A computation given for each strategy. -/
def cases {α : Type} (onDouble : Run Double α) (onChained : Run Chained α) (onRing : Run Ring α)
    (onTriple : Run Triple α) : Run Player α
  | .double d => match onDouble d with
    | .ok a d => .ok a (.double d)
    | .error e d => .error e (.double d)
  | .chained d => match onChained d with
    | .ok a d => .ok a (.chained d)
    | .error e d => .error e (.chained d)
  | .ring d => match onRing d with
    | .ok a d => .ok a (.ring d)
    | .error e d => .error e (.ring d)
  | .triple d => match onTriple d with
    | .ok a d => .ok a (.triple d)
    | .error e d => .error e (.triple d)

/-- The place for the next frame, as it stands. May wait for the hardware to release it. -/
def acquire : Run Player (Array Word) :=
  cases Double.acquire Chained.acquire Ring.acquire Triple.acquire

/-- Put words over the start of the acquired place. -/
def write (words : Array Word) : Run Player Unit :=
  cases (Double.write words) (Chained.write words) (Ring.write words) (Triple.write words)

/-- Hand the acquired place over; words past the first `count` repeat the last of them. -/
def commit (count : Nat) : Run Player Unit :=
  cases (Double.commit count) (Chained.commit count) (Ring.commit count) (Triple.commit count)

/-- Let the hardware play so many words. -/
def advance (words : Nat) : Run Player Unit :=
  cases (Double.advance words) (Chained.advance words) (Ring.advance words) (Triple.advance words)

/-- The hardware time of one round of a busy wait. -/
def pump : Run Player Unit :=
  advance waitWords

/-- Serve pending completions. -/
def service : Run Player Unit :=
  cases Double.service Chained.service (modify Ring.sync) Triple.service

/-- The part of the state that all strategies share. -/
def deck : Player → Deck
  | .double d => d.toDeck
  | .chained d => d.toDeck
  | .ring d => d.toDeck
  | .triple d => d.toDeck

def strategy : Player → Strategy
  | .double _ => .double
  | .chained _ => .chained
  | .ring _ => .ring
  | .triple _ => .triple

def stats (p : Player) : Stats :=
  p.deck.stats

/-- The word last committed. -/
def held (p : Player) : Word :=
  p.deck.held

/-- Every word that has reached the audio output. -/
def played (p : Player) : Array Word :=
  p.deck.played

/-- The owners of the slots, for strategies that show them. -/
def slotStates : Player → Option (Array SlotState)
  | .double d => some d.slots.states
  | .triple d => some d.slots.states
  | _ => none

/-- Log entries since they were last collected, and the player without them. -/
def takeNotices : Player → Array Log.Entry × Player
  | .double d => (d.notices, .double { d with notices := #[] })
  | .chained d => (d.notices, .chained { d with notices := #[] })
  | .ring d => (d.notices, .ring { d with notices := #[] })
  | .triple d => (d.notices, .triple { d with notices := #[] })

end Player

end ConsolePipeline.Playback
