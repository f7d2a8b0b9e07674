import ConsolePipeline.Mixing.Mixer
import ConsolePipeline.Playback.Player

namespace ConsolePipeline.Mixing

open Playback Sound

/-!
# The desk

A mixer that writes into a playback strategy: each frame, present or missing, becomes one committed
slot.
-/

/-- A mixer and the player that it feeds. -/
structure Desk where
  mixer : Mixer
  player : Player
  /-- Log entries since they were last collected. -/
  notices : Array Log.Entry := #[]
  deriving Inhabited

namespace Desk

/-- Note an entry. -/
def note (entry : Log.Entry) : Desk → Desk
  | ⟨mixer, player, notices⟩ => ⟨mixer, player, notices.push entry⟩

/-- Run a computation on the player and collect the entries it leaves. -/
def onPlayer {α : Type} (act : Run Player α) : Run Desk α :=
  Run.within (fun ⟨mixer, player, notices⟩ =>
    (player, fun player =>
      match player.takeNotices with
      | (more, player) => ⟨mixer, player, notices ++ more⟩)) act

/-- Fill the acquired slot of `length` words with the mix of a frame. -/
def fill (frame : Option FrameAudio) (controls : Controls) (length : Nat) : Run Desk Unit := do
  let mixed := (← get).mixer.mix frame controls length
  modify fun ⟨_, player, notices⟩ => ⟨mixed.mixer, player, notices.appendList mixed.notices⟩
  onPlayer (Player.write mixed.words)

/-- **Turn one frame into one committed slot.** -/
def submit (frame : Option FrameAudio) (controls : Controls) : Run Desk Unit := do
  let slot ← onPlayer Player.acquire
  fill frame controls slot.size
  onPlayer (Player.commit slot.size)

/-- Let the hardware play so many words. -/
def advance (words : Nat) : Run Desk Unit :=
  onPlayer (Player.advance words)

/-- Serve pending completions. -/
def service : Run Desk Unit :=
  onPlayer Player.service

end Desk

end ConsolePipeline.Mixing
