import ConsolePipeline.Playback.Player
import ConsolePipeline.Proofs.Playback.Lockstep.Chained
import ConsolePipeline.Proofs.Playback.Lockstep.Double
import ConsolePipeline.Proofs.Playback.Lockstep.Ring
import ConsolePipeline.Proofs.Playback.Lockstep.Triple

namespace ConsolePipeline.Playback

open Stereo

/-!
# Players in lockstep

A player does what its strategy does, so whatever holds of the strategy in lockstep holds of the
player.

* `Rig.Embeds` — one rig inside another; `Lockstep.embed` — it takes its lockstep along.
* `Strategy.heard` — what each strategy lets one hear of the frames taken in.
* `Player.Ready` — a player that is at rest; `Player.new_double`, `new_triple`, `new_chained`,
  `new_ring` — a new one of each strategy is.
-/

/-! ### One rig inside another -/

/-- **One rig inside another:** what it does, the other does where it has been put. -/
structure Rig.Embeds {σ τ : Type} (R : Rig σ) (S : Rig τ) (put : σ → τ) : Prop where
  advance : ∀ {n d d'}, R.advance n d = .ok () d' → S.advance n (put d) = .ok () (put d')
  acquire : ∀ {place d d'}, R.acquire d = .ok place d' → S.acquire (put d) = .ok place (put d')
  write : ∀ {words d d'}, R.write words d = .ok () d' → S.write words (put d) = .ok () (put d')
  commit : ∀ {n d d'}, R.commit n d = .ok () d' → S.commit n (put d) = .ok () (put d')
  service : ∀ {d d'}, R.service d = .ok () d' → S.service (put d) = .ok () (put d')
  forget : ∀ d, S.forget (put d) = put (R.forget d)
  deck : ∀ d, S.deck (put d) = R.deck d

/-- A rig takes its lockstep along. -/
def Lockstep.embed {σ τ : Type} {R : Rig σ} {S : Rig τ} {put : σ → τ} {len : Nat}
    {heard : List (Array Word) → List Word} (L : Lockstep R len heard) (h : R.Embeds S put) :
    Lockstep S len heard where
  At t p := ∃ d, put d = p ∧ L.At t d
  advance := by
    rintro frames _ ⟨d, rfl, hat⟩
    obtain ⟨d', hd', hat'⟩ := L.advance hat
    exact ⟨put d', h.advance hd', d', rfl, hat'⟩
  acquire := by
    rintro frames _ ⟨d, rfl, hat⟩
    obtain ⟨place, d', hd', hsize, hat'⟩ := L.acquire hat
    exact ⟨place, put d', h.acquire hd', hsize, d', rfl, hat'⟩
  write := by
    rintro frames _ words ⟨d, rfl, hat⟩ hwords
    obtain ⟨d', hd', hat'⟩ := L.write hat hwords
    exact ⟨put d', h.write hd', d', rfl, hat'⟩
  commit := by
    rintro frames _ words ⟨d, rfl, hat⟩ hwords
    obtain ⟨d', hd', hat'⟩ := L.commit hat hwords
    exact ⟨put d', h.commit hd', d', rfl, hat'⟩
  service := by
    rintro frames _ ⟨d, rfl, hat⟩
    obtain ⟨d', hd', hat'⟩ := L.service hat
    exact ⟨put d', h.service hd', d', rfl, hat'⟩
  forget := by
    rintro t _ ⟨d, rfl, hat⟩
    exact ⟨R.forget d, (h.forget d).symm, L.forget hat⟩
  even := by
    rintro frames _ ⟨d, rfl, hat⟩
    rw [h.deck]
    exact L.even hat
  played := by
    rintro frames _ ⟨d, rfl, hat⟩
    rw [h.deck]
    exact L.played hat

/-! ### What is heard -/

/-- **What has been heard of frames taken in in lockstep.** Frames are heard two frames late, after
    a frame of silence where a ring plays; with three slots they are heard one frame late, after
    two copies of the first. -/
def Strategy.heard (len : Nat) (frames : List (Array Word)) : Strategy → List Word
  | double => delayed 2 frames
  | chained => delayed 2 frames
  | ring => delayed 2 (Ring.withLead len frames)
  | triple => delayed 3 (Triple.withCopies frames)

/-! ### Claims -/

namespace Engine

variable {e e' : Engine} {ch : ChannelId} {n : Nat}

theorem claim_ok (hn : n < channelCount) (hfree : (e.channel ⟨n, hn⟩).claimed = false) :
    e.claim n = .ok (⟨n, hn⟩, e.modifyChannel ⟨n, hn⟩ fun c => { c with claimed := true }) := by
  rw [claim, dif_pos hn]
  simp only []
  rw [if_neg]
  rw [hfree]
  exact Bool.false_ne_true

/-- No channel of a new engine has been claimed. -/
theorem claimed_fresh (hn : n < channelCount) :
    (({} : Engine).channel ⟨n, hn⟩).claimed = false := by
  simp [channel, Vector.getElem_replicate]

end Engine

namespace Player

variable {len pole : Nat} {channels : Nat × Nat} {config : RingConfig}

/-! ### A player is its strategy -/

/-- A player as a desk uses it. -/
def rig : Rig Player where
  acquire := acquire
  write := write
  commit := commit
  advance := advance
  place
    | .double d => Double.port.place d
    | .chained d => Chained.port.place d
    | .ring d => Ring.port.place d
    | .triple d => Triple.port.place d
  deck := deck
  service := service
  forget p := p.takeNotices.2

section Cases

variable {α : Type} {onDouble : Run Double α} {onChained : Run Chained α} {onRing : Run Ring α}
  {onTriple : Run Triple α} {a : α}

theorem cases_double {d d' : Double} (h : onDouble d = .ok a d') :
    cases onDouble onChained onRing onTriple (.double d) = .ok a (.double d') := by
  rw [cases, h]

theorem cases_chained {d d' : Chained} (h : onChained d = .ok a d') :
    cases onDouble onChained onRing onTriple (.chained d) = .ok a (.chained d') := by
  rw [cases, h]

theorem cases_ring {d d' : Ring} (h : onRing d = .ok a d') :
    cases onDouble onChained onRing onTriple (.ring d) = .ok a (.ring d') := by
  rw [cases, h]

theorem cases_triple {d d' : Triple} (h : onTriple d = .ok a d') :
    cases onDouble onChained onRing onTriple (.triple d) = .ok a (.triple d') := by
  rw [cases, h]

end Cases

theorem embeds_double : Double.rig.Embeds rig .double := by
  refine ⟨fun h => ?_, fun h => ?_, fun h => ?_, fun h => ?_, fun h => ?_, fun _ => rfl,
    fun _ => rfl⟩
  all_goals
    simp only [rig, acquire, write, commit, advance, service]
    exact cases_double h

theorem embeds_chained : Chained.rig.Embeds rig .chained := by
  refine ⟨fun h => ?_, fun h => ?_, fun h => ?_, fun h => ?_, fun h => ?_, fun _ => rfl,
    fun _ => rfl⟩
  all_goals
    simp only [rig, acquire, write, commit, advance, service]
    exact cases_chained h

theorem embeds_ring : Ring.rig.Embeds rig .ring := by
  refine ⟨fun h => ?_, fun h => ?_, fun h => ?_, fun h => ?_, fun h => ?_, fun _ => rfl,
    fun _ => rfl⟩
  all_goals
    simp only [rig, acquire, write, commit, advance, service]
    exact cases_ring h

theorem embeds_triple : Triple.rig.Embeds rig .triple := by
  refine ⟨fun h => ?_, fun h => ?_, fun h => ?_, fun h => ?_, fun h => ?_, fun _ => rfl,
    fun _ => rfl⟩
  all_goals
    simp only [rig, acquire, write, commit, advance, service]
    exact cases_triple h

/-! ### New players -/

/-- A player that can be used in lockstep from the start. -/
def Ready (strategy : Strategy) (len : Nat) (p : Player) : Prop :=
  ∃ L : Lockstep rig len fun frames => strategy.heard len frames, L.At (.rest []) p

theorem new_double (hpos : 0 < len) (hlen : len ≤ regionWords)
    (hfirst : channels.1 < channelCount) :
    ∃ p, new .double {} channels len pole config = .ok p ∧ Ready .double len p := by
  have hclaim := Engine.claim_ok hfirst (Engine.claimed_fresh hfirst)
  obtain ⟨d, hnew⟩ : ∃ d, Double.new {} channels.1 len pole = .ok d := by
    rw [Double.new, hclaim]
    exact ⟨_, rfl⟩
  refine ⟨.double d, ?_, (Double.lockstep pole hpos hlen).embed embeds_double, d, rfl, ?_⟩
  · rw [new, hnew]
    rfl
  · exact Double.at_new hnew Engine.quiet_fresh

theorem new_triple (hpos : 0 < len) (hlen : len ≤ regionWords)
    (hfirst : channels.1 < channelCount) :
    ∃ p, new .triple {} channels len pole config = .ok p ∧ Ready .triple len p := by
  have hclaim := Engine.claim_ok hfirst (Engine.claimed_fresh hfirst)
  obtain ⟨d, hnew⟩ : ∃ d, Triple.new {} channels.1 len pole = .ok d := by
    rw [Triple.new, hclaim]
    exact ⟨_, rfl⟩
  refine ⟨.triple d, ?_, (Triple.lockstep pole hpos hlen).embed embeds_triple, d, rfl, ?_⟩
  · rw [new, hnew]
    rfl
  · exact Triple.at_new hnew Engine.quiet_fresh

theorem new_chained (hpos : 0 < len) (hlen : len ≤ regionWords) (hfirst : channels.1 < channelCount)
    (hsecond : channels.2 < channelCount) (hne : channels.1 ≠ channels.2) :
    ∃ p, new .chained {} channels len pole config = .ok p ∧ Ready .chained len p := by
  have hclaim := Engine.claim_ok hfirst (Engine.claimed_fresh hfirst)
  have hother : ((Engine.modifyChannel {} ⟨channels.1, hfirst⟩ fun c =>
      { c with claimed := true }).channel ⟨channels.2, hsecond⟩).claimed = false := by
    have hchannels : (⟨channels.2, hsecond⟩ : ChannelId) ≠ ⟨channels.1, hfirst⟩ :=
      fun heq => hne (congrArg Fin.val heq).symm
    have hsame :=
      Engine.channels_modifyChannel_ne {} (fun c => { c with claimed := true }) hchannels
    exact (congrArg Channel.claimed hsame).trans (Engine.claimed_fresh hsecond)
  obtain ⟨d, hnew⟩ : ∃ d, Chained.new {} channels.1 channels.2 len pole = .ok d := by
    rw [Chained.new, hclaim]
    show ∃ d, (Engine.claim _ channels.2 >>= _) = .ok d
    rw [Engine.claim_ok hsecond hother]
    exact ⟨_, rfl⟩
  refine ⟨.chained d, ?_, (Chained.lockstep pole hpos hlen).embed embeds_chained, d, rfl, ?_⟩
  · rw [new, hnew]
    rfl
  · exact Chained.at_new hnew Engine.quiet_fresh hne

theorem new_ring (σ : Ring.Shape) (hreach : σ.reach σ.len ≤ σ.size)
    (hfirst : channels.1 < channelCount) :
    ∃ p, new .ring {} channels σ.len σ.pole σ.config = .ok p ∧ Ready .ring σ.len p := by
  have hclaim := Engine.claim_ok hfirst (Engine.claimed_fresh hfirst)
  obtain ⟨d, hnew⟩ : ∃ d, Ring.new {} channels.1 σ.len σ.pole σ.config = .ok d := by
    rw [Ring.new, hclaim]
    exact ⟨_, rfl⟩
  refine ⟨.ring d, ?_, (Ring.lockstep σ hreach).embed embeds_ring, d, rfl, ?_⟩
  · rw [new, hnew]
    rfl
  · exact Ring.at_new hnew Engine.quiet_fresh

end Player

end ConsolePipeline.Playback
