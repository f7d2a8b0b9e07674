import ConsolePipeline.Proofs.Machine.Frames

namespace ConsolePipeline.Machine

open Handoff Handoff.Rendezvous

/-!
# A reset between two frames

Between two frames there is none to mix, and the last one is back at once. So a reset does not wait,
whatever the parts of the pipeline are.

* `Emulation.drain_ok` — no frame is under way any more, and the buffers for the next one are those
  they would have been.
* `Pipeline.restarted` — what a reset leaves; `Pipeline.reset_ok` — it comes to its end.
-/

variable {P R κ : Type}

/-- Once the frame under way is back, its buffers are at hand for the next one. What was handed over
    stays counted. -/
theorem Emulation.drain_ok {e : Emulation P R} {x : Exchange} (h : Rests e.sender x) :
    ∃ sender, drain (e, x) = .ok () ({ e with sender }, {}) ∧ sender.inFlight = false ∧
      sender.published = e.sender.published ∧
      nextBuffers sender {} = nextBuffers e.sender x := by
  cases h with
  | first h => exact ⟨e.sender, drain_first h {}, h, rfl, rfl⟩
  | back h b =>
    refine ⟨_, drain_back h b, rfl, rfl, ?_⟩
    rw [nextBuffers, nextBuffers, h]
    rfl

/-- Between two frames there is none to mix. -/
theorem AudioCore.service_rests {sender : Sender} {x : Exchange} (h : Rests sender x)
    (c : AudioCore κ) : service (c, x) = .ok false (c, x) := by
  cases h <;> rfl

namespace Pipeline

variable [Processors P]

/-- What a reset leaves of a pipeline whose frames are all back. -/
def restarted (sender : Sender) (notices : Array Log.Entry) (p : Pipeline P R κ) :
    Pipeline P R κ where
  emulation := ({ p.emulation with sender } : Emulation P R).restart.collected
  audio := p.audio.collected.reset.collected
  notices := notices

/-- **A reset between two frames ends.** -/
theorem reset_ok {p : Pipeline P R κ} (h : Rests p.emulation.sender p.exchange) :
    ∃ sender notices, reset p = .ok () (restarted sender notices p) ∧ sender.inFlight = false ∧
      sender.published = p.emulation.sender.published ∧
      Emulation.nextBuffers sender {} = Emulation.nextBuffers p.emulation.sender p.exchange := by
  obtain ⟨sender, hdrain, hfree, hpublished, hbuffers⟩ := Emulation.drain_ok h
  -- The audio core has nothing to collect once the exchange is at rest, so its service writes only
  -- the notices of its desk.
  have hservice : (discard (onAudio AudioCore.service) : Run _ Unit) p =
      .ok () { p with
        audio := p.audio.collected
        notices := p.notices ++ p.audio.desk.notices } := by
    show EStateM.map _ (onAudio AudioCore.service) p = _
    rw [EStateM.map, onAudio_ok (AudioCore.service_rests h p.audio)]
  have hreset : Emulation.reset (p.emulation, p.exchange) =
      .ok () (({ p.emulation with sender } : Emulation P R).restart, {}) := by
    rw [Emulation.reset, Run.bind_ok hdrain]
    rfl
  have hrun : ∃ notices, reset p = .ok () (restarted sender notices p) := by
    rw [reset, Run.bind_ok hservice, Run.bind_ok (onEmulation_ok (by exact hreset))]
    exact ⟨_, rfl⟩
  obtain ⟨notices, hrun⟩ := hrun
  exact ⟨sender, notices, hrun, hfree, hpublished, hbuffers⟩

end Pipeline

end ConsolePipeline.Machine
