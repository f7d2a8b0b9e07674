import ConsolePipeline.Bench.StandIns
import ConsolePipeline.Proofs.Machine.Indistinct

namespace ConsolePipeline.Bench

open Machine Sound Video

/-!
# What stand-ins look at

Stand-in processors charge the clock and never read it. The test card charges it too, and draws a
picture that nobody looks at.

* `Timeless` — the same machine at two times; `indistinct_timeless` — no frame can tell them apart.
* `renderLines_ok` — a test card that is not set to fail draws, and charges what the picture costs.
* `draw_ok` — what the drawing of a frame changes; `drawn_alike` — nobody compares that;
  `produce_ok` — every frame is made.
-/

/-! ### Processors -/

/-- **The same machine,** possibly at two times. -/
structure Timeless {α : Type} (m m' : α × Board) : Prop where
  processors : m'.1 = m.1
  registers : m'.2.registers = m.2.registers
  bus : m'.2.bus = m.2.bus

section Wires

variable {m m' : Wiring × Board}

theorem Timeless.mapWired (h : Timeless m m') (f : Registers → Registers) :
    Timeless (mapWired f m) (mapWired f m') := by
  obtain ⟨_, board⟩ := m
  obtain ⟨wiring, board'⟩ := m'
  obtain ⟨rfl, hregisters, hbus⟩ := h
  cases wiring with
  | none => exact ⟨rfl, congrArg f hregisters, hbus⟩
  | some r => exact ⟨rfl, hregisters, hbus⟩

theorem Timeless.mapBus (h : Timeless m m') (f : Bus → Bus) :
    Timeless (mapBus f m) (mapBus f m') :=
  ⟨h.processors, h.registers, congrArg f h.bus⟩

/-- Time that passes makes no difference, even if not the same. -/
theorem Timeless.spend (h : Timeless m m') (us us' : UInt64) :
    Timeless (spend us m) (spend us' m') :=
  ⟨h.processors, h.registers, h.bus⟩

theorem Timeless.perform (h : Timeless m m') (cycle : Nat) (act : Act) :
    Timeless (act.perform cycle m) (act.perform cycle m') := by
  cases act with
  | registers act => exact h.mapWired act.apply
  | clock us => exact h.spend us us
  | fm value offset => exact h.mapBus (·.writeFm value (cycle + offset))
  | psg value offset => exact h.mapBus (·.writePsg value (cycle + offset))

/-- What each of some acts keeps, all of them keep. -/
theorem Timeless.foldl {α : Type} {f : Wiring × Board → α → Wiring × Board}
    (hf : ∀ {m m'}, Timeless m m' → ∀ a, Timeless (f m a) (f m' a)) (acts : List α)
    (h : Timeless m m') : Timeless (acts.foldl f m) (acts.foldl f m') := by
  induction acts generalizing m m' with
  | nil => exact h
  | cons a acts ih => exact ih (hf h a)

/-- A program goes on the same way at any time. -/
theorem Timeless.begin (h : Timeless m m') (cycle : Nat) (program : Program) :
    (program.begin cycle m').1 = (program.begin cycle m).1 ∧
      Timeless (program.begin cycle m).2 (program.begin cycle m').2 := by
  cases program with
  | idle => exact ⟨rfl, h⟩
  | melody frame =>
    simp only [Program.begin]
    split
    · exact ⟨rfl, Timeless.foldl (fun h b => h.mapBus (·.writePsg b cycle)) _ h⟩
    · exact ⟨rfl, h⟩
  | script cues slice => exact ⟨rfl, Timeless.foldl (fun h act => h.perform cycle act) _ h⟩

theorem Timeless.pass (h : Timeless m m') (target : Nat) (p : StandIn) :
    (p.execute target m').1 = (p.execute target m).1 ∧
      Timeless (p.execute target m).2 (p.execute target m').2 := by
  obtain ⟨manner, program, cycles⟩ := p
  obtain ⟨hprogram, hmachine⟩ := h.begin cycles program
  simp only [StandIn.execute, hprogram]
  cases manner with
  | stepping step costUs => exact ⟨rfl, hmachine.spend _ _⟩
  | recording overshoot => exact ⟨rfl, hmachine⟩

end Wires

/-! ### Machines of stand-ins -/

section Machines

variable {m m' : StandIns × Board}

theorem Timeless.execute (h : Timeless m m') (cpu : Cpu) (target : Nat) :
    Timeless (StandIns.execute cpu target m) (StandIns.execute cpu target m') := by
  obtain ⟨⟨m68k, z80, wiring, acknowledges, counts, events⟩, board⟩ := m
  obtain ⟨p, board'⟩ := m'
  obtain ⟨rfl, hregisters, hbus⟩ := h
  have hwired : Timeless (wiring, board) (wiring, board') := ⟨rfl, hregisters, hbus⟩
  cases cpu with
  | m68k =>
    obtain ⟨hcpu, hwiring, hregisters, hbus⟩ := hwired.pass target m68k
    refine ⟨?_, hregisters, hbus⟩
    simp only [StandIns.execute, hcpu, hwiring]
  | z80 =>
    obtain ⟨hcpu, hwiring, hregisters, hbus⟩ := hwired.pass target z80
    refine ⟨?_, hregisters, hbus⟩
    simp only [StandIns.execute, hcpu, hwiring]

theorem Timeless.acknowledge (h : Timeless m m') :
    Timeless (StandIns.acknowledge m) (StandIns.acknowledge m') := by
  obtain ⟨⟨m68k, z80, wiring, acknowledges, counts, events⟩, board⟩ := m
  obtain ⟨p, board'⟩ := m'
  obtain ⟨rfl, hregisters, hbus⟩ := h
  have hwired : Timeless (wiring, board) (wiring, board') := ⟨rfl, hregisters, hbus⟩
  obtain ⟨hwiring, hregisters, hbus⟩ := hwired.mapWired Registers.acknowledgeVint
  refine ⟨?_, hregisters, hbus⟩
  simp only [StandIns.acknowledge, hwiring]

theorem Timeless.setIrq (h : Timeless m m') (cpu : Cpu) (level : Nat) :
    Timeless (StandIns.setIrq cpu level m) (StandIns.setIrq cpu level m') := by
  obtain ⟨p, board⟩ := m
  obtain ⟨p', board'⟩ := m'
  obtain rfl : p' = p := h.processors
  simp only [StandIns.setIrq]
  split
  · exact ⟨rfl, h.registers, h.bus⟩
  · -- The interrupt is counted, and it may be acknowledged.
    have hcounted : Timeless ({ p' with counts := StandIns.count cpu level p'.counts }, board)
        ({ p' with counts := StandIns.count cpu level p'.counts }, board') :=
      ⟨rfl, h.registers, h.bus⟩
    split
    · exact hcounted.acknowledge
    · exact hcounted

end Machines

/-- **No frame can tell two times apart.** -/
theorem indistinct_timeless : Indistinct (P := StandIns) Timeless where
  cycles h cpu := by rw [h.processors]
  registers h := h.registers
  samples h := by rw [h.bus]
  execute h := h.execute
  setIrq h := h.setIrq
  raiseVint h := ⟨h.processors, congrArg (·.raiseVint) h.registers, h.bus⟩
  flush h cycle := ⟨h.processors, h.registers, congrArg (·.flush cycle) h.bus⟩

/-! ### The renderer -/

/-- A test card that is not set to fail, with what a picture costs. -/
structure Steady (cost : Option RenderCost) (t : TestCard) : Prop where
  failAt : t.failAt = none
  cost : t.cost = cost

/-- What the next picture costs. -/
def pictureUs (t : TestCard) : UInt32 :=
  t.begin.1

theorem Steady.line {cost : Option RenderCost} {t : TestCard} (h : Steady cost t) (line : Nat)
    (now : Instant) : Steady cost (t.renderLine line now).1 := by
  simp only [TestCard.renderLine]
  split <;> exact ⟨h.failAt, h.cost⟩

/-- Lines past the first one are drawn in no time. -/
theorem renderLines_later {cost : Option RenderCost} (n line : Nat) (hline : 0 < line)
    (t : TestCard) (now : Instant) (h : Steady cost t) :
    ∃ t', renderLines n line (t, now) = .ok () (t', now) ∧ Steady cost t' := by
  induction n generalizing line t with
  | zero => exact ⟨t, rfl, h⟩
  | succ n ih =>
    have hne : line ≠ 0 := Nat.pos_iff_ne_zero.mp hline
    have hnow : t.renderLine line now = ((t.renderLine line now).1, now) := by
      simp only [TestCard.renderLine, if_neg hne]
    have hfirst : Renderer.renderLine line (t, now) = .ok () ((t.renderLine line now).1, now) := by
      show (if line = 0 ∧ t.fails then _ else _) = _
      rw [if_neg fun hboth => hne hboth.1]
      exact congrArg (EStateM.Result.ok ()) hnow
    obtain ⟨t', hrest, hsteady⟩ := ih (line + 1) (Nat.succ_pos line) _ (h.line line now)
    refine ⟨t', ?_, hsteady⟩
    rw [renderLines, Run.bind_ok hfirst]
    exact hrest

/-- **A picture is drawn,** and its cost charged. -/
theorem renderLines_ok {cost : Option RenderCost} {n : Nat} (hn : 0 < n) (t : TestCard)
    (now : Instant) (h : Steady cost t) :
    ∃ t', renderLines n 0 (t, now) = .ok () (t', now.after (pictureUs t).toUInt64) ∧
      Steady cost t' := by
  obtain ⟨n, rfl⟩ := Nat.exists_eq_add_of_lt hn
  rw [Nat.zero_add]
  -- The first line charges what the whole picture costs.
  have hfails : t.fails = false := by rw [TestCard.fails, h.failAt]; rfl
  have hfirst : Renderer.renderLine 0 (t, now) = .ok () (t.renderLine 0 now) := by
    show (if 0 = 0 ∧ t.fails then _ else _) = _
    rw [hfails, if_neg fun hboth => Bool.false_ne_true hboth.2]
  obtain ⟨t', hrest, hsteady⟩ :=
    renderLines_later n 1 Nat.one_pos _ (now.after (pictureUs t).toUInt64) (h.line 0 now)
  refine ⟨t', ?_, hsteady⟩
  rw [renderLines, Run.bind_ok hfirst]
  exact hrest

/-! ### The drawing of a frame -/

section Drawing

variable {P : Type}

/-- The clock once a frame has been drawn, if that has been decided. -/
def drawnAt (d : Draft) (e : Emulation P TestCard) : Instant :=
  if d.decision.render then e.board.now.after (pictureUs e.renderer).toUInt64 else e.board.now

/-- What is known of a frame then. -/
def drawnDraft (d : Draft) (e : Emulation P TestCard) : Draft :=
  { d with
    times := { d.times with renderUs := elapsedUs e.board.now (drawnAt d e) }
    samples := e.board.bus.sampleCounts
    workUs := elapsedUs d.start (drawnAt d e) }

/-- The emulation side then, with its renderer. -/
def drawn (d : Draft) (t : TestCard) (e : Emulation P TestCard) : Emulation P TestCard :=
  ⟨e.processors, ⟨drawnAt d e, e.board.registers, e.board.bus⟩, t,
    { e.loop with
      skip := if d.decision.render then
          e.loop.skip.recordRender (elapsedUs e.board.now (drawnAt d e))
        else e.loop.skip },
    e.sender, e.notices⟩

theorem render_ok {mode : Mode} {e : Emulation P TestCard} {t : TestCard} {after : Instant}
    (h : renderLines mode.height 0 (e.renderer, e.board.now) = .ok () (t, after)) :
    Emulation.render mode e = .ok (elapsedUs e.board.now after)
      ⟨e.processors, ⟨after, e.board.registers, e.board.bus⟩, t,
        { e.loop with skip := e.loop.skip.recordRender (elapsedUs e.board.now after) }, e.sender,
        e.notices⟩ := by
  rw [Emulation.render, Run.get_bind, Emulation.onRenderer, Run.bind_ok (Run.within_ok h)]
  rfl

/-- **What the drawing of a frame changes:** the clock, the picture, and what is known of the costs
    of pictures. -/
theorem draw_ok {cost : Option RenderCost} (d : Draft) (e : Emulation P TestCard)
    (h : Steady cost e.renderer) (hheight : 0 < d.mode.height) :
    ∃ t, Steady cost t ∧ Emulation.draw d e = .ok (drawnDraft d e) (drawn d t e) := by
  obtain ⟨processors, ⟨now, registers, bus⟩, renderer, loop, sender, notices⟩ := e
  rw [Emulation.draw]
  cases hrender : d.decision.render with
  | false =>
    -- Nothing is drawn, and no time passes.
    refine ⟨renderer, h, ?_⟩
    simp only [drawnDraft, drawn, drawnAt, hrender, Bool.false_eq_true, if_false, elapsedUs_self]
    rfl
  | true =>
    obtain ⟨t, hlines, hsteady⟩ := renderLines_ok hheight renderer now h
    refine ⟨t, hsteady, ?_⟩
    simp only [drawnDraft, drawn, drawnAt, hrender, if_true]
    rw [Run.bind_ok (render_ok hlines)]
    rfl

/-- **Frames prepared alike stay alike when they are drawn,** since the drawing changes the clock
    and the skip controller, which nobody compares. -/
theorem drawn_alike [Processors P] {R : P × Board → P × Board → Prop} {d d' : Draft}
    {e e' : Emulation P TestCard} (hR : Indistinct R)
    (hclock : ∀ {m m'}, R m m' → ∀ now now',
      R (m.1, ⟨now, m.2.registers, m.2.bus⟩) (m'.1, ⟨now', m'.2.registers, m'.2.bus⟩))
    (hdraft : d.Alike d') (h : Emulation.Alike R e e') (t t' : TestCard) :
    (drawnDraft d e).Alike (drawnDraft d' e') ∧
      Emulation.Alike R (drawn d t e) (drawn d' t' e') :=
  ⟨⟨hdraft.mode, hdraft.modeChanged, hR.samples h.machine, hdraft.lineInterrupts,
      hdraft.vblankRaised⟩,
    hclock h.machine _ _, h.loop.flushCycle, h.loop.frame, h.loop.lastMode, h.loop.hint⟩

variable [Processors P]

/-- A renderer that is told of a new mode costs what it did. -/
theorem Steady.prepare {cost : Option RenderCost} {e : Emulation P TestCard}
    (h : Steady cost e.renderer) : Steady cost e.prepare.2.renderer := by
  have hentered : Steady cost
      (Emulation.enterMode (Mode.sample e.board.registers) e).2.renderer := by
    simp only [Emulation.enterMode]
    split
    · exact h
    · split
      · exact h
      · exact ⟨h.failAt, h.cost⟩
  exact hentered

/-- **Every frame is made,** whether it is drawn or not. -/
theorem produce_ok {cost : Option RenderCost} (e : Emulation P TestCard)
    (h : Steady cost e.renderer) :
    ∃ t, Steady cost t ∧
      Emulation.produce e = .ok (drawnDraft e.prepare.1 e.prepare.2)
        (drawn e.prepare.1 t e.prepare.2) := by
  rw [Emulation.produce_eq]
  exact draw_ok e.prepare.1 e.prepare.2 h.prepare (sample_height_pos e.board.registers)

end Drawing

end ConsolePipeline.Bench
