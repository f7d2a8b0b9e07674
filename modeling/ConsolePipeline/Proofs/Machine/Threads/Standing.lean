import ConsolePipeline.Proofs.Machine.Threads.Step

namespace ConsolePipeline.Machine.Threads

open Handoff Handoff.Rendezvous Sound

/-!
# Where two threads stand

At any time the emulation thread has done the first part of what a pipeline in lockstep does from
one of its states on. The audio thread is where that state has it, or one frame behind: the frame
that was sent last is in the exchange, or in the audio thread's hands.

* `Listening`, `Working` — where each thread stands, seen from a state in lockstep.
* `Around` — both together; `Around.exists_able` — one of them gets further.
* `EmulationMove`, `AudioMove` — a step of one thread, as the other one sees it.
-/

variable {P R κ : Type}

/-- Both threads have finished. -/
def Finished (t : Threads P R κ) : Prop :=
  t.emulation = .finished ∧ t.audio = .finished

/-! ### The audio thread -/

/-- What the audio thread does while it has no frame. It looks a last time, and finishes, only if it
    has been stopped. -/
inductive Idle : (stopped : Bool) → AudioTask → Prop
  | poll {stopped : Bool} : Idle stopped .poll
  | checkStop {stopped : Bool} : Idle stopped .checkStop
  | lastPoll : Idle true .lastPoll
  | finished : Idle true .finished

/-- **Where the audio thread stands,** and the frame it is behind. -/
inductive Listening (s : Pipeline P R κ) : (holds stopped : Bool) → (behind : List FrameAudio) →
    AudioTask → Exchange → AudioCore κ → Prop
  /-- All buffers are with the emulation thread. -/
  | home {stopped : Bool} {task : AudioTask} (hidle : Idle stopped task) :
    Listening s true stopped [] task {} s.audio
  /-- The last frame has been mixed and is on its way back, or there was none. -/
  | back {task : AudioTask} (hidle : Idle false task) :
    Listening s false false [] task s.exchange s.audio
  /-- The last frame is on its way. -/
  | sent {task : AudioTask} {a : FrameAudio} {c c' : AudioCore κ} (hidle : Idle false task)
    (hexchange : s.exchange = returning a) (hmixed : AudioCore.process a c = .ok () c')
    (haudio : s.audio = c'.collected) :
    Listening s false false [a] task (carrying a) c
  /-- It has been taken. -/
  | taken {a : FrameAudio} {c c' : AudioCore κ} (hexchange : s.exchange = returning a)
    (hmixed : AudioCore.process a c = .ok () c') (haudio : s.audio = c'.collected) :
    Listening s false false [a] (.mix a) {} c
  /-- It has been mixed. -/
  | mixed {a : FrameAudio} (hexchange : s.exchange = returning a) :
    Listening s false false [] (.giveBack a) {} s.audio

variable {s s' : Pipeline P R κ} {t t' : Threads P R κ} {left remaining : Nat}
  {holds stopped : Bool} {behind : List FrameAudio} {emulation : EmulationTask}
  {task task' : AudioTask} {x x' : Exchange} {e : Emulation P R} {c c' : AudioCore κ}
  {notices notices' : Array Log.Entry} {reports : Array FrameReport}

theorem Idle.stop (h : Idle false task) : Idle true task := by
  cases h
  · exact .poll
  · exact .checkStop

/-- A frame on its way gives an idle audio thread four more things to do. -/
theorem Idle.work_sent (h : Idle false task) :
    task.work true false ≤ task.work false false + 4 := by
  cases h <;> decide

theorem Idle.work_stopped (h : Idle false task) : task.work false true ≤ task.work false false := by
  cases h <;> decide

/-- **The last frame is back,** or it is still out. -/
theorem Listening.back_or_out (h : Listening s false stopped behind task x c)
    (hrests : Rests s.emulation.sender s.exchange) :
    (behind = [] ∧ Idle stopped task ∧ x = s.exchange ∧ c = s.audio) ∨
      (s.emulation.sender.inFlight = true ∧ x.audioDone = false) := by
  cases h with
  | back hidle => exact .inl ⟨rfl, hidle, rfl, rfl⟩
  | sent hidle hexchange => exact .inr ⟨hrests.inFlight hexchange, rfl⟩
  | taken hexchange => exact .inr ⟨hrests.inFlight hexchange, rfl⟩
  | mixed hexchange => exact .inr ⟨hrests.inFlight hexchange, rfl⟩

/-- The emulation thread waits only while its last frame is out. Then the audio thread has it. -/
theorem Listening.someone_able (h : Listening s false false behind task x c)
    (hrests : Rests s.emulation.sender s.exchange) :
    (!s.emulation.sender.inFlight || x.audioDone) = true ∨ task.able x.frameReady false = true := by
  cases h with
  | back hidle => exact .inl (hrests.at_hand)
  | sent hidle => cases hidle <;> exact .inr rfl
  | taken => exact .inr rfl
  | mixed => exact .inr rfl

/-! ### Steps as the other thread sees them -/

/-- **A step of the emulation thread,** as the audio thread and what is left to do see it. -/
structure EmulationMove (t t' : Threads P R κ) : Prop where
  audio : t'.audio = t.audio
  core : t'.pipeline.audio = t.pipeline.audio
  ready : t.pipeline.exchange.frameReady = true → t'.pipeline.exchange.frameReady = true
  stopped : t.stopped = true → t'.stopped = true
  work : t'.work ≤ t.work
  gain : t.able .emulation = true → t'.work < t.work

theorem EmulationMove.of_lt (haudio : t'.audio = t.audio)
    (hcore : t'.pipeline.audio = t.pipeline.audio)
    (hready : t.pipeline.exchange.frameReady = true → t'.pipeline.exchange.frameReady = true)
    (hstopped : t.stopped = true → t'.stopped = true) (hwork : t'.work < t.work) :
    EmulationMove t t' :=
  ⟨haudio, hcore, hready, hstopped, Nat.le_of_lt hwork, fun _ => hwork⟩

theorem EmulationMove.of_waiting (haudio : t'.audio = t.audio)
    (hcore : t'.pipeline.audio = t.pipeline.audio)
    (hexchange : t'.pipeline.exchange = t.pipeline.exchange) (hstopped : t'.stopped = t.stopped)
    (hwork : t'.work = t.work) (hable : t.able .emulation = false) : EmulationMove t t' := by
  refine ⟨haudio, hcore, ?_, ?_, Nat.le_of_eq hwork, fun h => ?_⟩
  · rw [hexchange]
    exact id
  · rw [hstopped]
    exact id
  · rw [hable] at h
    cases h

/-- **A step of the audio thread,** as the emulation thread and what is left to do see it. -/
structure AudioMove (t t' : Threads P R κ) : Prop where
  emulation : t'.emulation = t.emulation
  sender : t'.pipeline.emulation.sender = t.pipeline.emulation.sender
  reports : t'.reports = t.reports
  back : t.pipeline.exchange.audioDone = true → t'.pipeline.exchange.audioDone = true
  work : t'.work ≤ t.work
  gain : t.able .audio = true → t'.work < t.work

/-- What a step of the audio thread does to what is left to do. -/
structure Saves (ready ready' stopped : Bool) (task task' : AudioTask) : Prop where
  work : task'.work ready' stopped ≤ task.work ready stopped
  gain : task.able ready stopped = true → task'.work ready' stopped < task.work ready stopped

theorem Saves.poll (stopped : Bool) : Saves false false stopped .poll .checkStop := by
  constructor <;> cases stopped <;> decide

theorem Saves.checkStop (stopped : Bool) :
    Saves false false stopped .checkStop (if stopped then .lastPoll else .poll) := by
  constructor <;> cases stopped <;> decide

theorem Saves.lastPoll : Saves false false true .lastPoll .finished := by
  constructor <;> decide

theorem Saves.finished : Saves false false true .finished .finished := by
  constructor <;> decide

theorem Saves.found (a : FrameAudio) : Saves true false false .poll (.mix a) := by
  constructor <;> simp [AudioTask.work]

theorem Saves.again : Saves true true false .checkStop .poll := by
  constructor <;> decide

theorem Saves.mix (a : FrameAudio) : Saves false false false (.mix a) (.giveBack a) := by
  constructor <;> simp [AudioTask.work]

theorem Saves.giveBack (a : FrameAudio) : Saves false false false (.giveBack a) .poll := by
  constructor <;> simp [AudioTask.work]

theorem AudioMove.of_saves {ready ready' : Bool} (h : Saves ready ready' stopped task task')
    (hready : x.frameReady = ready) (hready' : x'.frameReady = ready')
    (hback : x.audioDone = true → x'.audioDone = true) :
    AudioMove (⟨⟨e, x, c, notices⟩, remaining, emulation, task, stopped, reports⟩ : Threads P R κ)
      ⟨⟨e, x', c', notices'⟩, remaining, emulation, task', stopped, reports⟩ := by
  obtain ⟨hwork, hgain⟩ := h
  subst hready hready'
  refine ⟨rfl, rfl, rfl, hback, ?_, fun hable => ?_⟩
  · simp only [Threads.work]
    omega
  · have hless := hgain hable
    simp only [Threads.work]
    omega

/-! ### Both threads -/

section Both

variable [Processors P] [Renderer R]

/-- **Where the emulation thread stands** from a state in lockstep on, after which `left` frames
    follow. The thread holds all buffers when it has collected them and sent none yet; at the very
    end it has stopped the audio thread. -/
inductive Working (s : Pipeline P R κ) : (left : Nat) → (holds stopped : Bool) → EmulationTask →
    (remaining : Nat) → Emulation P R → Prop
  | make (left : Nat) : Working s left false false .make left s.emulation
  | fetch {left : Nat} {d : Draft} {e : Emulation P R}
    (hmade : Emulation.produce s.emulation = .ok d e) :
    Working s (left + 1) false false (.fetch d) left e.collected
  | ship {left : Nat} {d : Draft} {e e' : Emulation P R}
    (hmade : Emulation.produce s.emulation = .ok d e)
    (hfetched : Emulation.fetch (e, s.exchange) = .ok e.heldFrame (e', {})) :
    Working s (left + 1) true false (.ship d e.heldFrame) left e'.collected
  | drain : Working s 0 false false .drain 0 s.emulation
  | stop {e : Emulation P R} (hloop : e.loop = s.emulation.loop)
    (hpublished : e.sender.published = s.emulation.sender.published) :
    Working s 0 true false .stop 0 e
  | finished {e : Emulation P R} (hloop : e.loop = s.emulation.loop)
    (hpublished : e.sender.published = s.emulation.sender.published) :
    Working s 0 true true .finished 0 e

/-- **Both threads around a state in lockstep.** -/
structure Around (s : Pipeline P R κ) (left : Nat) (behind : List FrameAudio)
    (t : Threads P R κ) : Prop where
  sides : ∃ holds, Working s left holds t.stopped t.emulation t.remaining t.pipeline.emulation ∧
    Listening s holds t.stopped behind t.audio t.pipeline.exchange t.pipeline.audio
  emulation : t.pipeline.emulation.collected = t.pipeline.emulation
  audio : t.pipeline.audio.collected = t.pipeline.audio

/-- **Some thread gets further,** unless both have finished. -/
theorem Around.exists_able (h : Around s left behind t)
    (hrests : Rests s.emulation.sender s.exchange) :
    Finished t ∨ ∃ side, t.able side = true := by
  obtain ⟨⟨emulation, exchange, audio, notices⟩, remaining, task, audioTask, stopped, reports⟩ := t
  obtain ⟨⟨holds, hworking, hlistening⟩, -, -⟩ := h
  dsimp only at hworking hlistening
  cases hworking with
  | make | ship | stop => exact .inr ⟨.emulation, rfl⟩
  | fetch hmade =>
    -- To make a frame leaves open what was sent before, and with it who has to wait.
    have hable := hlistening.someone_able hrests
    rw [← (Emulation.sameFrame_produce hmade).sender] at hable
    obtain hable | hable := hable
    · exact .inr ⟨.emulation, hable⟩
    · exact .inr ⟨.audio, hable⟩
  | drain =>
    obtain hable | hable := hlistening.someone_able hrests
    · exact .inr ⟨.emulation, hable⟩
    · exact .inr ⟨.audio, hable⟩
  | finished =>
    -- All buffers are home, and a stopped audio thread has none to wait for.
    cases hlistening with
    | home hidle =>
      cases hidle with
      | finished => exact .inl ⟨rfl, rfl⟩
      | poll | checkStop | lastPoll => exact .inr ⟨.audio, rfl⟩

end Both

end ConsolePipeline.Machine.Threads
