import ConsolePipeline.Machine.Pipeline

namespace ConsolePipeline.Machine

open Handoff Sound

/-!
# Both sides at once

Each side runs on a thread of its own. A thread takes one step at a time, and a step that has to
wait for the other side is tried again; which thread takes the next step is up to a schedule.

* `Threads.start` — both threads before their first step.
* `Threads.step` — one step of one thread.
* `Threads.run` — the steps of a schedule.
* `Threads.outcome` — what a finished run leaves behind.
* `frameByFrame` — the schedule that mixes each frame right after it is handed over.
* `Pipeline.runThreaded` — a run under that schedule.
-/

/-- One of the two threads. -/
inductive Side
  | emulation
  | audio
  deriving DecidableEq, Repr, Inhabited

/-- What the emulation thread does next. -/
inductive EmulationTask
  /-- Make a frame, if one is left. -/
  | make
  /-- Get buffers and take the frame's audio. -/
  | fetch (d : Draft)
  /-- Send the frame's audio off and conclude the frame. -/
  | ship (d : Draft) (a : FrameAudio)
  /-- Wait for the last frame to come back. -/
  | drain
  /-- Tell the audio thread that no more frames come. -/
  | stop
  | finished
  | failed (fault : Fault)

/-- What the audio thread does next. -/
inductive AudioTask
  /-- Take a frame, if there is one. -/
  | poll
  | mix (a : FrameAudio)
  | giveBack (a : FrameAudio)
  /-- See whether more frames may come. -/
  | checkStop
  /-- Look once more, since a frame may have come just before the stop. -/
  | lastPoll
  | finished
  | failed (fault : Fault)

/-- A pipeline whose sides run on two threads. -/
structure Threads (P R κ : Type) where
  pipeline : Pipeline P R κ
  /-- Frames that are not made yet. -/
  remaining : Nat
  emulation : EmulationTask := .make
  audio : AudioTask := .poll
  /-- Whether no more frames come. -/
  stopped : Bool := false
  reports : Array FrameReport := #[]

namespace Threads

variable {P R κ : Type} [Processors P] [Renderer R]

/-- Both threads before the first of so many frames. -/
def start (frames : Nat) (p : Pipeline P R κ) : Threads P R κ :=
  { pipeline := p, remaining := frames }

/-- Both threads when there is no room for the reports: the emulation thread has failed before it
    made a frame. -/
def outOfRoom (p : Pipeline P R κ) : Threads P R κ :=
  { pipeline := p, remaining := 0, emulation := .failed .outOfRoom, stopped := true }

/-- Try something that may have to wait: its answer, or nothing yet, or its failure; and the
    pipeline after it. -/
def attempt {α : Type} (act : Run (Pipeline P R κ) α) (p : Pipeline P R κ) :
    Except Fault (Option α) × Pipeline P R κ :=
  match act p with
  | .ok a p => (.ok (some a), p)
  | .error .stalled p => (.ok none, p)
  | .error e p => (.error e, p)

/-- Conclude a frame that was sent off. -/
def concluded (d : Draft) (a : FrameAudio) : Run (Pipeline P R κ) FrameReport :=
  Pipeline.onEmulation do
    Emulation.ship a
    Emulation.alone (modifyGet (Emulation.conclude d 0))

/-- One step of the emulation thread. A failed thread also says that no more frames come. -/
def emulationStep : Threads P R κ → Threads P R κ
  | ⟨p, remaining, task, audio, stopped, reports⟩ =>
    match task with
    | .make =>
      match remaining with
      | 0 => ⟨p, 0, .drain, audio, stopped, reports⟩
      | n + 1 => match Pipeline.onEmulation (Emulation.alone Emulation.produce) p with
        | .ok d p => ⟨p, n, .fetch d, audio, stopped, reports⟩
        | .error e p => ⟨p, n, .failed e, audio, true, reports⟩
    | .fetch d => match attempt (Pipeline.onEmulation Emulation.fetch) p with
      | (.ok (some a), p) => ⟨p, remaining, .ship d a, audio, stopped, reports⟩
      | (.ok none, p) => ⟨p, remaining, .fetch d, audio, stopped, reports⟩
      | (.error e, p) => ⟨p, remaining, .failed e, audio, true, reports⟩
    | .ship d a => match attempt (concluded d a) p with
      | (.ok (some r), p) => ⟨p, remaining, .make, audio, stopped, reports.push r⟩
      | (.ok none, p) => ⟨p, remaining, .ship d a, audio, stopped, reports⟩
      | (.error e, p) => ⟨p, remaining, .failed e, audio, true, reports⟩
    | .drain => match attempt (Pipeline.onEmulation Emulation.drain) p with
      | (.ok (some _), p) => ⟨p, remaining, .stop, audio, stopped, reports⟩
      | (.ok none, p) => ⟨p, remaining, .drain, audio, stopped, reports⟩
      | (.error e, p) => ⟨p, remaining, .failed e, audio, true, reports⟩
    | .stop => ⟨p, remaining, .finished, audio, true, reports⟩
    | .finished => ⟨p, remaining, .finished, audio, stopped, reports⟩
    | .failed e => ⟨p, remaining, .failed e, audio, stopped, reports⟩

/-- Look for a frame; `otherwise` is what to do if there is none. -/
def pollFrame (otherwise : AudioTask) (p : Pipeline P R κ) : AudioTask × Pipeline P R κ :=
  match Pipeline.onAudio (AudioCore.onExchange (modifyGet Rendezvous.tryConsume)) p with
  | .ok (some a) p => (.mix a, p)
  | .ok none p => (otherwise, p)
  | .error e p => (.failed e, p)

/-- One step of the audio thread. -/
def audioStep : Threads P R κ → Threads P R κ
  | ⟨p, remaining, emulation, task, stopped, reports⟩ =>
    match task with
    | .poll => match pollFrame .checkStop p with
      | (task, p) => ⟨p, remaining, emulation, task, stopped, reports⟩
    | .mix a => match Pipeline.onAudio (AudioCore.alone (AudioCore.process a)) p with
      | .ok () p => ⟨p, remaining, emulation, .giveBack a, stopped, reports⟩
      | .error e p => ⟨p, remaining, emulation, .failed e, stopped, reports⟩
    | .giveBack a =>
      match attempt (Pipeline.onAudio (AudioCore.onExchange (Rendezvous.acknowledge a))) p with
      | (.ok (some _), p) => ⟨p, remaining, emulation, .poll, stopped, reports⟩
      | (.ok none, p) => ⟨p, remaining, emulation, .giveBack a, stopped, reports⟩
      | (.error e, p) => ⟨p, remaining, emulation, .failed e, stopped, reports⟩
    | .checkStop =>
      ⟨p, remaining, emulation, if stopped then .lastPoll else .poll, stopped, reports⟩
    | .lastPoll => match pollFrame .finished p with
      | (task, p) => ⟨p, remaining, emulation, task, stopped, reports⟩
    | .finished => ⟨p, remaining, emulation, .finished, stopped, reports⟩
    | .failed e => ⟨p, remaining, emulation, .failed e, stopped, reports⟩

/-- One step of one thread. -/
def step (side : Side) (t : Threads P R κ) : Threads P R κ :=
  match side with
  | .emulation => t.emulationStep
  | .audio => t.audioStep

/-- The steps of a schedule. -/
def run : (schedule : List Side) → Threads P R κ → Threads P R κ
  | [], t => t
  | side :: rest, t => run rest (t.step side)

/-- What a run leaves behind: the reports and the counters. A run in which one of the threads has
    not finished has failed. -/
def outcome (t : Threads P R κ) : Except PipelineError (Array FrameReport × PipelineStats) :=
  match t.emulation, t.audio with
  | .finished, .finished => .ok (t.reports, t.pipeline.stats)
  | .finished, _ => .error .audioFailed
  | _, _ => .error .emulationFailed

end Threads

/-- The schedule that mixes each of `n` frames right after it is handed over, and then lets both
    threads finish. -/
def frameByFrame (n : Nat) : List Side :=
  (List.replicate (n + 1) [.emulation, .emulation, .emulation, .audio, .audio, .audio]).flatten

/-- The most frames of a run on two threads. Room for all reports is set aside before the first
    frame, 72 bytes for each, and no block of memory has as much as `2 ^ 63` bytes. -/
def reportLimit : Nat := ((1 <<< 63) - 1) / 72

/-- Run so many frames on two threads, under the schedule that mixes each frame right after it is
    handed over. -/
def Pipeline.runThreaded {P R κ : Type} [Processors P] [Renderer R] (frames : Nat)
    (p : Pipeline P R κ) : Threads P R κ :=
  if frames ≤ reportLimit then (Threads.start frames p).run (frameByFrame frames)
  else (Threads.outOfRoom p).run (frameByFrame 0)

end ConsolePipeline.Machine
