import ConsolePipeline.Text.Keyword

namespace ConsolePipeline.Log

/-!
# Log entries

* `Level` — how important an entry is, from `error` down to `trace`; `off` switches logging off.
* `Category` — the part of the pipeline that an entry is about.
* `Entry` — one message with its category and level, before anyone decided whether to write it.
-/

/-- Verbosity, from nothing to everything. -/
inductive Level
  | off | error | warn | info | debug | trace
  deriving DecidableEq, Repr, Inhabited

namespace Level

/-- Position in the order `off < error < warn < info < debug < trace`. -/
def rank : Level → Nat
  | off => 0
  | error => 1
  | warn => 2
  | info => 3
  | debug => 4
  | trace => 5

/-- The word that marks the level in a written line. -/
def tag : Level → String
  | off => "OFF"
  | error => "ERROR"
  | warn => "WARN"
  | info => "INFO"
  | debug => "DEBUG"
  | trace => "TRACE"

/-- The level that a typed name or digit stands for. -/
def ofText? (s : String) : Option Level :=
  match Text.keyword s with
  | "off" | "none" | "0" => some off
  | "error" | "err" | "1" => some error
  | "warn" | "warning" | "2" => some warn
  | "info" | "3" => some info
  | "debug" | "4" => some debug
  | "trace" | "5" => some trace
  | _ => none

end Level

/-- The part of the pipeline that an entry is about. -/
inductive Category
  /-- Scanline loop, interrupts, video mode changes. -/
  | scheduler
  /-- Render and skip decisions, backlog. -/
  | frameSkip
  /-- Frames passed between the two sides, and their acknowledgement. -/
  | handoff
  /-- Mixing, fades, sample counts. -/
  | mixer
  /-- Transfers, playback strategies, underruns. -/
  | dma
  /-- Periodic timing reports. -/
  | profile
  deriving DecidableEq, Repr, Inhabited

namespace Category

/-- Every category, in the order of their declaration. -/
def all : List Category :=
  [scheduler, frameSkip, handoff, mixer, dma, profile]

/-- The name that a written line carries in brackets. -/
def label : Category → String
  | scheduler => "Scheduler"
  | frameSkip => "FrameSkip"
  | handoff => "Handoff"
  | mixer => "Mixer"
  | dma => "Dma"
  | profile => "Profile"

/-- The category that a typed name stands for. -/
def ofText? (s : String) : Option Category :=
  match Text.keyword s with
  | "scheduler" | "sched" => some scheduler
  | "frameskip" | "skip" => some frameSkip
  | "handoff" => some handoff
  | "mixer" | "audio" => some mixer
  | "dma" => some dma
  | "profile" | "prof" => some profile
  | _ => none

theorem mem_all (c : Category) : c ∈ all := by
  cases c <;> decide

/-- Position in `all`. -/
def index : Category → Fin 6
  | scheduler => 0
  | frameSkip => 1
  | handoff => 2
  | mixer => 3
  | dma => 4
  | profile => 5

theorem index_injective {c d : Category} (h : c.index = d.index) : c = d := by
  revert h; cases c <;> cases d <;> decide

end Category

/-- One value for each category. -/
structure PerCategory (α : Type) where
  values : Vector α 6

namespace PerCategory

variable {α : Type}

/-- The same value everywhere. -/
def const (a : α) : PerCategory α :=
  ⟨Vector.replicate 6 a⟩

def get (t : PerCategory α) (c : Category) : α :=
  t.values[c.index]

def set (t : PerCategory α) (c : Category) (a : α) : PerCategory α :=
  ⟨t.values.set c.index a⟩

theorem get_set (t : PerCategory α) (c d : Category) (a : α) :
    (t.set c a).get d = if d = c then a else t.get d := by
  by_cases h : d = c
  · subst h; simp [get, set]
  · have hne : c.index.val ≠ d.index.val := fun e => h (Category.index_injective (Fin.ext e)).symm
    simp [get, set, h, hne]

end PerCategory

/-- One message, before anyone decided whether to write it. -/
structure Entry where
  category : Category
  level : Level
  text : String
  deriving DecidableEq, Repr, Inhabited

/-- The line that shows an entry. -/
def Entry.line (e : Entry) : String :=
  s!"[{e.category.label}] {e.level.tag}: {e.text}"

end ConsolePipeline.Log
