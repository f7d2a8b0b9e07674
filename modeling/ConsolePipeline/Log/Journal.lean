import ConsolePipeline.Log.Entry

namespace ConsolePipeline.Log

/-!
# The journal

Entries pass two gates before they are written. The *level* gate compares an entry with the level
of its category, or with the overall level where the category has none of its own. The *rate* gate
lets at most `limit` entries of a category through in one window of time; entries beyond that are
counted, the first of them is reported at once, and the count that has grown since is reported with
the next entry let through.

* `Journal.enabled` — the level gate.
* `Window.offer` — the rate gate of one category.
* `Journal.write` — both gates, and the lines that come out.
-/

/-- What has passed, and what has been held back, in one category's window of time. -/
structure Window where
  /-- Entries let through. -/
  admitted : Nat := 0
  /-- Entries held back and not reported yet. -/
  dropped : Nat := 0
  /-- Whether a report of held-back entries was made in this window. -/
  reported : Bool := false
  deriving DecidableEq, Repr, Inhabited

/-- The rate gate's answer to one entry. -/
structure Admission where
  window : Window
  /-- Whether the entry is let through. -/
  passes : Bool
  /-- How many held-back entries are reported now. -/
  report : Option Nat
  deriving DecidableEq, Repr

/-- The rate gate of one category, under a limit of entries per window. -/
def Window.offer (w : Window) (limit : Nat) : Admission :=
  if w.admitted < limit then
    if 0 < w.dropped then
      ⟨{ admitted := w.admitted + 1, dropped := 0, reported := true }, true, some w.dropped⟩
    else
      ⟨{ w with admitted := w.admitted + 1 }, true, none⟩
  else if w.reported then
    ⟨{ w with dropped := w.dropped + 1 }, false, none⟩
  else
    ⟨{ w with dropped := 0, reported := true }, false, some (w.dropped + 1)⟩

/-- Levels, limit and the state of each category's window. -/
structure Journal where
  /-- The level of every category that has none of its own. -/
  overall : Level := .off
  /-- A category's own level; `off` means that it follows the overall one. -/
  own : PerCategory Level := .const .off
  /-- Entries of one category let through in one window. -/
  limit : Nat := 60
  windows : PerCategory Window := .const {}

namespace Journal

instance : Inhabited Journal := ⟨{}⟩

/-- The level that decides on entries of a category. -/
def threshold (j : Journal) (c : Category) : Level :=
  match j.own.get c with
  | .off => j.overall
  | level => level

/-- The level gate: nothing is ever logged at level `off`. -/
def enabled (j : Journal) (c : Category) (level : Level) : Bool :=
  level != .off && level.rank ≤ (j.threshold c).rank

def setLevel (j : Journal) (c : Category) (level : Level) : Journal :=
  { j with own := j.own.set c level }

/-- All levels back to `off`; limit and windows stay. -/
def resetLevels (j : Journal) : Journal :=
  { j with overall := .off, own := .const .off }

/-- The line that reports held-back entries. -/
def dropLine (c : Category) (count : Nat) : String :=
  s!"[{c.label}] WARN: rate limit exceeded, {count} message(s) dropped"

/-- What offering one entry to the journal brings about. -/
structure Written where
  journal : Journal
  /-- The lines to show, in order. -/
  lines : List String
  /-- Whether the entry's own text was among them. -/
  shown : Bool

/-- Offer one entry: both gates, then a report of held-back entries before the entry itself. -/
def write (j : Journal) (e : Entry) : Written :=
  if j.enabled e.category e.level then
    let a := (j.windows.get e.category).offer j.limit
    let journal := { j with windows := j.windows.set e.category a.window }
    let report := match a.report with
      | some n => if 0 < n then [dropLine e.category n] else []
      | none => []
    ⟨journal, report ++ (if a.passes then [e.line] else []), a.passes⟩
  else
    ⟨j, [], false⟩

/-- Offer entries in order; the lines of all of them. -/
def writeAll (j : Journal) (entries : Array Entry) : Journal × Array String :=
  entries.foldl (fun (j, lines) e =>
    let w := j.write e
    (w.journal, lines.appendList w.lines)) (j, #[])

end Journal

end ConsolePipeline.Log
