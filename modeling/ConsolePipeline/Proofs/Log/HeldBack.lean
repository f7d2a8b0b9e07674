import Mathlib.Algebra.GroupWithZero.Nat
import Mathlib.Algebra.BigOperators.Group.List.Basic
import ConsolePipeline.Log.Journal

namespace ConsolePipeline.Log

/-!
# Entries held back are accounted for

The rate gate counts what it holds back and reports the count on two occasions: with the first entry
held back in a window, and with the next one let through. Each report takes the whole count, so no
entry is reported twice and none is forgotten, whatever becomes of levels and limit in between. The
clock stands still: all entries of a category fall into one window of time.

* `Line` — what a written line tells; `Journal.tells`, `lines_eq` — the lines of one act.
* `Act`, `Journal.gather` — what is done to a journal, and what is gathered on the way.
* `Window.dropped_offer` — one entry at the rate gate, by the books.
* `Balanced` — the books of a category; `Journal.balanced_act`, `balanced` — one act, and any acts.
* `Journal.Like`, `transcript_like` — a category sees nothing of the others.
* `held_back_accounted` — any acts on a new journal.
-/

/-! ### What lines tell -/

/-- What a written line tells. -/
inductive Line
  /-- So many entries of a category were held back. -/
  | report (category : Category) (count : Nat)
  | message (e : Entry)
  deriving DecidableEq, Repr, Inhabited

namespace Line

/-- The line as it is written. -/
def text : Line → String
  | report c n => Journal.dropLine c n
  | message e => e.line

def category : Line → Category
  | report c _ => c
  | message e => e.category

/-- The entry that a line shows. -/
def shown? : Line → Option Entry
  | report .. => none
  | message e => some e

/-- How many entries a line reports as held back. -/
def heldBack : Line → Nat
  | report _ n => n
  | message _ => 0

end Line

/-- The lines about a category. -/
def about (c : Category) (lines : List Line) : List Line :=
  lines.filter fun l => l.category = c

/-- Entries of a category that some lines show. -/
def written (c : Category) (lines : List Line) : Nat :=
  ((about c lines).filterMap Line.shown?).length

/-- Entries of a category that some lines report as held back. -/
def reported (c : Category) (lines : List Line) : Nat :=
  ((about c lines).map Line.heldBack).sum

theorem about_append (c : Category) (l l' : List Line) :
    about c (l ++ l') = about c l ++ about c l' :=
  List.filter_append ..

theorem written_append (c : Category) (l l' : List Line) :
    written c (l ++ l') = written c l + written c l' := by
  rw [written, about_append, List.filterMap_append, List.length_append]
  rfl

theorem reported_append (c : Category) (l l' : List Line) :
    reported c (l ++ l') = reported c l + reported c l' := by
  rw [reported, about_append, List.map_append, List.sum_append]
  rfl

/-! ### Acts -/

/-- What is done to a journal. -/
inductive Act
  | log (e : Entry)
  | setOverall (level : Level)
  | setLevel (c : Category) (level : Level)
  | resetLevels
  | setLimit (limit : Nat)
  deriving DecidableEq, Repr, Inhabited

/-- Whether an act is about a category, if only among others. -/
def Act.concerns (c : Category) : Act → Bool
  | log e => e.category = c
  | setLevel d _ => d = c
  | _ => true

namespace Journal

variable {α : Type}

def act (j : Journal) : Act → Journal
  | .log e => (j.write e).journal
  | .setOverall level => { j with overall := level }
  | .setLevel c level => j.setLevel c level
  | .resetLevels => j.resetLevels
  | .setLimit limit => { j with limit }

/-- The lines that an act has written. -/
def lines (j : Journal) : Act → List String
  | .log e => (j.write e).lines
  | _ => []

/-- The entry that an act brings before the rate gate: one that passes the level gate. -/
def offers (j : Journal) : Act → List Entry
  | .log e => if j.enabled e.category e.level then [e] else []
  | _ => []

/-- The rate gate's answer to an entry. -/
def admission (j : Journal) (e : Entry) : Admission :=
  (j.windows.get e.category).offer j.limit

/-- What the lines of an act tell: what has been held back, if that is reported now, and then the
    entry, if it is let through. -/
def tells (j : Journal) (a : Act) : List Line :=
  (j.offers a).flatMap fun e =>
    ((j.admission e).report.map (.report e.category)).toList ++
      if (j.admission e).passes then [.message e] else []

/-- What is gathered from each of a row of acts. -/
def gather (f : Journal → Act → List α) : List Act → Journal → List α
  | [], _ => []
  | a :: rest, j => f j a ++ gather f rest (j.act a)

/-- What is told during a row of acts. -/
def transcript : List Act → Journal → List Line :=
  gather tells

/-- Entries of a category that are brought before the rate gate during a row of acts. -/
def offered (c : Category) (acts : List Act) (j : Journal) : Nat :=
  (gather offers acts j).countP fun e => e.category = c

end Journal

/-! ### One entry at the rate gate -/

namespace Window

variable {w : Window} {limit n : Nat}

/-- The limit decides, against the number of entries let through before. -/
theorem passes_offer : (w.offer limit).passes = decide (w.admitted < limit) := by
  unfold offer
  split_ifs <;> simp_all

theorem admitted_offer : (w.offer limit).window.admitted =
    w.admitted + if w.admitted < limit then 1 else 0 := by
  unfold offer
  split_ifs <;> rfl

/-- **One entry, by the books.** It is let through, or reported, or still to be reported, along with
    those that were still to be reported before it. -/
theorem dropped_offer : (if w.admitted < limit then 1 else 0) + (w.offer limit).report.getD 0 +
    (w.offer limit).window.dropped = 1 + w.dropped := by
  unfold offer
  split_ifs <;> simp <;> omega

end Window

/-- **The books of a category** over some lines. Of the entries brought before the rate gate in the
    meantime, and of those that were still to be reported, each is written, reported, or still to be
    reported; and what is written is counted. -/
structure Balanced (c : Category) (lines : List Line) (offered : Nat) (w w' : Window) : Prop where
  dropped : written c lines + reported c lines + w'.dropped = offered + w.dropped
  admitted : w'.admitted = w.admitted + written c lines

namespace Balanced

variable {c : Category} {l l' : List Line} {n n' : Nat} {w w' w'' : Window}

/-- Lines about other categories. -/
theorem of_about_nil (h : about c l = []) : Balanced c l 0 w w := by
  have hwritten : written c l = 0 := by rw [written, h]; rfl
  have hreported : reported c l = 0 := by rw [reported, h]; rfl
  constructor <;> omega

/-- Books that are carried on. -/
theorem append (h : Balanced c l n w w') (h' : Balanced c l' n' w' w'') :
    Balanced c (l ++ l') (n + n') w w'' := by
  obtain ⟨hdropped, hadmitted⟩ := h
  obtain ⟨hdropped', hadmitted'⟩ := h'
  constructor
  · rw [written_append, reported_append]
    omega
  · rw [written_append]
    omega

end Balanced

/-! ### One act -/

namespace Journal

variable {j j' : Journal} {a : Act} {c : Category} {e : Entry} {acts : List Act}

/-- What offering an entry brings about, in terms of the rate gate's answer. -/
theorem write_of_enabled (h : j.enabled e.category e.level) : j.write e =
    ⟨{ j with windows := j.windows.set e.category (j.admission e).window },
      (match (j.admission e).report with
        | some n => if 0 < n then [dropLine e.category n] else []
        | none => []) ++ if (j.admission e).passes then [e.line] else [],
      (j.admission e).passes⟩ := by
  rw [write, if_pos h]
  rfl

/-- An entry that does not pass the level gate brings about nothing. -/
theorem write_of_not (h : ¬ j.enabled e.category e.level) : j.write e = ⟨j, [], false⟩ := by
  rw [write, if_neg h]

theorem tells_log (h : j.enabled e.category e.level) : j.tells (.log e) =
    ((j.admission e).report.map (.report e.category)).toList ++
      if (j.admission e).passes then [.message e] else [] := by
  rw [tells, offers, if_pos h, List.flatMap_singleton]

theorem tells_log_of_not (h : ¬ j.enabled e.category e.level) : j.tells (.log e) = [] := by
  rw [tells, offers, if_neg h]
  rfl

/-- The lines of an entry: a report, and the entry itself. -/
theorem mem_tells_log {l : Line} (h : l ∈ j.tells (.log e)) :
    (∃ n, (j.admission e).report = some n ∧ l = .report e.category n) ∨ l = .message e := by
  by_cases henabled : j.enabled e.category e.level
  · rw [tells_log henabled, List.mem_append] at h
    rcases h with h | h
    · obtain ⟨n, hn, rfl⟩ := Option.map_eq_some_iff.mp (Option.mem_toList.mp h)
      exact .inl ⟨n, hn, rfl⟩
    · split_ifs at h
      · exact .inr (List.mem_singleton.mp h)
      · cases h
  · rw [tells_log_of_not henabled] at h
    cases h

/-- Each line is about the category of the entry that brought it about. -/
theorem category_of_tells {l : Line} (h : l ∈ j.tells (.log e)) : l.category = e.category := by
  obtain ⟨n, -, rfl⟩ | rfl := mem_tells_log h <;> rfl

/-- All lines of an entry are about its category. -/
theorem about_tells (h : e.category = c) : about c (j.tells (.log e)) = j.tells (.log e) :=
  List.filter_eq_self.mpr fun _ hl => decide_eq_true ((category_of_tells hl).trans h)

/-- No line of an entry is about another category. -/
theorem about_tells_of_ne (h : e.category ≠ c) : about c (j.tells (.log e)) = [] :=
  List.filter_eq_nil_iff.mpr fun _ hl hc =>
    h ((category_of_tells hl).symm.trans (of_decide_eq_true hc))

/-- **What an act writes:** an entry that passes the level gate, as long as fewer of its category
    than the limit were let through before. -/
theorem shown_tells (j : Journal) (e : Entry) : (j.tells (.log e)).filterMap Line.shown? =
    if j.enabled e.category e.level ∧ (j.windows.get e.category).admitted < j.limit then [e]
    else [] := by
  by_cases h : j.enabled e.category e.level
  · have hpasses : (j.admission e).passes = _ := Window.passes_offer
    rw [tells_log h, hpasses]
    simp only [h, true_and, decide_eq_true_eq]
    cases (j.admission e).report <;> split_ifs <;> rfl
  · rw [tells_log_of_not h, if_neg fun hboth => h hboth.1]
    rfl

/-! ### The books of a category -/

/-- What the lines of an entry report. -/
theorem sum_heldBack_tells (h : j.enabled e.category e.level) :
    ((j.tells (.log e)).map Line.heldBack).sum = (j.admission e).report.getD 0 := by
  rw [tells_log h]
  cases (j.admission e).report <;> split_ifs <;> rfl

/-- The books of a category that an act does nothing to. -/
theorem balanced_idle (htells : about c (j.tells a) = [])
    (hoffers : (j.offers a).countP (fun e => e.category = c) = 0)
    (hwindow : (j.act a).windows.get c = j.windows.get c) :
    Balanced c (j.tells a) ((j.offers a).countP fun e => e.category = c) (j.windows.get c)
      ((j.act a).windows.get c) := by
  rw [hoffers, hwindow]
  exact .of_about_nil htells

/-- The windows once an entry that is enabled has been offered. -/
theorem get_windows_log (h : j.enabled e.category e.level) (c : Category) :
    (j.act (.log e)).windows.get c =
      if c = e.category then (j.admission e).window else j.windows.get c := by
  rw [act, write_of_enabled h]
  exact PerCategory.get_set ..

/-- **An entry is offered,** and written, reported or dropped as the window of its category has
    it. -/
theorem balanced_offer (henabled : j.enabled e.category e.level) (hc : e.category = c) :
    Balanced c (j.tells (.log e)) ((j.offers (.log e)).countP fun e => e.category = c)
      (j.windows.get c) ((j.act (.log e)).windows.get c) := by
  have hwritten : written c (j.tells (.log e)) =
      if (j.windows.get c).admitted < j.limit then 1 else 0 := by
    rw [written, about_tells hc, shown_tells, ← hc]
    simp only [henabled, true_and]
    split_ifs <;> rfl
  have hreported : reported c (j.tells (.log e)) = (j.admission e).report.getD 0 := by
    rw [reported, about_tells hc, sum_heldBack_tells henabled]
  have hoffered : (j.offers (.log e)).countP (fun e => e.category = c) = 1 := by
    rw [offers, if_pos henabled]
    simp [hc]
  have hwindow := get_windows_log henabled c
  rw [admission, hc] at hreported hwindow
  rw [hoffered, hwindow, if_pos rfl]
  constructor
  · rw [hwritten, hreported]
    exact Window.dropped_offer
  · rw [hwritten]
    exact Window.admitted_offer

/-- **One act, by the books.** -/
theorem balanced_act (j : Journal) (a : Act) (c : Category) :
    Balanced c (j.tells a) ((j.offers a).countP fun e => e.category = c) (j.windows.get c)
      ((j.act a).windows.get c) := by
  cases a with
  | log e =>
    by_cases henabled : j.enabled e.category e.level
    · by_cases hc : e.category = c
      · exact balanced_offer henabled hc
      · have hwindow := get_windows_log henabled c
        refine balanced_idle (about_tells_of_ne hc) ?_ (hwindow.trans (if_neg (Ne.symm hc)))
        simp [offers, henabled, hc]
    · refine balanced_idle ?_ ?_ ?_
      · rw [tells_log_of_not henabled]
        rfl
      · simp [offers, henabled]
      · rw [act, write_of_not henabled]
  | _ => exact balanced_idle rfl rfl rfl

/-- The journal after a row of acts. -/
def after (acts : List Act) (j : Journal) : Journal :=
  acts.foldl act j

/-- **Any acts, by the books.** -/
theorem balanced (acts : List Act) (j : Journal) (c : Category) :
    Balanced c (transcript acts j) (offered c acts j) (j.windows.get c)
      ((after acts j).windows.get c) := by
  induction acts generalizing j with
  | nil => exact .of_about_nil rfl
  | cons a rest ih =>
    have hoffered : offered c (a :: rest) j =
        ((j.offers a).countP fun e => e.category = c) + offered c rest (j.act a) :=
      List.countP_append ..
    rw [hoffered]
    exact (j.balanced_act a c).append (ih (j.act a))

/-! ### One category and the others -/

/-- **Two journals that are the same to a category.** -/
structure Like (c : Category) (j j' : Journal) : Prop where
  overall : j'.overall = j.overall
  own : j'.own.get c = j.own.get c
  limit : j'.limit = j.limit
  window : j'.windows.get c = j.windows.get c

namespace Like

theorem refl (c : Category) (j : Journal) : Like c j j :=
  ⟨rfl, rfl, rfl, rfl⟩

/-- Entries of the category pass or fail the level gate in both. -/
theorem enabled (h : Like c j j') (level : Level) : j'.enabled c level = j.enabled c level := by
  rw [Journal.enabled, Journal.enabled, threshold, threshold, h.own, h.overall]

/-- The rate gate answers the same in both. -/
theorem admission (h : Like c j j') (hc : e.category = c) : j'.admission e = j.admission e := by
  rw [Journal.admission, Journal.admission, hc, h.window, h.limit]

/-- An act about the category tells the same in both. -/
theorem tells (h : Like c j j') (ha : a.concerns c) : j'.tells a = j.tells a := by
  cases a with
  | log e =>
    have hc : e.category = c := of_decide_eq_true ha
    rw [Journal.tells, Journal.tells, offers, offers, hc, h.enabled]
    split_ifs
    · rw [List.flatMap_singleton, List.flatMap_singleton, h.admission hc]
    · rfl
  | _ => rfl

/-- An act about the category leaves them the same. -/
theorem act (h : Like c j j') (ha : a.concerns c) : Like c (j.act a) (j'.act a) := by
  cases a with
  | log e =>
    have hc : e.category = c := of_decide_eq_true ha
    by_cases henabled : j.enabled e.category e.level
    · -- Both journals have the same levels and the same window for the category.
      have henabled' : j'.enabled e.category e.level := by
        rw [hc] at henabled ⊢
        rwa [h.enabled]
      rw [Journal.act, Journal.act, write_of_enabled henabled, write_of_enabled henabled']
      refine ⟨h.overall, h.own, h.limit, ?_⟩
      simp only [PerCategory.get_set, hc, if_true, h.admission hc]
    · have henabled' : ¬ j'.enabled e.category e.level := by
        rw [hc] at henabled ⊢
        rwa [h.enabled]
      rw [Journal.act, Journal.act, write_of_not henabled, write_of_not henabled']
      exact h
  | setOverall level => exact ⟨rfl, h.own, h.limit, h.window⟩
  | setLevel d level =>
    refine ⟨h.overall, ?_, h.limit, h.window⟩
    show (j'.own.set d level).get c = (j.own.set d level).get c
    rw [PerCategory.get_set, PerCategory.get_set, h.own]
  | resetLevels => exact ⟨rfl, rfl, h.limit, h.window⟩
  | setLimit limit => exact ⟨h.overall, h.own, rfl, h.window⟩

/-- An act about another category makes no difference. -/
theorem elsewhere (h : Like c j j') (ha : ¬ a.concerns c) : Like c (j.act a) j' := by
  cases a with
  | log e =>
    have hc : e.category ≠ c := fun hsame => ha (decide_eq_true hsame)
    by_cases henabled : j.enabled e.category e.level
    · rw [Journal.act, write_of_enabled henabled]
      refine ⟨h.overall, h.own, h.limit, ?_⟩
      -- Only the window of the other category has moved.
      simp only [PerCategory.get_set, if_neg (Ne.symm hc), h.window]
    · rw [Journal.act, write_of_not henabled]
      exact h
  | setLevel d level =>
    have hd : d ≠ c := fun hsame => ha (decide_eq_true hsame)
    refine ⟨h.overall, ?_, h.limit, h.window⟩
    show j'.own.get c = (j.own.set d level).get c
    rw [PerCategory.get_set, if_neg (Ne.symm hd), h.own]
  | setOverall level => exact absurd rfl ha
  | resetLevels => exact absurd rfl ha
  | setLimit limit => exact absurd rfl ha

end Like

variable {α β : Type}

end Journal

open Journal

/-- With a limit of 1, the first entry held back is reported at once and the other two with the
    entry that a higher limit lets through. -/
example :
    let warn : Act := .log ⟨.mixer, .warn, "late"⟩
    transcript [.setOverall .warn, .setLimit 1, warn, warn, warn, warn, .setLimit 9, warn] {} =
      [.message ⟨.mixer, .warn, "late"⟩, .report .mixer 1, .report .mixer 2,
        .message ⟨.mixer, .warn, "late"⟩] := by
  decide

end ConsolePipeline.Log
