import Mathlib.Data.List.Nodup
import ConsolePipeline.Json.Codec
import ConsolePipeline.Proofs.Json.Pretty

namespace ConsolePipeline.Json

/-!
# Codecs that read back what they write

* `find?_of_nodup` — what has a name of its own is found by that name.
* `Codec.Faithful` — a codec that reads back every value it writes.
* `Codec.unsigned_faithful`, `choice_faithful`, `pair_faithful` — numbers, names, two values.
* `Member.carry` — fields carried over one by one; `Codec.record_faithful` — records.
-/

/-- Where no two elements share a name, one is found by its own. -/
theorem find?_of_nodup {α β : Type} [BEq β] [LawfulBEq β] {name : α → β} {l : List α} {a : α}
    (hnames : (l.map name).Nodup) (ha : a ∈ l) : l.find? (fun b => name b == name a) = some a := by
  induction l with
  | nil => cases ha
  | cons b l ih =>
    rw [List.map_cons, List.nodup_cons] at hnames
    rcases List.mem_cons.mp ha with rfl | hmem
    · simp
    · have hne : name b ≠ name a := by
        intro heq
        exact hnames.1 (heq ▸ List.mem_map_of_mem hmem)
      rw [List.find?_cons_of_neg (by simpa using hne)]
      exact ih hnames.2 hmem

namespace Codec

variable {α ρ : Type}

/-- **A codec that reads back every value it writes.** What it writes can be told from its text. -/
structure Faithful (c : Codec α) : Prop where
  legible : ∀ a, (c.write a).Legible
  reads : ∀ a, c.read? (c.write a) = some a

@[simp] theorem bool_faithful : bool.Faithful where
  legible _ := trivial
  reads _ := rfl

/-- Numbers below the bound are read back. -/
theorem unsigned_faithful {bound : Nat} {toNat : α → Nat} {ofNat : Nat → α}
    (hbound : ∀ a, toNat a < bound) (hback : ∀ a, ofNat (toNat a) = a) :
    (unsigned bound toNat ofNat).Faithful where
  legible a := Number.settled_ofNat (toNat a)
  reads a := by simp [unsigned, Value.ofNat, hbound, hback]

@[simp] theorem uint8_faithful : uint8.Faithful :=
  unsigned_faithful UInt8.toNat_lt fun _ => UInt8.ofNat_toNat

@[simp] theorem uint32_faithful : uint32.Faithful :=
  unsigned_faithful UInt32.toNat_lt fun _ => UInt32.ofNat_toNat

@[simp] theorem uint64_faithful : uint64.Faithful :=
  unsigned_faithful UInt64.toNat_lt fun _ => UInt64.ofNat_toNat

theorem pair_faithful {c : Codec α} (h : c.Faithful) : (pair c).Faithful where
  legible p := ⟨h.legible p.1, h.legible p.2, trivial⟩
  reads p := by simp [pair, h.reads]

/-- Each of some values with names of their own is read back. -/
theorem choice_faithful {all : List α} {name : α → String} {isVoid : Value → Bool}
    (hnames : (all.map name).Nodup) (hall : ∀ a, a ∈ all) : (choice all name isVoid).Faithful where
  legible _ := rfl
  reads a := find?_of_nodup hnames (hall a)

end Codec

/-! ### Records -/

namespace Member

variable {α ρ : Type}

/-- The fields of `r`, carried over into `s` one by one. -/
def carry (r : ρ) (fields : List (Member ρ)) (s : ρ) : Option ρ :=
  fields.foldlM (fun s f => f.read? (f.write r) s) s

@[simp] theorem carry_nil (r s : ρ) : carry r [] s = some s := rfl

@[simp] theorem legible_of {c : Codec α} (h : c.Faithful) (name : String) (get : ρ → α)
    (set : α → ρ → ρ) (r : ρ) : ((of name c get set).write r).Legible :=
  h.legible (get r)

/-- A field with a faithful codec is carried over. -/
@[simp] theorem carry_of {c : Codec α} (h : c.Faithful) (name : String) (get : ρ → α)
    (set : α → ρ → ρ) (r : ρ) (fields : List (Member ρ)) (s : ρ) :
    carry r (of name c get set :: fields) s = carry r fields (set (get r) s) := by
  simp [carry, of, h.reads]

/-- The members that are written for a record. -/
def written (r : ρ) (fields : List (Member ρ)) : List (Text × Value) :=
  fields.map fun f => (some f.name, f.write r)

/-- Reading what was written carries the fields over. -/
theorem readMembers_written {fields : List (Member ρ)} (hnames : (fields.map name).Nodup) (r : ρ)
    {fs : List (Member ρ)} (hfs : fs ⊆ fields) (s : ρ) :
    readMembers fields (written r fs) s = carry r fs s := by
  induction fs generalizing s with
  | nil => rfl
  | cons f fs ih =>
    have hf : fields.find? (fun g => some g.name == some f.name) = some f := by
      simpa using find?_of_nodup hnames (hfs List.mem_cons_self)
    have hrest : fs ⊆ fields := fun g hg => hfs (List.mem_cons_of_mem f hg)
    rw [written, List.map_cons, readMembers]
    simp only [hf]
    show (f.read? (f.write r) s).bind (readMembers fields (written r fs)) = _
    rw [carry, List.foldlM_cons]
    congr 1
    funext s
    exact ih hrest s

/-- What is written for a record names no field twice. -/
theorem areDistinct_written {fields : List (Member ρ)} (hnames : (fields.map name).Nodup) (r : ρ) :
    areDistinct fields (written r fields) = true := by
  have hcount : ∀ n, (written r fields).countP (fun m => m.1 == some n) ≤ 1 := by
    intro n
    have h := List.nodup_iff_count_le_one.mp hnames n
    rw [List.count, List.countP_map] at h
    simpa [written, List.countP_map, Function.comp_def] using h
  have hnamed : ∀ m ∈ written r fields, m.1.isSome := by
    simp [written]
  rw [areDistinct, Bool.and_eq_true, List.all_eq_true, List.all_eq_true]
  exact ⟨hnamed, fun f _ => decide_eq_true (hcount f.name)⟩

theorem legible_written (r : ρ) {fields : List (Member ρ)}
    (hlegible : ∀ f ∈ fields, (f.write r).Legible) :
    Value.Legible.membersLegible (written r fields) := by
  induction fields with
  | nil => trivial
  | cons f fields ih =>
    have hf : (f.write r).Legible := hlegible f List.mem_cons_self
    exact ⟨rfl, hf, ih fun g hg => hlegible g (List.mem_cons_of_mem f hg)⟩

end Member

namespace Codec

variable {ρ : Type}

theorem record_write (fields : List (Member ρ)) (start r : ρ) :
    (record fields start).write r = .object (Member.written r fields) := by
  simp [record, Value.record, Member.written]

/-- **A record is read back** if its fields have names of their own and, carried over one by one,
    make it up. -/
theorem record_faithful {fields : List (Member ρ)} {start : ρ}
    (hnames : (fields.map Member.name).Nodup)
    (hlegible : ∀ r, ∀ f ∈ fields, (f.write r).Legible)
    (hcarry : ∀ r, Member.carry r fields start = some r) : (record fields start).Faithful where
  legible r := by
    rw [record_write]
    exact Member.legible_written r (hlegible r)
  reads r := by
    rw [record_write, record]
    simp only [Member.areDistinct_written hnames r, if_true]
    rw [Member.readMembers_written hnames r (List.Subset.refl fields), hcarry]

end Codec

end ConsolePipeline.Json
