import Mathlib.Data.List.Pairwise
import ConsolePipeline.Proofs.Json.Codec

namespace ConsolePipeline.Json

/-!
# Edited documents

An object may be edited in three ways that a reader of records is lenient about: its members are put
in another order, members with new names are added, and members are left out. It is strict about a
fourth: no member may be there twice.

* `Edits`, `Edited` — which edits are made, and a value after them; `Repeated` — a value after a
  member has been repeated.
* `Codec.Lenient` — a codec that reads what it wrote after edits, and refuses a repeated member.
* `Member.Commute`, `readMembers_perm` — members with different names may be read in any order.
* `Member.Takes` — what the fields make of edited members, one by one.
* `Codec.record_lenient` — records.
-/

/-- Whether a value is no object. -/
def Value.isFlat : Value → Bool
  | .object _ => false
  | _ => true

/-- Which edits are made to the objects of a document. A place is given by the names on the way to
    it. -/
structure Edits where
  /-- Whether the member at a place stays. -/
  keeps : List String → Bool
  /-- Whether a value may be added to the object at a place, under a new name. -/
  admits : List String → Value → Prop

/-- A member that may be added to an object with members `ms`. -/
def Edits.Adds (e : Edits) (path : List String) (ms : List (Text × Value)) (m : Text × Value) :
    Prop :=
  m.1.isSome ∧ m.1 ∉ ms.map Prod.fst ∧ e.admits path m.2

mutual

/-- **A value after edits.** The members of each object are in any order, some are left out, and
    some are added. -/
inductive Edited (e : Edits) : List String → Value → Value → Prop
  | leaf {path : List String} {v : Value} (hflat : v.isFlat = true) : Edited e path v v
  | object {path : List String} {ms ks added ns : List (Text × Value)}
    (hkept : EditedMembers e path ms ks) (hadded : ∀ m ∈ added, e.Adds path ms m)
    (horder : ns.Perm (ks ++ added)) : Edited e path (.object ms) (.object ns)

/-- The members of an object that stay, with their values after edits. -/
inductive EditedMembers (e : Edits) :
    List String → List (Text × Value) → List (Text × Value) → Prop
  | nil {path : List String} : EditedMembers e path [] []
  | keep {path : List String} {k : String} {v w : Value} {ms ks : List (Text × Value)}
    (hkeep : e.keeps (path ++ [k]) = true) (hv : Edited e (path ++ [k]) v w)
    (hrest : EditedMembers e path ms ks) :
    EditedMembers e path ((some k, v) :: ms) ((some k, w) :: ks)
  | drop {path : List String} {k : String} {v : Value} {ms ks : List (Text × Value)}
    (hdrop : e.keeps (path ++ [k]) = false) (hrest : EditedMembers e path ms ks) :
    EditedMembers e path ((some k, v) :: ms) ks

end

/-- **A value after a member has been repeated,** in itself or further in. -/
inductive Repeated (e : Edits) : List String → Value → Value → Prop
  | here {path : List String} {ms ks added ns : List (Text × Value)} {k m : Text × Value}
    (hkept : EditedMembers e path ms ks) (horder : ns.Perm (ks ++ added)) (hk : k ∈ ks)
    (hm : m ∈ added) (hsame : m.1 = k.1) : Repeated e path (.object ms) (.object ns)
  | inside {path : List String} {ms ns : List (Text × Value)} {k : String} {v w : Value}
    (hv : (some k, v) ∈ ms) (hw : (some k, w) ∈ ns) (h : Repeated e (path ++ [k]) v w) :
    Repeated e path (.object ms) (.object ns)

variable {e : Edits} {path : List String} {v w : Value} {ms ks added ns : List (Text × Value)}

/-- Only an object is changed by edits. -/
theorem Edited.eq_of_flat (h : Edited e path v w) (hflat : v.isFlat = true) : w = v := by
  cases h with
  | leaf => rfl
  | object => cases hflat

/-- Only an object has members that can be repeated. -/
theorem Repeated.not_flat (h : Repeated e path v w) (hflat : v.isFlat = true) : False := by
  cases h <;> cases hflat

/-- The names that stay are in their order. -/
theorem EditedMembers.names_sublist (h : EditedMembers e path ms ks) :
    (ks.map Prod.fst).Sublist (ms.map Prod.fst) := by
  induction ms generalizing ks with
  | nil =>
    cases h
    exact .slnil
  | cons m ms ih =>
    cases h with
    | keep _ _ hrest => exact (ih hrest).cons_cons _
    | drop _ hrest => exact (ih hrest).cons _

/-- Members that hold no objects are left as they are, or out. -/
theorem EditedMembers.sublist_of_flat (h : EditedMembers e path ms ks)
    (hflat : ∀ m ∈ ms, m.2.isFlat = true) : ks.Sublist ms := by
  induction ms generalizing ks with
  | nil =>
    cases h
    exact .slnil
  | cons m ms ih =>
    have hrest_flat : ∀ m ∈ ms, m.2.isFlat = true := fun m hm =>
      hflat m (List.mem_cons_of_mem _ hm)
    cases h with
    | keep _ hv hrest =>
      rw [hv.eq_of_flat (hflat _ List.mem_cons_self)]
      exact (ih hrest hrest_flat).cons_cons _
    | drop _ hrest => exact (ih hrest hrest_flat).cons _

mutual

/-- A document may be left as it is. -/
theorem Edited.refl (hkeeps : ∀ p, e.keeps p = true) : ∀ (path : List String) (v : Value),
    v.Legible → Edited e path v v
  | _, .null, _ | _, .bool _, _ | _, .number _, _ | _, .string _, _ | _, .array _, _ => .leaf rfl
  | path, .object ms, h => .object (EditedMembers.refl hkeeps path ms h) (List.forall_mem_nil _)
      (by rw [List.append_nil])

theorem EditedMembers.refl (hkeeps : ∀ p, e.keeps p = true) :
    ∀ (path : List String) (ms : List (Text × Value)), Value.Legible.membersLegible ms →
      EditedMembers e path ms ms
  | _, [], _ => .nil
  | path, (some k, v) :: ms, h => .keep (hkeeps _) (Edited.refl hkeeps (path ++ [k]) v h.2.1)
      (EditedMembers.refl hkeeps path ms h.2.2)
  | _, (none, _) :: _, h => nomatch h.1

end

/-! ### Lenient codecs -/

/-- **A codec reads what it wrote for `a` also after edits, then as `a'`,** and refuses it once a
    member has been repeated. -/
structure Codec.Lenient {α : Type} (c : Codec α) (e : Edits) (path : List String) (a a' : α) :
    Prop where
  reads : ∀ {w : Value}, Edited e path (c.write a) w → c.read? w = some a'
  refuses : ∀ {w : Value}, Repeated e path (c.write a) w → c.read? w = none

namespace Codec

/-- What is written without objects is not changed by edits. -/
theorem Faithful.lenient {α : Type} {c : Codec α} (h : c.Faithful)
    (hflat : ∀ a, (c.write a).isFlat = true) (a : α) : c.Lenient e path a a where
  reads hw := by
    rw [hw.eq_of_flat (hflat a)]
    exact h.reads a
  refuses hw := (hw.not_flat (hflat a)).elim

theorem bool_lenient (b : Bool) : bool.Lenient e path b b :=
  bool_faithful.lenient (fun _ => rfl) b

theorem uint8_lenient (n : UInt8) : uint8.Lenient e path n n :=
  uint8_faithful.lenient (fun _ => rfl) n

theorem uint32_lenient (n : UInt32) : uint32.Lenient e path n n :=
  uint32_faithful.lenient (fun _ => rfl) n

theorem uint64_lenient (n : UInt64) : uint64.Lenient e path n n :=
  uint64_faithful.lenient (fun _ => rfl) n

end Codec

namespace Member

variable {α ρ : Type} {fields all : List (Member ρ)} {f g : Member ρ}

/-! ### The order of members -/

/-- Two fields may be read in either order. -/
def Commute (f g : Member ρ) : Prop :=
  ∀ v w r, (f.read? v r).bind (g.read? w) = (g.read? w r).bind (f.read? v)

instance : Std.Symm (@Commute ρ) where
  symm _ _ h v w r := (h w v r).symm

/-- Fields that set different parts of a record commute. -/
theorem commute_of {β : Type} {c : Codec α} {d : Codec β} {name name' : String} {get : ρ → α}
    {get' : ρ → β} {set : α → ρ → ρ} {set' : β → ρ → ρ}
    (h : ∀ a b r, set' b (set a r) = set a (set' b r)) :
    Commute (of name c get set) (of name' d get' set') := by
  intro v w r
  cases hv : c.read? v <;> cases hw : d.read? w <;> simp [of, hv, hw, h]

/-- Reading one member. -/
def readOne (fields : List (Member ρ)) (m : Text × Value) (r : ρ) : Option ρ :=
  match fields.find? fun f => some f.name == m.1 with
  | some f => f.read? m.2 r
  | none => some r

theorem readMembers_cons (m : Text × Value) (ms : List (Text × Value)) (r : ρ) :
    readMembers fields (m :: ms) r = (readOne fields m r).bind (readMembers fields ms) := by
  obtain ⟨k, v⟩ := m
  rw [readMembers, readOne]
  cases fields.find? fun f => some f.name == k <;> rfl

theorem readMembers_append (ms ns : List (Text × Value)) (r : ρ) :
    readMembers fields (ms ++ ns) r =
      (readMembers fields ms r).bind (readMembers fields ns) := by
  induction ms generalizing r with
  | nil => rfl
  | cons m ms ih =>
    rw [List.cons_append, readMembers_cons, readMembers_cons, Option.bind_assoc]
    congr 1
    funext r
    exact ih r

/-- Members with other names are ignored. -/
theorem readMembers_unknown (h : ∀ m ∈ ms, ∀ f ∈ fields, m.1 ≠ some f.name) (r : ρ) :
    readMembers fields ms r = some r := by
  induction ms with
  | nil => rfl
  | cons m ms ih =>
    have hnone : fields.find? (fun f => some f.name == m.1) = none := by
      rw [List.find?_eq_none]
      intro f hf hsame
      exact h m List.mem_cons_self f hf (beq_iff_eq.mp hsame).symm
    rw [readMembers_cons, readOne, hnone]
    exact ih fun m hm => h m (List.mem_cons_of_mem _ hm)

/-- Two members with different names may be read in either order. -/
theorem readOne_comm (hcommute : fields.Pairwise Commute) {m n : Text × Value}
    (hdistinct : ∀ f ∈ fields, m.1 = some f.name → n.1 ≠ some f.name) (r : ρ) :
    (readOne fields m r).bind (readOne fields n) =
      (readOne fields n r).bind (readOne fields m) := by
  -- A member that names no field is skipped; that leaves two members of different fields.
  have hskip : ∀ {o : Text × Value}, fields.find? (fun f => some f.name == o.1) = none →
      readOne fields o = some := fun ho => by
    funext r
    rw [readOne, ho]
  cases hm : fields.find? fun f => some f.name == m.1 with
  | none => rw [hskip hm, Option.bind_some, Option.bind_fun_some]
  | some f =>
    cases hn : fields.find? fun f => some f.name == n.1 with
    | none => rw [hskip hn, Option.bind_some, Option.bind_fun_some]
    | some g =>
      have hread : ∀ {o : Text × Value} {h : Member ρ},
          fields.find? (fun f => some f.name == o.1) = some h →
          readOne fields o = h.read? o.2 := fun ho => by
        funext r
        rw [readOne, ho]
      have hfname : some f.name = m.1 := by simpa using List.find?_some hm
      have hgname : some g.name = n.1 := by simpa using List.find?_some hn
      have hne : f ≠ g := by
        rintro rfl
        exact hdistinct f (List.mem_of_find?_eq_some hm) hfname.symm hgname.symm
      have hfg : Commute f g :=
        hcommute.forall (List.mem_of_find?_eq_some hm) (List.mem_of_find?_eq_some hn) hne
      rw [hread hm, hread hn]
      exact hfg m.2 n.2 r

/-- No field is there twice. -/
def Once (fields : List (Member ρ)) (ms : List (Text × Value)) : Prop :=
  ∀ f ∈ fields, (ms.map Prod.fst).count (some f.name) ≤ 1

theorem areDistinct_iff :
    areDistinct fields ms = true ↔ (∀ m ∈ ms, m.1.isSome) ∧ Once fields ms := by
  simp [areDistinct, Once, List.count, List.countP_map, Function.comp_def]

theorem Once.perm (h : Once fields ms) (hperm : ms.Perm ns) : Once fields ns := by
  intro f hf
  rw [← (hperm.map Prod.fst).count_eq]
  exact h f hf

theorem Once.tail {m : Text × Value} (h : Once fields (m :: ms)) : Once fields ms := by
  intro f hf
  refine Nat.le_trans ?_ (h f hf)
  rw [List.map_cons, List.count_cons]
  exact Nat.le_add_right _ _

/-- **Members may be read in any order** if no field is there twice. -/
theorem readMembers_perm (hcommute : fields.Pairwise Commute) (hperm : ms.Perm ns)
    (honce : Once fields ms) (r : ρ) : readMembers fields ms r = readMembers fields ns r := by
  induction hperm generalizing r with
  | nil => rfl
  | cons m _ ih =>
    rw [readMembers_cons, readMembers_cons]
    congr 1
    funext r
    exact ih honce.tail r
  | swap m n ms =>
    -- Two neighbours change places, and they do not name the same field.
    have hdistinct : ∀ f ∈ fields, n.1 = some f.name → m.1 ≠ some f.name := by
      intro f hf hn hm
      have htwo := honce f hf
      rw [List.map_cons, List.map_cons, hn, hm, List.count_cons_self, List.count_cons_self] at htwo
      omega
    have hboth : ∀ a b : Text × Value, readMembers fields (a :: b :: ms) r =
        ((readOne fields a r).bind (readOne fields b)).bind (readMembers fields ms) := by
      intro a b
      rw [readMembers_cons, Option.bind_assoc]
      congr 1
      funext r
      exact readMembers_cons b ms r
    rw [hboth, hboth, readOne_comm hcommute hdistinct]
  | trans hperm _ ih₁ ih₂ => exact (ih₁ honce r).trans (ih₂ (honce.perm hperm) r)

/-! ### Edited records -/

/-- What a field refuses, the record refuses. -/
theorem readMembers_none (hfind : fields.find? (fun g => some g.name == some f.name) = some f)
    (hmem : (some f.name, w) ∈ ms) (hnone : ∀ r, f.read? w r = none) (r : ρ) :
    readMembers fields ms r = none := by
  induction ms generalizing r with
  | nil => cases hmem
  | cons m ms ih =>
    rw [readMembers_cons]
    rcases List.mem_cons.mp hmem with rfl | hmem
    · rw [readOne, hfind]
      simp only [hnone, Option.bind_none]
    · cases readOne fields m r with
      | none => rfl
      | some r => exact ih hmem r

theorem names_written (r : ρ) (fields : List (Member ρ)) :
    (written r fields).map Prod.fst = (fields.map name).map some := by
  simp [written]

/-- After edits, each field is still there once at most. -/
theorem areDistinct_edited (hnames : (fields.map name).Nodup) {r : ρ}
    (hkept : EditedMembers e path (written r fields) ks)
    (hadded : ∀ m ∈ added, e.Adds path (written r fields) m) (horder : ns.Perm (ks ++ added)) :
    areDistinct fields ns = true := by
  have hnodup : ((written r fields).map Prod.fst).Nodup := by
    rw [names_written]
    exact hnames.map fun _ _ => Option.some.inj
  refine areDistinct_iff.mpr ⟨fun m hm => ?_, fun f hf => ?_⟩
  · -- A name is that of a member that was kept or of one that has been added.
    rcases List.mem_append.mp (horder.mem_iff.mp hm) with hm | hm
    · have hname := hkept.names_sublist.subset (List.mem_map_of_mem hm)
      rw [names_written] at hname
      obtain ⟨n, -, hn⟩ := List.mem_map.mp hname
      exact hn ▸ rfl
    · exact (hadded m hm).1
  · -- No member that has been added has the name of a field, so only the kept ones count.
    have hnew : (added.map Prod.fst).count (some f.name) = 0 := by
      rw [List.count_eq_zero]
      intro hmem
      obtain ⟨m, hm, hname⟩ := List.mem_map.mp hmem
      refine (hadded m hm).2.1 ?_
      rw [hname, names_written]
      exact List.mem_map_of_mem (List.mem_map_of_mem hf)
    rw [(horder.map Prod.fst).count_eq, List.map_append, List.count_append, hnew]
    exact Nat.le_trans (hkept.names_sublist.count_le _)
      (List.nodup_iff_count_le_one.mp hnodup _)

/-- **What the fields make of edited members:** from what was written for `r`, read into `s`, they
    make `s'`. -/
structure Takes (e : Edits) (path : List String) (fields : List (Member ρ)) (r s s' : ρ) :
    Prop where
  reads : ∀ {all : List (Member ρ)} {ks : List (Text × Value)},
    (∀ f ∈ fields, all.find? (fun g => some g.name == some f.name) = some f) →
    EditedMembers e path (written r fields) ks → readMembers all ks s = some s'
  refuses : ∀ f ∈ fields, ∀ {w : Value}, Repeated e (path ++ [f.name]) (f.write r) w →
    ∀ t, f.read? w t = none

theorem Takes.nil {r s : ρ} : Takes e path [] r s s where
  reads _ h := by
    cases h
    rfl
  refuses _ hf := absurd hf List.not_mem_nil

/-- **A field whose member stays takes its value; the other fields stay as they are.** -/
theorem Takes.of {name : String} {c : Codec α} {get : ρ → α} {set : α → ρ → ρ} {r s s' : ρ} {a : α}
    (hc : c.Lenient e (path ++ [name]) (get r) a) (hset : set (get s) s = s)
    (h : Takes e path fields r (set (if e.keeps (path ++ [name]) then a else get s) s) s') :
    Takes e path (.of name c get set :: fields) r s s' where
  reads := by
    -- The member of the field comes first; what is read from the others does not depend on it.
    intro all ks hfind hks
    have hrest : ∀ f ∈ fields, all.find? (fun g => some g.name == some f.name) = some f :=
      fun f hf => hfind f (List.mem_cons_of_mem _ hf)
    cases hks with
    | keep hkeep hv hks =>
      have hread := h.reads hrest hks
      have hkeep : e.keeps (path ++ [name]) = true := hkeep
      rw [if_pos hkeep] at hread
      rw [readMembers_cons, readOne, hfind _ List.mem_cons_self]
      show ((c.read? _).map (set · s)).bind _ = _
      rw [hc.reads hv]
      exact hread
    | drop hdrop hks =>
      have hread := h.reads hrest hks
      have hdrop : e.keeps (path ++ [name]) = false := hdrop
      rwa [hdrop, if_neg Bool.false_ne_true, hset] at hread
  refuses := by
    intro f hf w hw t
    rcases List.mem_cons.mp hf with rfl | hf
    · show (c.read? w).map (set · t) = none
      rw [hc.refuses hw]
      rfl
    · exact h.refuses f hf hw t

end Member

namespace Codec

open Member

variable {ρ : Type} {fields : List (Member ρ)} {start r r' : ρ}

theorem record_read?_none
    (h : readMembers fields ns start = none ∨ areDistinct fields ns = false) :
    (record fields start).read? (.object ns) = none := by
  simp only [record]
  split
  · rename_i hdistinct
    exact h.resolve_right (ne_false_of_eq_true hdistinct)
  · rfl

/-- **A record is read after edits,** and refused once a field has been repeated. -/
theorem record_lenient (hnames : (fields.map Member.name).Nodup)
    (hcommute : fields.Pairwise Commute) (htakes : Takes e path fields r start r') :
    (record fields start).Lenient e path r r' := by
  have hfind : ∀ f ∈ fields, fields.find? (fun g => some g.name == some f.name) = some f := by
    intro f hf
    simpa using find?_of_nodup hnames hf
  refine ⟨fun {w} hw => ?_, fun {w} hw => ?_⟩
  · rw [record_write] at hw
    cases hw with
    | leaf hflat => cases hflat
    | @object _ _ ks added ns hkept hadded horder =>
      have hdistinct := areDistinct_edited hnames hkept hadded horder
      have hunknown : ∀ m ∈ added, ∀ f ∈ fields, m.1 ≠ some f.name := by
        intro m hm f hf hname
        refine (hadded m hm).2.1 ?_
        rw [hname, names_written]
        exact List.mem_map_of_mem (List.mem_map_of_mem hf)
      -- In another order, what stays is read first, and what has been added is then ignored.
      have hread : readMembers fields ns start = some r' := by
        rw [readMembers_perm hcommute horder (areDistinct_iff.mp hdistinct).2, readMembers_append,
          htakes.reads hfind hkept]
        exact readMembers_unknown hunknown r'
      simp only [record, hdistinct, if_true, hread]
  · rw [record_write] at hw
    cases hw with
    | @here _ _ ks added ns k m hkept horder hk hm hsame =>
      refine record_read?_none (.inr (Bool.eq_false_iff.mpr fun hdistinct => ?_))
      -- The member that stays names a field, and the one that has been added names it again.
      have hname := hkept.names_sublist.subset (List.mem_map_of_mem hk)
      rw [names_written] at hname
      obtain ⟨n, hn, hkname⟩ := List.mem_map.mp hname
      obtain ⟨f, hf, rfl⟩ := List.mem_map.mp hn
      have honce := (areDistinct_iff.mp hdistinct).2 f hf
      have hfirst : 0 < (ks.map Prod.fst).count (some f.name) :=
        List.count_pos_iff.mpr (hkname ▸ List.mem_map_of_mem hk)
      have hsecond : 0 < (added.map Prod.fst).count (some f.name) :=
        List.count_pos_iff.mpr (hkname ▸ hsame ▸ List.mem_map_of_mem hm)
      rw [(horder.map Prod.fst).count_eq, List.map_append, List.count_append] at honce
      omega
    | @inside _ _ ns k v w hv hmem hrepeated =>
      obtain ⟨f, hf, hfield⟩ := List.mem_map.mp hv
      obtain ⟨rfl, rfl⟩ : f.name = k ∧ f.write r = v := by simpa using hfield
      exact record_read?_none
        (.inl (readMembers_none (hfind f hf) hmem (htakes.refuses f hf hrepeated) start))

end Codec

end ConsolePipeline.Json
