import ConsolePipeline.Proofs.Json.Layout

namespace ConsolePipeline.Json

/-!
# Printed values, read back

A value that is written with its parts on lines of their own is a document that holds it, and so it
is read back as it was.

* `Value.Legible` — the values that a text can stand for.
* `prettyOnto_spelled` — what is printed for a value are its tokens.
* `document_pretty` — a printed value is a document; `parse?_pretty` — it is read back.
-/

namespace Value

/-- **A value that a text can stand for:** every text in it is one, and every number is written as
    it was read. -/
def Legible : Value → Prop
  | .number n => n.Settled
  | .string t => t.isSome
  | .array items => itemsLegible items
  | .object members => membersLegible members
  | _ => True
where
  itemsLegible : List Value → Prop
    | [] => True
    | v :: vs => v.Legible ∧ itemsLegible vs
  membersLegible : List (Text × Value) → Prop
    | [] => True
    | (k, v) :: ms => k.isSome ∧ v.Legible ∧ membersLegible ms

/-! ### The tokens of a printed value -/

variable {p : String} {ts : List Token} {t : Token}

theorem indent_spelled (level : Nat) : Spelled [] (indent level).toList := by
  refine .blank ?_
  intro c hc
  rw [indent, String.toList_append] at hc
  rcases List.mem_append.mp hc with hc | hc
  · obtain rfl : c = '\n' := List.mem_singleton.mp hc
    rfl
  · rw [String.toList_ofList] at hc
    obtain rfl : c = ' ' := List.eq_of_mem_replicate hc
    rfl

theorem quoteText_isToken {k : Text} (hk : k.isSome) : IsToken (.text k) (quoteText k).toList := by
  obtain ⟨s, rfl⟩ := Option.isSome_iff_exists.mp hk
  have htoken := IsToken.text (isBody_escaped s.toList)
  rw [joinSurrogates_codes, Option.map_some, String.ofList_toList, ← toList_quote] at htoken
  exact htoken

theorem number_isToken {n : Number} (h : n.Settled) :
    IsToken (.scalar (.number n)) n.text.toList := by
  have htoken := IsToken.number n.numeral
  rw [n.chars_numeral, Number.number_numeral h] at htoken
  exact htoken

/-- Text that is put behind other text. -/
theorem spelled_append {q : String} {us : List Token} (hp : Spelled ts p.toList)
    (hq : Spelled us q.toList) : Spelled (ts ++ us) (p ++ q).toList := by
  rw [String.toList_append]
  exact hp.append hq

/-- A mark that is put behind other text. -/
theorem spelled_push {c : Char} (hp : Spelled ts p.toList) (hc : IsToken t [c]) :
    Spelled (ts ++ [t]) (p.push c).toList := by
  rw [String.toList_push]
  exact hp.append hc.spelled

/-- A line break and the blanks of a level. -/
theorem spelled_indent (hp : Spelled ts p.toList) (level : Nat) :
    Spelled ts (p ++ indent level).toList := by
  have hblank := spelled_append hp (indent_spelled level)
  rwa [List.append_nil] at hblank

/-- The name of a member and what separates it from the value. -/
theorem spelled_name {k : Text} (hk : k.isSome) (hp : Spelled ts p.toList) (level : Nat) :
    Spelled (ts ++ [.text k, .colon]) (p ++ indent level ++ quoteText k ++ ": ").toList := by
  have hcolon : Spelled [.colon] ": ".toList :=
    .cons (b := []) (by simp) .colon (.blank (b := [' ']) (by simp [isGap]))
  have hname := spelled_append
    (spelled_append (spelled_indent hp level) (quoteText_isToken hk).spelled) hcolon
  rwa [List.append_assoc] at hname

mutual

/-- **What is printed for a value are its tokens.** -/
theorem prettyOnto_spelled (level : Nat) : ∀ {p : String} {ts : List Token} (v : Value),
    Spelled ts p.toList → v.Legible → Spelled (ts ++ v.tokens) (v.prettyOnto level p).toList
  | _, _, .null, hp, _ => spelled_append hp IsToken.null.spelled
  | _, _, .bool true, hp, _ => spelled_append hp IsToken.true.spelled
  | _, _, .bool false, hp, _ => spelled_append hp IsToken.false.spelled
  | _, _, .number _, hp, hv => spelled_append hp (number_isToken hv).spelled
  | _, _, .string _, hp, hv => spelled_append hp (quoteText_isToken hv).spelled
  | _, _, .array [], hp, _ =>
    spelled_append hp (IsToken.openArray.spelled.append IsToken.closeArray.spelled)
  | p, ts, .array (v :: vs), hp, hv => by
    -- After the bracket the first element is on a line of its own, and the others follow it.
    have hopen := spelled_indent (spelled_push hp .openArray) (level + 1)
    have hrest := items_spelled level vs (prettyOnto_spelled (level + 1) v hopen hv.1) hv.2
    rw [prettyOnto, tokens]
    simpa using hrest
  | _, _, .object [], hp, _ =>
    spelled_append hp (IsToken.openObject.spelled.append IsToken.closeObject.spelled)
  | p, ts, .object ((k, v) :: ms), hp, hv => by
    -- As for an array, with a name in front of each value.
    have hname := spelled_name hv.1 (spelled_push hp .openObject) (level + 1)
    have hrest := members_spelled level ms (prettyOnto_spelled (level + 1) v hname hv.2.1) hv.2.2
    rw [prettyOnto, tokens]
    simpa using hrest

theorem items_spelled (level : Nat) : ∀ {p : String} {ts : List Token} (vs : List Value),
    Spelled ts p.toList → Legible.itemsLegible vs →
      Spelled (ts ++ tokens.itemTokens vs) (prettyOnto.items level p vs).toList
  | _, _, [], hp, _ => spelled_push (spelled_indent hp level) .closeArray
  | p, ts, v :: vs, hp, hvs => by
    have hopen := spelled_indent (spelled_push hp .comma) (level + 1)
    have hrest := items_spelled level vs (prettyOnto_spelled (level + 1) v hopen hvs.1) hvs.2
    rw [prettyOnto.items, tokens.itemTokens]
    simpa using hrest

theorem members_spelled (level : Nat) : ∀ {p : String} {ts : List Token}
    (ms : List (Text × Value)), Spelled ts p.toList → Legible.membersLegible ms →
      Spelled (ts ++ tokens.memberTokens ms) (prettyOnto.members level p ms).toList
  | _, _, [], hp, _ => spelled_push (spelled_indent hp level) .closeObject
  | p, ts, (k, v) :: ms, hp, hms => by
    have hname := spelled_name hms.1 (spelled_push hp .comma) (level + 1)
    have hrest := members_spelled level ms (prettyOnto_spelled (level + 1) v hname hms.2.1) hms.2.2
    rw [prettyOnto.members, tokens.memberTokens]
    simpa using hrest

end

/-- **A printed value is a document that holds it.** -/
theorem document_pretty {v : Value} (h : v.Legible) : v.Document v.pretty :=
  v.prettyOnto_spelled 0 (.blank (by simp)) h

end Value

/-- **A printed value is read back as it was.** -/
theorem parse?_pretty {v : Value} (h : v.Legible) : parse? v.pretty = some v :=
  parse?_document (Value.document_pretty h)

end ConsolePipeline.Json
