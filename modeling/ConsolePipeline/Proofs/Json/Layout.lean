import ConsolePipeline.Json.Parser
import ConsolePipeline.Proofs.Json.Scalars

namespace ConsolePipeline.Json

/-!
# Documents

A value is written as its tokens, one after the other. How each of them is spelled and which blanks
stand around it is left open, and makes no difference to a reader: the lexer finds the tokens, and
the parser puts the value together from those.

* `IsToken` — a token in a spelling; `Spelled` — tokens in their spellings, with blanks between
  them.
* `Separated` — no two words in a row; `Spelled.tokensFrom?` — the lexer finds such tokens.
* `Value.tokens` — the tokens of a value; `State.run?_tokens` — they make up the value.
* `Value.Document` — a text that holds a value; `parse?_document` — the value is read from it.
-/

/-! ### Tokens in a text -/

/-- A token in a spelling. -/
inductive IsToken : Token → List Char → Prop
  | openArray : IsToken .openArray ['[']
  | closeArray : IsToken .closeArray [']']
  | openObject : IsToken .openObject ['{']
  | closeObject : IsToken .closeObject ['}']
  | comma : IsToken .comma [',']
  | colon : IsToken .colon [':']
  | null : IsToken (.scalar .null) ['n', 'u', 'l', 'l']
  | true : IsToken (.scalar (.bool true)) ['t', 'r', 'u', 'e']
  | false : IsToken (.scalar (.bool false)) ['f', 'a', 'l', 's', 'e']
  | number (n : Numeral) : IsToken (.scalar (.number n.number)) n.chars
  | text {codes : List Nat} {p : List Char} (h : IsBody codes p) :
    IsToken (.text ((joinSurrogates codes).map String.ofList)) ('"' :: (p ++ ['"']))

/-- **Tokens in their spellings,** with any blanks before, between and after them. -/
inductive Spelled : List Token → List Char → Prop
  | blank {b : List Char} (hb : ∀ c ∈ b, isGap c) : Spelled [] b
  | cons {b p r : List Char} {t : Token} {ts : List Token} (hb : ∀ c ∈ b, isGap c)
    (ht : IsToken t p) (hr : Spelled ts r) : Spelled (t :: ts) (b ++ (p ++ r))

variable {t : Token} {ts us : List Token} {p q r : List Char}

theorem IsToken.spelled (h : IsToken t p) : Spelled [t] p := by
  have hone : Spelled [t] ([] ++ (p ++ [])) := .cons (by simp) h (.blank (by simp))
  simpa using hone

theorem Spelled.append (hp : Spelled ts p) (hq : Spelled us q) : Spelled (ts ++ us) (p ++ q) := by
  induction hp with
  | @blank b hb =>
    have hall : ∀ a : List Char, (∀ c ∈ a, isGap c) → ∀ c ∈ b ++ a, isGap c := fun a ha c hc =>
      (List.mem_append.mp hc).elim (hb c) (ha c)
    cases hq with
    | blank ha => exact .blank (hall _ ha)
    | cons ha ht hr =>
      rw [← List.append_assoc]
      exact .cons (hall _ ha) ht hr
  | cons hb ht _ ih =>
    rw [List.append_assoc, List.append_assoc]
    exact .cons hb ht ih

/-- Whether a token is a word, which has to end before another one begins. -/
def Token.isWord : Token → Bool
  | .scalar _ => true
  | _ => false

/-- What follows is no word. -/
def NoWord (ts : List Token) : Prop :=
  ∀ t ∈ ts.head?, t.isWord = false

/-- **No two words stand in a row.** -/
def Separated : List Token → Prop
  | [] => True
  | t :: ts => (t.isWord → NoWord ts) ∧ Separated ts

theorem not_isWord_of_isGap {c : Char} (h : isGap c) : isWord c = false := by
  simp only [isGap, Bool.or_eq_true, beq_iff_eq] at h
  obtain ((rfl | rfl) | rfl) | rfl := h <;> decide

/-- A word ends before blanks, and before whatever is no word. -/
theorem Spelled.opensToken (h : Spelled ts r) (hfirst : NoWord ts) : OpensToken r := by
  cases h with
  | blank hb =>
    cases r with
    | nil => trivial
    | cons c b => exact not_isWord_of_isGap (hb c List.mem_cons_self)
  | @cons b p r t ts hb ht _ =>
    cases b with
    | cons c b => exact not_isWord_of_isGap (hb c List.mem_cons_self)
    | nil =>
      -- With no blank between them, what follows the word is the next token's first character.
      have hmark : t.isWord = false := hfirst t rfl
      cases ht with
      | openArray | closeArray | openObject | closeObject | comma | colon | text => rfl
      | null | true | false | number => cases hmark

/-- Blanks leave no trace. -/
theorem tokensFrom?_blank {b : List Char} (hb : ∀ c ∈ b, isGap c) (out : List Token)
    (r : List Char) : tokensFrom? .gap out (b ++ r) = tokensFrom? .gap out r := by
  induction b with
  | nil => rfl
  | cons c b ih =>
    have hc : isGap c := hb c List.mem_cons_self
    have hstart : startToken? c out = some (.gap, out) := by
      simp only [isGap, Bool.or_eq_true, beq_iff_eq] at hc
      obtain ((rfl | rfl) | rfl) | rfl := hc <;> rfl
    rw [List.cons_append, tokensFrom?]
    simp only [Mode.next?, hstart]
    exact ih fun a ha => hb a (List.mem_cons_of_mem c ha)

/-- **A token is read from its spelling** if a word is not followed by another. -/
theorem IsToken.tokensFrom? (h : IsToken t p) (hr : t.isWord → OpensToken r) (out : List Token) :
    tokensFrom? .gap out (p ++ r) = Json.tokensFrom? .gap (t :: out) r := by
  have hword : ∀ {w : List Char}, w.all Json.isWord → ∀ c ∈ w, Json.isWord c := List.all_eq_true.mp
  cases h with
  | openArray | closeArray | openObject | closeObject | comma | colon => rfl
  | null => exact tokensFrom?_word (by simp) (hword (by decide)) rfl out (hr rfl)
  | true => exact tokensFrom?_word (by simp) (hword (by decide)) rfl out (hr rfl)
  | false => exact tokensFrom?_word (by simp) (hword (by decide)) rfl out (hr rfl)
  | number n =>
    exact tokensFrom?_word n.chars_ne_nil n.isWord_of_mem_chars n.wordToken?_chars out (hr rfl)
  | text hbody => exact tokensFrom?_text hbody out r

/-- **The lexer finds the tokens,** however they are spelled and whatever blanks stand between
    them. -/
theorem Spelled.tokensFrom? (h : Spelled ts p) (hsep : Separated ts) (out : List Token) :
    tokensFrom? .gap out p = some (out.reverse ++ ts) := by
  induction h generalizing out with
  | blank hb =>
    have hread := tokensFrom?_blank hb out []
    rw [List.append_nil] at hread
    rw [hread, List.append_nil]
    rfl
  | cons hb ht hr ih =>
    rw [tokensFrom?_blank hb, ht.tokensFrom? (fun hword => hr.opensToken (hsep.1 hword)), ih hsep.2,
      List.reverse_cons, List.append_assoc, List.singleton_append]

/-! ### The tokens of a value -/

namespace Value

/-- The tokens that a value is written as. -/
def tokens : Value → List Token
  | .array [] => [.openArray, .closeArray]
  | .array (v :: vs) => .openArray :: (v.tokens ++ itemTokens vs)
  | .object [] => [.openObject, .closeObject]
  | .object ((k, v) :: ms) => .openObject :: .text k :: .colon :: (v.tokens ++ memberTokens ms)
  | .string t => [.text t]
  | v => [.scalar v]
where
  itemTokens : List Value → List Token
    | [] => [.closeArray]
    | v :: vs => .comma :: (v.tokens ++ itemTokens vs)
  memberTokens : List (Text × Value) → List Token
    | [] => [.closeObject]
    | (k, v) :: ms => .comma :: .text k :: .colon :: (v.tokens ++ memberTokens ms)

theorem noWord_itemTokens (vs : List Value) (r : List Token) :
    NoWord (tokens.itemTokens vs ++ r) := by
  cases vs <;> rintro _ ⟨⟩ <;> rfl

theorem noWord_memberTokens (ms : List (Text × Value)) (r : List Token) :
    NoWord (tokens.memberTokens ms ++ r) := by
  cases ms <;> rintro _ ⟨⟩ <;> rfl

mutual

/-- **A value's words are separated,** and its last one from what follows. -/
theorem separated_tokens : ∀ (v : Value) {r : List Token}, Separated r → NoWord r →
    Separated (v.tokens ++ r)
  | .null, _, hr, hfirst | .bool _, _, hr, hfirst | .number _, _, hr, hfirst =>
    ⟨fun _ => hfirst, hr⟩
  | .string _, _, hr, _ => ⟨nofun, hr⟩
  | .array [], _, hr, _ | .object [], _, hr, _ => ⟨nofun, nofun, hr⟩
  | .array (v :: vs), r, hr, _ => by
    rw [tokens, List.cons_append, List.append_assoc]
    exact ⟨nofun, separated_tokens v (separated_itemTokens vs hr) (noWord_itemTokens vs r)⟩
  | .object ((k, v) :: ms), r, hr, _ => by
    rw [tokens, List.cons_append, List.cons_append, List.cons_append, List.append_assoc]
    exact ⟨nofun, nofun, nofun,
      separated_tokens v (separated_memberTokens ms hr) (noWord_memberTokens ms r)⟩

theorem separated_itemTokens : ∀ (vs : List Value) {r : List Token}, Separated r →
    Separated (tokens.itemTokens vs ++ r)
  | [], _, hr => ⟨nofun, hr⟩
  | v :: vs, r, hr => by
    rw [tokens.itemTokens, List.cons_append, List.append_assoc]
    exact ⟨nofun, separated_tokens v (separated_itemTokens vs hr) (noWord_itemTokens vs r)⟩

theorem separated_memberTokens : ∀ (ms : List (Text × Value)) {r : List Token}, Separated r →
    Separated (tokens.memberTokens ms ++ r)
  | [], _, hr => ⟨nofun, hr⟩
  | (k, v) :: ms, r, hr => by
    rw [tokens.memberTokens, List.cons_append, List.cons_append, List.cons_append,
      List.append_assoc]
    exact ⟨nofun, nofun, nofun,
      separated_tokens v (separated_memberTokens ms hr) (noWord_memberTokens ms r)⟩

end

end Value

/-! ### The value of its tokens -/

namespace State

open Value

/-- The first item of a list is read as any value: its first token does not end the list. -/
theorem run?_firstItem (v : Value) (outer : List Frame) (r : List Token) :
    run? (firstItem outer) (v.tokens ++ r) = run? (value (.array [] :: outer)) (v.tokens ++ r) := by
  match v with
  | .null | .bool _ | .number _ | .string _ | .array [] | .array (_ :: _) | .object []
  | .object (_ :: _) => rfl

mutual

/-- **The parser makes a value up from its tokens.** -/
theorem run?_tokens : ∀ (v : Value) (outer : List Frame) (r : List Token),
    run? (value outer) (v.tokens ++ r) = run? (complete v outer) r
  | .null, _, _ | .bool _, _, _ | .number _, _, _ | .string _, _, _ | .array [], _, _
  | .object [], _, _ => rfl
  | .array (v :: vs), outer, r => by
    rw [tokens, List.cons_append, List.append_assoc, run?]
    simp only [next?, startValue?]
    rw [run?_firstItem, run?_tokens v]
    exact run?_itemTokens vs [v] outer r
  | .object ((k, v) :: ms), outer, r => by
    rw [tokens, List.cons_append, List.cons_append, List.cons_append, List.append_assoc]
    show run? (value (.object [] k :: outer)) (v.tokens ++ (tokens.memberTokens ms ++ r)) = _
    rw [run?_tokens v]
    exact run?_memberTokens ms [(k, v)] outer r

theorem run?_itemTokens : ∀ (vs items : List Value) (outer : List Frame) (r : List Token),
    run? (afterItem items outer) (tokens.itemTokens vs ++ r) =
      run? (complete (.array (items.reverse ++ vs)) outer) r
  | [], items, outer, r => by
    rw [List.append_nil]
    rfl
  | v :: vs, items, outer, r => by
    rw [tokens.itemTokens, List.cons_append, List.append_assoc]
    show run? (value (.array items :: outer)) (v.tokens ++ (tokens.itemTokens vs ++ r)) = _
    rw [run?_tokens v, complete, run?_itemTokens vs, List.reverse_cons, List.append_assoc,
      List.singleton_append]

theorem run?_memberTokens : ∀ (ms members : List (Text × Value)) (outer : List Frame)
    (r : List Token), run? (afterMember members outer) (tokens.memberTokens ms ++ r) =
      run? (complete (.object (members.reverse ++ ms)) outer) r
  | [], members, outer, r => by
    rw [List.append_nil]
    rfl
  | (k, v) :: ms, members, outer, r => by
    rw [tokens.memberTokens, List.cons_append, List.cons_append, List.cons_append,
      List.append_assoc]
    show run? (value (.object members k :: outer)) (v.tokens ++ (tokens.memberTokens ms ++ r)) = _
    rw [run?_tokens v, complete, run?_memberTokens ms, List.reverse_cons, List.append_assoc,
      List.singleton_append]

end

end State

/-! ### Documents -/

/-- **A document that holds a value:** its tokens in any spelling and with any blanks. -/
def Value.Document (v : Value) (s : String) : Prop :=
  Spelled v.tokens s.toList

/-- **A value is read from every document that holds it.** -/
theorem parse?_document {v : Value} {s : String} (h : v.Document s) : parse? s = some v := by
  have hsep := v.separated_tokens (r := []) trivial nofun
  have hrun := State.run?_tokens v [] []
  rw [List.append_nil] at hsep hrun
  have htokens : tokens? s = some v.tokens := Spelled.tokensFrom? h hsep []
  rw [parse?, htokens, Option.bind_some, ofTokens?, hrun]
  rfl

end ConsolePipeline.Json
