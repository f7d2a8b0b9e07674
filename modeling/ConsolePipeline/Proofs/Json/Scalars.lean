import ConsolePipeline.Json.Lexer
import ConsolePipeline.Json.Printer

namespace ConsolePipeline.Json

/-!
# Scalars and texts, read

How numbers, names and texts are spelled, and that the lexer takes each spelling for what it stands
for. A number is one word; in a text, a character stands for itself or is written as an escape.
What the printer writes is one of these spellings.

* `Numeral` — a number in its spelling; `Numeral.ofText?_chars` — it is read as that number.
* `OpensToken` — what may follow a word; `tokensFrom?_word` — a word and what follows it.
* `IsBody` — the code points of a text in a spelling; `tokensFrom?_text` — they are read from it.
* `Number.Settled`, `Number.numeral` — the numbers that can be spelled, as the printer does it.
* `isBody_escaped`, `joinSurrogates_codes` — the characters of a text, as the printer writes them.
-/

/-! ### Digits -/

/-- A run of decimal digits, at least one. -/
structure Digits where
  chars : List Char
  ne_nil : chars ≠ []
  isDigit : ∀ c ∈ chars, c.isDigit

/-- The first digit and the others. -/
theorem Digits.exists_cons (ds : Digits) : ∃ d r, d.isDigit ∧ ds.chars = d :: r := by
  obtain ⟨chars, hne, hdigit⟩ := ds
  cases chars with
  | nil => exact absurd rfl hne
  | cons d r => exact ⟨d, r, hdigit d List.mem_cons_self, rfl⟩

theorem isWord_of_isDigit {c : Char} (h : c.isDigit) : isWord c := by
  simp [isWord, Char.isAlphanum, h]

/-- Digits before anything else are split off. -/
theorem takeDigits?_append (ds : Digits) {r : List Char} (hr : ∀ c ∈ r.head?, c.isDigit = false) :
    takeDigits? (ds.chars ++ r) = some (ds.chars, r) := by
  have htake : r.takeWhile Char.isDigit = [] := by
    cases r with
    | nil => rfl
    | cons c r => simp [hr c rfl]
  have hdrop : r.dropWhile Char.isDigit = r := by
    cases r with
    | nil => rfl
    | cons c r => simp [hr c rfl]
  rw [takeDigits?, List.takeWhile_append_of_pos ds.isDigit, List.dropWhile_append_of_pos ds.isDigit,
    htake, hdrop, List.append_nil]
  obtain ⟨d, r, -, hds⟩ := ds.exists_cons
  rw [hds]

/-! ### Numbers -/

/-- An exponent in its spelling. -/
structure Power where
  /-- It is written with a capital letter. -/
  capital : Bool
  /-- Its sign, if it has one; true is a minus. -/
  sign : Option Bool
  digits : Digits

namespace Power

def signChars : Option Bool → List Char
  | none => []
  | some true => ['-']
  | some false => ['+']

/-- What follows the letter. -/
def body (x : Power) : List Char :=
  signChars x.sign ++ x.digits.chars

def chars (x : Power) : List Char :=
  (if x.capital then 'E' else 'e') :: x.body

/-- The exponent. -/
def value (x : Power) : Int :=
  if x.sign = some true then -digitsValue x.digits.chars else digitsValue x.digits.chars

/-- **An exponent is read from its spelling.** -/
theorem exponent?_body (x : Power) : exponent? x.body = some x.value := by
  obtain ⟨-, sign, digits⟩ := x
  obtain ⟨d, ds, hd, hdigits⟩ := digits.exists_cons
  have htake := takeDigits?_append digits (r := []) (by simp)
  rw [List.append_nil, hdigits] at htake
  have hminus : d ≠ '-' := by rintro rfl; exact absurd hd (by decide)
  have hplus : d ≠ '+' := by rintro rfl; exact absurd hd (by decide)
  match sign with
  | none => simp [body, signChars, value, exponent?, hdigits, htake, hminus, hplus]
  | some true => simp [body, signChars, value, exponent?, hdigits, htake]
  | some false => simp [body, signChars, value, exponent?, hdigits, htake]

theorem isWord_of_mem_chars (x : Power) : ∀ c ∈ x.chars, isWord c := by
  obtain ⟨capital, sign, ds⟩ := x
  intro c hc
  obtain rfl | hsign | hdigit : c = (if capital then 'E' else 'e') ∨ c ∈ signChars sign ∨
      c ∈ ds.chars := by
    simpa [chars, body] using hc
  · cases capital <;> decide
  · match sign, hsign with
    | some true, hsign => exact List.mem_singleton.mp hsign ▸ by decide
    | some false, hsign => exact List.mem_singleton.mp hsign ▸ by decide
  · exact isWord_of_isDigit (ds.isDigit c hdigit)

end Power

/-- **A number in its spelling:** a minus or none, digits with no needless zero in front, and a
    fraction, an exponent, both or neither. -/
structure Numeral where
  negative : Bool
  whole : Digits
  trim : ∀ c cs, whole.chars ≠ '0' :: c :: cs
  fraction : Option Digits
  power : Option Power

namespace Numeral

/-- The digits behind the point. -/
def fractionChars (n : Numeral) : List Char :=
  n.fraction.elim [] Digits.chars

/-- What follows the whole digits. -/
def tail (n : Numeral) : List Char :=
  n.fraction.elim [] (fun ds => '.' :: ds.chars) ++ n.power.elim [] Power.chars

def chars (n : Numeral) : List Char :=
  (if n.negative then ['-'] else []) ++ (n.whole.chars ++ n.tail)

/-- The number that is spelled. -/
def number (n : Numeral) : Number where
  negative := n.negative
  digits := digitsValue (n.whole.chars ++ n.fractionChars)
  exponent := n.power.elim 0 Power.value - n.fractionChars.length
  plain := n.fraction.isNone && n.power.isNone

theorem tail_head_not_digit (n : Numeral) : ∀ c ∈ n.tail.head?, c.isDigit = false := by
  obtain ⟨-, -, -, fraction, power⟩ := n
  cases fraction with
  | some ds => simp [tail]
  | none =>
    cases power with
    | none => simp [tail]
    | some x =>
      obtain ⟨capital, sign, ds⟩ := x
      cases capital <;> simp [tail, Power.chars]

/-- A fraction and an exponent are read from their spelling. -/
theorem ofTail?_tail (n : Numeral) :
    Number.ofTail? n.negative n.whole.chars n.tail = some n.number := by
  obtain ⟨negative, whole, -, fraction, power⟩ := n
  -- The digits of a fraction end where the letter of the exponent stands.
  have hletter : ∀ x : Power, ∀ c ∈ x.chars.head?, c.isDigit = false := by
    rintro ⟨capital, sign, ds⟩
    cases capital <;> simp [Power.chars]
  cases fraction with
  | none =>
    cases power with
    | none => simp [tail, number, fractionChars, Number.ofTail?]
    | some x =>
      have hx := x.exponent?_body
      obtain ⟨capital, sign, ds⟩ := x
      cases capital <;> simp [tail, number, fractionChars, Number.ofTail?, Power.chars, hx]
  | some f =>
    cases power with
    | none =>
      have htake := takeDigits?_append f (r := []) (by simp)
      rw [List.append_nil] at htake
      simp [tail, number, fractionChars, Number.ofTail?, htake]
    | some x =>
      have htake := takeDigits?_append f (hletter x)
      have hx := x.exponent?_body
      obtain ⟨capital, sign, ds⟩ := x
      cases capital <;>
        simp [tail, number, fractionChars, Number.ofTail?, Power.chars] at htake ⊢ <;>
        simp [htake, hx]

/-- **A number is read from its spelling.** -/
theorem ofText?_chars (n : Numeral) : Number.ofText? n.chars = some n.number := by
  have htake := takeDigits?_append n.whole n.tail_head_not_digit
  have htail := n.ofTail?_tail
  have htrim := n.trim
  obtain ⟨d, ds, hd, hdigits⟩ := n.whole.exists_cons
  -- The sign is told by the first character, as no digit is a minus.
  have hminus : d ≠ '-' := by rintro rfl; exact absurd hd (by decide)
  rw [hdigits] at htake htail htrim
  rw [List.cons_append] at htake
  rw [chars, hdigits]
  cases hsign : n.negative with
  | true =>
    rw [hsign] at htail
    simp only [Number.ofText?, if_true, List.cons_append, List.nil_append, htake,
      Option.bind_eq_bind, Option.bind_some, htail]
  | false =>
    rw [hsign] at htail
    simp [Number.ofText?, hminus, htake, htail]

theorem isWord_of_mem_chars (n : Numeral) : ∀ c ∈ n.chars, isWord c := by
  intro c hc
  -- It is the minus, one of the whole digits, or of the fraction, or of the exponent.
  rcases List.mem_append.mp hc with hc | hc
  · obtain ⟨-, rfl⟩ : n.negative = true ∧ c = '-' := by simpa using hc
    decide
  rcases List.mem_append.mp hc with hc | hc
  · exact isWord_of_isDigit (n.whole.isDigit c hc)
  rcases List.mem_append.mp hc with hc | hc
  · cases hf : n.fraction with
    | none =>
      rw [hf] at hc
      cases hc
    | some ds =>
      rw [hf] at hc
      rcases List.mem_cons.mp hc with rfl | hc
      · decide
      · exact isWord_of_isDigit (ds.isDigit c hc)
  · cases hp : n.power with
    | none =>
      rw [hp] at hc
      cases hc
    | some x =>
      rw [hp] at hc
      exact x.isWord_of_mem_chars c hc

theorem chars_ne_nil (n : Numeral) : n.chars ≠ [] := by
  obtain ⟨d, r, -, hdigits⟩ := n.whole.exists_cons
  rw [chars, hdigits]
  simp

/-- The word of a number is taken for that number, not for one of the three names. -/
theorem wordToken?_chars (n : Numeral) :
    wordToken? n.chars = some (.scalar (.number n.number)) := by
  have hread := n.ofText?_chars
  unfold wordToken?
  split
  case h_4 => rw [hread]; rfl
  all_goals
    rename_i hword
    rw [hword] at hread
    exact absurd hread (by simp [Number.ofText?, takeDigits?])

end Numeral

/-! ### Words -/

/-- **What may follow a word:** the end of the text, or a character that is not of a word. -/
def OpensToken : List Char → Prop
  | [] => True
  | c :: _ => isWord c = false

/-- Between tokens, a character of a word opens one. -/
theorem startToken?_of_isWord {c : Char} (hc : isWord c) (out : List Token) :
    startToken? c out = some (.word [c], out) := by
  have hne : ∀ b, isWord b = false → c ≠ b := by
    rintro b hb rfl
    rw [hc] at hb
    cases hb
  have hgap : isGap c = false := by
    simp [isGap, hne ' ' (by decide), hne '\n' (by decide), hne '\t' (by decide),
      hne '\r' (by decide)]
  unfold startToken?
  split <;> first
    | exact absurd rfl (hne _ (by decide))
    | simp [hgap, hc]

/-- The characters of a word are gathered. -/
theorem tokensFrom?_gather {w : List Char} (hw : ∀ c ∈ w, isWord c) (sofar : List Char)
    (out : List Token) (r : List Char) :
    tokensFrom? (.word sofar) out (w ++ r) = tokensFrom? (.word (w.reverse ++ sofar)) out r := by
  induction w generalizing sofar with
  | nil => rfl
  | cons c w ih =>
    have hc : isWord c := hw c List.mem_cons_self
    rw [List.cons_append, tokensFrom?]
    simp only [Mode.next?, hc, if_true]
    rw [ih fun b hb => hw b (List.mem_cons_of_mem c hb)]
    simp

/-- A word ends where something else begins. -/
theorem tokensFrom?_word_end {w : List Char} {t : Token} (ht : wordToken? w.reverse = some t)
    (out : List Token) {r : List Char} (hr : OpensToken r) :
    tokensFrom? (.word w) out r = tokensFrom? .gap (t :: out) r := by
  cases r with
  | nil => simp [tokensFrom?, Mode.finish?, ht]
  | cons c r =>
    have hc : isWord c = false := hr
    simp [tokensFrom?, Mode.next?, hc, ht]

/-- **A word is read as its token** if something else follows it. -/
theorem tokensFrom?_word {w : List Char} {t : Token} (hne : w ≠ []) (hw : ∀ c ∈ w, isWord c)
    (ht : wordToken? w = some t) (out : List Token) {r : List Char} (hr : OpensToken r) :
    tokensFrom? .gap out (w ++ r) = tokensFrom? .gap (t :: out) r := by
  cases w with
  | nil => exact absurd rfl hne
  | cons c w =>
    have hc : isWord c := hw c List.mem_cons_self
    rw [List.cons_append, tokensFrom?]
    simp only [Mode.next?, startToken?_of_isWord hc]
    rw [tokensFrom?_gather fun b hb => hw b (List.mem_cons_of_mem c hb)]
    exact tokensFrom?_word_end (by simpa using ht) out hr

/-! ### Texts -/

/-- A code point in a spelling: the character itself, the letter of an escape, or the four digits of
    one. -/
inductive IsPiece : Nat → List Char → Prop
  | plain {c : Char} (hquote : c ≠ '"') (hslash : c ≠ '\\') (hcontrol : ¬c.toNat < 0x20) :
    IsPiece c.toNat [c]
  | letter {l : Char} {code : Nat} (h : escapeCode? l = some code) : IsPiece code ['\\', l]
  | digits {a b c d : Char} {i j k l : Nat} (ha : hexValue? a = some i) (hb : hexValue? b = some j)
    (hc : hexValue? c = some k) (hd : hexValue? d = some l) :
    IsPiece (((i * 16 + j) * 16 + k) * 16 + l) ['\\', 'u', a, b, c, d]

/-- The code points between the quotes of a text, in a spelling. -/
inductive IsBody : List Nat → List Char → Prop
  | nil : IsBody [] []
  | cons {code : Nat} {codes : List Nat} {p r : List Char} (hp : IsPiece code p)
    (hr : IsBody codes r) : IsBody (code :: codes) (p ++ r)

/-- **A code point is read from its spelling.** -/
theorem IsPiece.tokensFrom? {code : Nat} {p : List Char} (h : IsPiece code p) (codes : List Nat)
    (out : List Token) (r : List Char) :
    tokensFrom? (.string codes) out (p ++ r) =
      Json.tokensFrom? (.string (code :: codes)) out r := by
  cases h with
  | plain hquote hslash hcontrol =>
    simp [Json.tokensFrom?, Mode.next?, hquote, hslash, hcontrol]
  | @letter l code hcode =>
    have hl : l ≠ 'u' := by
      rintro rfl
      cases hcode
    simp [Json.tokensFrom?, Mode.next?, hl, hcode]
  | digits ha hb hc hd => simp [Json.tokensFrom?, Mode.next?, ha, hb, hc, hd]

/-- Code points are read from their spelling, latest first. -/
theorem IsBody.tokensFrom? {codes : List Nat} {p : List Char} (h : IsBody codes p)
    (sofar : List Nat) (out : List Token) (r : List Char) :
    tokensFrom? (.string sofar) out (p ++ r) =
      Json.tokensFrom? (.string (codes.reverse ++ sofar)) out r := by
  induction h generalizing sofar with
  | nil => rfl
  | cons hp _ ih =>
    rw [List.append_assoc, hp.tokensFrom?, ih]
    simp

/-- **A text is read from its spelling,** whatever follows. -/
theorem tokensFrom?_text {codes : List Nat} {p : List Char} (h : IsBody codes p) (out : List Token)
    (r : List Char) :
    tokensFrom? .gap out ('"' :: (p ++ ['"']) ++ r) =
      tokensFrom? .gap (.text ((joinSurrogates codes).map String.ofList) :: out) r := by
  rw [List.cons_append, List.append_assoc, tokensFrom?]
  simp only [Mode.next?, startToken?]
  rw [h.tokensFrom?]
  simp [tokensFrom?, Mode.next?]

/-! ### What the printer writes -/

/-- The digits of a natural number. -/
def digitsOf (n : Nat) : Digits where
  chars := Nat.toDigits 10 n
  ne_nil := Nat.toDigits_ne_nil
  isDigit _ hc := Nat.isDigit_of_mem_toDigits (by decide) (by decide) hc

@[simp] theorem digitsValue_digitsOf (n : Nat) : digitsValue (digitsOf n).chars = n := by
  have h : Nat.ofDigitChars 10 (Nat.toDigits 10 n) 0 = n := Nat.ofDigitChars_ten_toDigits
  simpa only [digitsOf, digitsValue, Nat.ofDigitChars_eq_foldl, Nat.mul_comm 10] using h

/-- Only zero is written with a zero in front. -/
theorem toDigits_head_ne_zero {n : Nat} (hn : 0 < n) : (Nat.toDigits 10 n).head? ≠ some '0' := by
  induction n using Nat.strongRecOn with
  | ind n ih =>
    rw [Nat.toDigits_eq_if (by decide)]
    by_cases hlt : n < 10
    · -- One digit, and that is the number itself.
      rw [if_pos hlt, List.head?_cons, ne_eq, Option.some.injEq, Nat.digitChar_eq_zero]
      omega
    · rw [if_neg hlt, List.head?_append, List.head?_eq_some_head Nat.toDigits_ne_nil,
        Option.some_or, ← List.head?_eq_some_head]
      exact ih (n / 10) (by omega) (by omega)

/-- The digits of a number have no needless zero in front. -/
theorem digitsOf_ne_zero_cons (n : Nat) (c : Char) (r : List Char) :
    (digitsOf n).chars ≠ '0' :: c :: r := by
  intro h
  have h : Nat.toDigits 10 n = '0' :: c :: r := h
  rcases Nat.eq_zero_or_pos n with rfl | hn
  · simp [Nat.toDigits_zero] at h
  · exact toDigits_head_ne_zero hn (by rw [h]; rfl)

/-- An integer as an exponent. -/
def powerOf (i : Int) : Power where
  capital := false
  sign := if i < 0 then some true else none
  digits := digitsOf i.natAbs

/-- An integer in characters: a minus if it is below zero, and the digits. -/
theorem toList_toString_int (i : Int) :
    (toString i).toList = (if i < 0 then ['-'] else []) ++ Nat.toDigits 10 i.natAbs := by
  cases i with
  | ofNat m =>
    have hm : ¬ Int.ofNat m < 0 := Int.not_lt.mpr (Int.natCast_nonneg m)
    rw [if_neg hm]
    show (Nat.repr m).toList = _
    simp
  | negSucc m =>
    rw [if_pos (Int.negSucc_lt_zero m)]
    show ("-" ++ Nat.repr (m + 1)).toList = _
    simp

theorem chars_powerOf (i : Int) : (powerOf i).chars = 'e' :: (toString i).toList := by
  rw [toList_toString_int]
  by_cases hneg : i < 0 <;>
    simp [Power.chars, Power.body, powerOf, hneg, Power.signChars, digitsOf]

theorem value_powerOf (i : Int) : (powerOf i).value = i := by
  by_cases hneg : i < 0
  · have hsign : (powerOf i).sign = some true := if_pos hneg
    rw [Power.value, if_pos hsign]
    show -((digitsValue (digitsOf i.natAbs).chars : Nat) : Int) = i
    rw [digitsValue_digitsOf]
    omega
  · have hsign : (powerOf i).sign ≠ some true := by
      show (if i < 0 then some true else none) ≠ some true
      rw [if_neg hneg]
      exact nofun
    rw [Power.value, if_neg hsign]
    show ((digitsValue (digitsOf i.natAbs).chars : Nat) : Int) = i
    rw [digitsValue_digitsOf]
    omega

namespace Number

/-- **A number that is written as it was read:** without an exponent, the exponent is 0. -/
def Settled (n : Number) : Prop :=
  n.plain → n.exponent = 0

@[simp] theorem settled_ofNat (n : Nat) : (ofNat n).Settled :=
  fun _ => rfl

/-- A number as the printer spells it. -/
def numeral (n : Number) : Numeral where
  negative := n.negative
  whole := digitsOf n.digits
  trim := digitsOf_ne_zero_cons n.digits
  fraction := none
  power := if n.plain then none else some (powerOf n.exponent)

theorem chars_numeral (n : Number) : n.numeral.chars = n.text.toList := by
  cases hneg : n.negative <;> cases hplain : n.plain <;>
    simp [Numeral.chars, Numeral.tail, numeral, text, hneg, hplain, chars_powerOf, digitsOf]

theorem number_numeral {n : Number} (h : n.Settled) : n.numeral.number = n := by
  obtain ⟨negative, digits, exponent, plain⟩ := n
  cases plain with
  | true =>
    obtain rfl : exponent = 0 := h rfl
    simp [Numeral.number, numeral, Numeral.fractionChars]
  | false => simp [Numeral.number, numeral, Numeral.fractionChars, value_powerOf]

end Number

/-- **Code points of characters stand for those characters:** none of them is half of a surrogate
    pair. -/
theorem joinSurrogates_codes (cs : List Char) : joinSurrogates (cs.map Char.toNat) = some cs := by
  have hvalid : ∀ c : Char, ¬ (0xD800 ≤ c.toNat ∧ c.toNat < 0xE000) := by
    intro c
    have hc : c.toNat < 0xD800 ∨ 0xDFFF < c.toNat ∧ c.toNat < 0x110000 := c.valid
    omega
  induction cs with
  | nil => rfl
  | cons c cs ih =>
    cases cs with
    | nil => simp [joinSurrogates, hvalid c]
    | cons d cs =>
      have hpair : ¬ (0xD800 ≤ c.toNat ∧ c.toNat < 0xDC00 ∧ 0xDC00 ≤ d.toNat ∧ d.toNat < 0xE000) :=
        fun h => hvalid c ⟨h.1, by omega⟩
      rw [List.map_cons, List.map_cons, joinSurrogates, if_neg hpair, if_neg (hvalid c),
        ← List.map_cons, ih]
      simp

/-- What stands in quotes for a character. -/
def escaped (c : Char) : List Char :=
  match escapeOf? c with
  | some e => e.toList
  | none => [c]

/-- A text that grows by some characters for each one read. -/
theorem toList_foldl {f : String → Char → String} {g : Char → List Char}
    (h : ∀ out c, (f out c).toList = out.toList ++ g c) (cs : List Char) (out : String) :
    (cs.foldl f out).toList = out.toList ++ cs.flatMap g := by
  induction cs generalizing out with
  | nil => simp
  | cons c cs ih => rw [List.foldl_cons, ih, h, List.flatMap_cons, List.append_assoc]

theorem toList_quote (s : String) :
    (quote s).toList = '"' :: (s.toList.flatMap escaped ++ ['"']) := by
  rw [quote, String.foldl_eq_foldl_toList, String.toList_append, toList_foldl (g := escaped)]
  · rfl
  · intro out c
    rw [escaped]
    cases escapeOf? c <;> simp

/-- The characters with an escape of one letter, each with its letter. -/
def letters : List (Char × Char) :=
  [('"', '"'), ('\\', '\\'), ('\x08', 'b'), ('\x0C', 'f'), ('\n', 'n'), ('\r', 'r'), ('\t', 't')]

theorem escaped_letter : ∀ p ∈ letters,
    escaped p.1 = ['\\', p.2] ∧ escapeCode? p.2 = some p.1.toNat := by
  decide

/-- The other characters have an escape of four digits, or none. -/
theorem escapeOf?_other {c : Char} (h : ∀ p ∈ letters, p.1 ≠ c) :
    escapeOf? c = if c.toNat < 0x20 then
      some ("\\u00" ++ String.ofList [Nat.digitChar (c.toNat / 16), Nat.digitChar (c.toNat % 16)])
    else none := by
  simp only [letters, List.forall_mem_cons] at h
  unfold escapeOf?
  split
  case h_8 => rfl
  all_goals simp at h

theorem hexValue?_digitChar : ∀ d < 16, hexValue? (Nat.digitChar d) = some d := by
  decide

/-- **What the printer writes for a character is a spelling of it.** -/
theorem isPiece_escaped (c : Char) : IsPiece c.toNat (escaped c) := by
  by_cases hletter : ∃ p ∈ letters, p.1 = c
  · -- A backslash and a letter.
    obtain ⟨⟨c, l⟩, hmem, rfl⟩ := hletter
    obtain ⟨hescaped, hcode⟩ := escaped_letter _ hmem
    rw [hescaped]
    exact .letter hcode
  · have hother : ∀ p ∈ letters, p.1 ≠ c := fun p hp heq => hletter ⟨p, hp, heq⟩
    by_cases hcontrol : c.toNat < 0x20
    · -- Two zeros and two more digits.
      have hhigh := hexValue?_digitChar (c.toNat / 16) (by omega)
      have hlow := hexValue?_digitChar (c.toNat % 16) (by omega)
      have hzero : hexValue? '0' = some 0 := by decide
      have hvalue : ((0 * 16 + 0) * 16 + c.toNat / 16) * 16 + c.toNat % 16 = c.toNat := by omega
      have hpiece := IsPiece.digits hzero hzero hhigh hlow
      rw [hvalue] at hpiece
      rw [escaped, escapeOf?_other hother, if_pos hcontrol]
      simpa using hpiece
    · -- The character itself.
      have hquote : c ≠ '"' := fun h => hother ('"', '"') (by decide) h.symm
      have hslash : c ≠ '\\' := fun h => hother ('\\', '\\') (by decide) h.symm
      rw [escaped, escapeOf?_other hother, if_neg hcontrol]
      exact .plain hquote hslash hcontrol

theorem isBody_escaped (cs : List Char) : IsBody (cs.map Char.toNat) (cs.flatMap escaped) := by
  induction cs with
  | nil => exact .nil
  | cons c cs ih => exact .cons (isPiece_escaped c) ih

end ConsolePipeline.Json
