import ConsolePipeline.Json.Value

namespace ConsolePipeline.Json

/-!
# Tokens of a JSON text

The lexer reads a text one character at a time. What it has to remember between two characters is
its `Mode`; blanks between tokens leave no trace.

* `Token` — brackets, separators and scalar values.
* `Number.ofText?` — the number that a word spells.
* `joinSurrogates` — the characters that a run of code points and surrogate halves stands for.
* `tokens?` — the tokens of a text, if every one is well formed.
-/

/-- A piece of a JSON text. -/
inductive Token
  | openArray | closeArray | openObject | closeObject | comma | colon
  | scalar (v : Value)
  | text (t : Text)
  deriving Inhabited

/-- The four characters that may stand between tokens. -/
def isGap (c : Char) : Bool :=
  c == ' ' || c == '\n' || c == '\t' || c == '\r'

/-- The characters of numbers and of `true`, `false` and `null`. -/
def isWord (c : Char) : Bool :=
  c.isAlphanum || c == '+' || c == '-' || c == '.'

/-- The value of a run of decimal digits. -/
def digitsValue (cs : List Char) : Nat :=
  cs.foldl (fun n c => n * 10 + (c.toNat - '0'.toNat)) 0

/-- Split off the leading digits, of which there must be one. -/
def takeDigits? (cs : List Char) : Option (List Char × List Char) :=
  match cs.takeWhile Char.isDigit with
  | [] => none
  | ds => some (ds, cs.dropWhile Char.isDigit)

/-- The exponent after its letter: an optional sign and digits to the end. -/
def exponent? (cs : List Char) : Option Int :=
  let (negative, cs) := match cs with
    | '-' :: r => (true, r)
    | '+' :: r => (false, r)
    | r => (false, r)
  match takeDigits? cs with
  | some (ds, []) => some (if negative then -digitsValue ds else digitsValue ds)
  | _ => none

namespace Number

/-- What follows the integer digits of a number: a fraction, an exponent, both or neither. -/
def ofTail? (negative : Bool) (whole : List Char) : List Char → Option Number
  | [] => some ⟨negative, digitsValue whole, 0, true⟩
  | '.' :: r => do
    let (ds, r) ← takeDigits? r
    let digits := digitsValue (whole ++ ds)
    match r with
    | [] => some ⟨negative, digits, -ds.length, false⟩
    | e :: r =>
      if e == 'e' || e == 'E' then
        let x ← exponent? r
        some ⟨negative, digits, x - ds.length, false⟩
      else none
  | e :: r =>
    if e == 'e' || e == 'E' then do
      let x ← exponent? r
      some ⟨negative, digitsValue whole, x, false⟩
    else none

/-- The number that a word spells: digits with no needless zero in front, after an optional
    minus. -/
def ofText? (cs : List Char) : Option Number := do
  let (negative, cs) := match cs with
    | '-' :: r => (true, r)
    | r => (false, r)
  let (whole, r) ← takeDigits? cs
  match whole with
  | '0' :: _ :: _ => none
  | _ => ofTail? negative whole r

end Number

/-- The token that a word spells. -/
def wordToken? (cs : List Char) : Option Token :=
  match cs with
  | ['n', 'u', 'l', 'l'] => some (.scalar .null)
  | ['t', 'r', 'u', 'e'] => some (.scalar (.bool true))
  | ['f', 'a', 'l', 's', 'e'] => some (.scalar (.bool false))
  | _ => (Number.ofText? cs).map fun n => .scalar (.number n)

/-- The value of a hexadecimal digit. -/
def hexValue? (c : Char) : Option Nat :=
  if c.isDigit then some (c.toNat - '0'.toNat)
  else if 'a' ≤ c ∧ c ≤ 'f' then some (c.toNat - 'a'.toNat + 10)
  else if 'A' ≤ c ∧ c ≤ 'F' then some (c.toNat - 'A'.toNat + 10)
  else none

/-- The characters that code points stand for, a high and a low surrogate in a row being one;
    `none` if a surrogate has no partner. -/
def joinSurrogates : List Nat → Option (List Char)
  | [] => some []
  | hi :: lo :: r =>
    if 0xD800 ≤ hi ∧ hi < 0xDC00 ∧ 0xDC00 ≤ lo ∧ lo < 0xE000 then
      (joinSurrogates r).map (Char.ofNat (0x10000 + (hi - 0xD800) * 0x400 + (lo - 0xDC00)) :: ·)
    else if 0xD800 ≤ hi ∧ hi < 0xE000 then none
    else (joinSurrogates (lo :: r)).map (Char.ofNat hi :: ·)
  | [c] => if 0xD800 ≤ c ∧ c < 0xE000 then none else some [Char.ofNat c]

/-- What the lexer remembers between two characters. Code points and characters read so far stand
    latest first. -/
inductive Mode
  | gap
  | word (chars : List Char)
  | string (codes : List Nat)
  /-- After a backslash. -/
  | escape (codes : List Nat)
  /-- Inside a four-digit escape: digits still due, and their value so far. -/
  | unicode (codes : List Nat) (due value : Nat)
  deriving Inhabited

/-- The code point of a one-letter escape. -/
def escapeCode? (c : Char) : Option Nat :=
  match c with
  | '"' => some 0x22
  | '\\' => some 0x5C
  | '/' => some 0x2F
  | 'b' => some 0x08
  | 'f' => some 0x0C
  | 'n' => some 0x0A
  | 'r' => some 0x0D
  | 't' => some 0x09
  | _ => none

/-- The next mode and the tokens so far, latest first, after a character between tokens. -/
def startToken? (c : Char) (out : List Token) : Option (Mode × List Token) :=
  match c with
  | '[' => some (.gap, .openArray :: out)
  | ']' => some (.gap, .closeArray :: out)
  | '{' => some (.gap, .openObject :: out)
  | '}' => some (.gap, .closeObject :: out)
  | ',' => some (.gap, .comma :: out)
  | ':' => some (.gap, .colon :: out)
  | '"' => some (.string [], out)
  | _ => if isGap c then some (.gap, out) else if isWord c then some (.word [c], out) else none

/-- One character further. -/
def Mode.next? (m : Mode) (out : List Token) (c : Char) : Option (Mode × List Token) :=
  match m with
  | .gap => startToken? c out
  | .word chars =>
    if isWord c then some (.word (c :: chars), out)
    else do
      let t ← wordToken? chars.reverse
      startToken? c (t :: out)
  | .string codes =>
    if c == '"' then
      some (.gap, .text ((joinSurrogates codes.reverse).map String.ofList) :: out)
    else if c == '\\' then some (.escape codes, out)
    else if c.toNat < 0x20 then none
    else some (.string (c.toNat :: codes), out)
  | .escape codes =>
    if c == 'u' then some (.unicode codes 4 0, out)
    else (escapeCode? c).map fun code => (.string (code :: codes), out)
  | .unicode codes due value => do
    let d ← hexValue? c
    let value := value * 16 + d
    if due ≤ 1 then some (.string (value :: codes), out)
    else some (.unicode codes (due - 1) value, out)

/-- The tokens once the text is used up; a text must not end inside a string. -/
def Mode.finish? (m : Mode) (out : List Token) : Option (List Token) :=
  match m with
  | .gap => some out.reverse
  | .word chars => (wordToken? chars.reverse).map fun t => (t :: out).reverse
  | _ => none

/-- Read on in a given mode. -/
def tokensFrom? : Mode → List Token → List Char → Option (List Token)
  | m, out, [] => m.finish? out
  | m, out, c :: r =>
    match m.next? out c with
    | some (m, out) => tokensFrom? m out r
    | none => none

/-- The tokens of a text, if every one is well formed. -/
def tokens? (s : String) : Option (List Token) :=
  tokensFrom? .gap [] s.toList

end ConsolePipeline.Json
