import ConsolePipeline.Json.Value

namespace ConsolePipeline.Json

/-!
# Writing a JSON text

* `compact` — a value on one line, without blanks.
* `pretty` — one member or item a line, two blanks further in for each level.

Both write an object's members in their order.
-/

/-- The escape of a character that may not stand in a string as it is. -/
def escapeOf? (c : Char) : Option String :=
  match c with
  | '"' => some "\\\""
  | '\\' => some "\\\\"
  | '\x08' => some "\\b"
  | '\x0C' => some "\\f"
  | '\n' => some "\\n"
  | '\r' => some "\\r"
  | '\t' => some "\\t"
  | c =>
    if c.toNat < 0x20 then
      some ("\\u00" ++ String.ofList [Nat.digitChar (c.toNat / 16), Nat.digitChar (c.toNat % 16)])
    else none

/-- A text in quotes. -/
def quote (s : String) : String :=
  s.foldl (fun out c => match escapeOf? c with
    | some e => out ++ e
    | none => out.push c) "\"" ++ "\""

/-- A text that stands for no characters is shown as the replacement character. -/
def quoteText : Text → String
  | some s => quote s
  | none => "\"\\ufffd\""

def Number.text (n : Number) : String :=
  (if n.negative then "-" else "") ++ toString n.digits ++
    (if n.plain then "" else "e" ++ toString n.exponent)

namespace Value

/-- The texts of the values that are neither lists nor objects. -/
def scalarText : Value → String
  | .null => "null"
  | .bool true => "true"
  | .bool false => "false"
  | .number n => n.text
  | .string t => quoteText t
  | _ => ""

/-- Append a value to `out`, on one line. -/
def compactOnto (out : String) : Value → String
  | .array [] => out ++ "[]"
  | .array (v :: vs) => items (v.compactOnto (out.push '[')) vs
  | .object [] => out ++ "\x7b\x7d"
  | .object ((k, v) :: ms) =>
    members (v.compactOnto (out.push '{' ++ quoteText k |>.push ':')) ms
  | v => out ++ v.scalarText
where
  items (out : String) : List Value → String
    | [] => out.push ']'
    | v :: vs => items (v.compactOnto (out.push ',')) vs
  members (out : String) : List (Text × Value) → String
    | [] => out.push '}'
    | (k, v) :: ms => members (v.compactOnto (out.push ',' ++ quoteText k |>.push ':')) ms

/-- A value on one line, without blanks. -/
def compact (v : Value) : String :=
  v.compactOnto ""

/-- A line break and the blanks of a level. -/
def indent (level : Nat) : String :=
  "\n" ++ String.ofList (List.replicate (2 * level) ' ')

/-- Append a value to `out`, its parts on lines of their own, one level further in. -/
def prettyOnto (level : Nat) (out : String) : Value → String
  | .array [] => out ++ "[]"
  | .array (v :: vs) =>
    items level (v.prettyOnto (level + 1) (out.push '[' ++ indent (level + 1))) vs
  | .object [] => out ++ "\x7b\x7d"
  | .object ((k, v) :: ms) =>
    members level
      (v.prettyOnto (level + 1) (out.push '{' ++ indent (level + 1) ++ quoteText k ++ ": ")) ms
  | v => out ++ v.scalarText
where
  items (level : Nat) (out : String) : List Value → String
    | [] => out ++ indent level |>.push ']'
    | v :: vs => items level (v.prettyOnto (level + 1) (out.push ',' ++ indent (level + 1))) vs
  members (level : Nat) (out : String) : List (Text × Value) → String
    | [] => out ++ indent level |>.push '}'
    | (k, v) :: ms =>
      members level
        (v.prettyOnto (level + 1) (out.push ',' ++ indent (level + 1) ++ quoteText k ++ ": ")) ms

/-- One member or item a line, two blanks further in for each level, no line break at the end. -/
def pretty (v : Value) : String :=
  v.prettyOnto 0 ""

end Value

end ConsolePipeline.Json
