import ConsolePipeline.Json.Lexer

namespace ConsolePipeline.Json

/-!
# Reading a JSON text

The parser takes one token at a time. What it has to remember is its `State`: what may come next and
the lists and objects that are still open around that place. Nesting costs no recursion, so a text
of any depth can be read.

* `State.next?` — one token further.
* `parse?` — the value of a text that holds exactly one.
-/

/-- A list or object that is still open around the place being read; parts latest first. -/
inductive Frame
  | array (items : List Value)
  /-- The named member's value is being read. -/
  | object (members : List (Text × Value)) (key : Text)
  deriving Inhabited

/-- What may come next, and what is open around it. -/
inductive State
  /-- A value. -/
  | value (outer : List Frame)
  /-- A value, or the end of an empty list. -/
  | firstItem (outer : List Frame)
  /-- A separator, or the end of the list. -/
  | afterItem (items : List Value) (outer : List Frame)
  /-- A member's name, or the end of an empty object. -/
  | firstName (outer : List Frame)
  /-- A member's name. -/
  | nextName (members : List (Text × Value)) (outer : List Frame)
  /-- The colon after a name. -/
  | colon (members : List (Text × Value)) (key : Text) (outer : List Frame)
  /-- A separator, or the end of the object. -/
  | afterMember (members : List (Text × Value)) (outer : List Frame)
  /-- Nothing: the document is complete. -/
  | done (v : Value)
  deriving Inhabited

namespace State

/-- A value is complete: it belongs to the innermost open list or object, if there is one. -/
def complete (v : Value) : List Frame → State
  | [] => done v
  | .array items :: outer => afterItem (v :: items) outer
  | .object members key :: outer => afterMember ((key, v) :: members) outer

/-- The state after the first token of a value. -/
def startValue? (outer : List Frame) : Token → Option State
  | .scalar v => some (complete v outer)
  | .text t => some (complete (.string t) outer)
  | .openArray => some (firstItem outer)
  | .openObject => some (firstName outer)
  | _ => none

/-- One token further. -/
def next? : State → Token → Option State
  | value outer, t => startValue? outer t
  | firstItem outer, .closeArray => some (complete (.array []) outer)
  | firstItem outer, t => startValue? (.array [] :: outer) t
  | afterItem items outer, .comma => some (value (.array items :: outer))
  | afterItem items outer, .closeArray => some (complete (.array items.reverse) outer)
  | firstName outer, .closeObject => some (complete (.object []) outer)
  | firstName outer, .text t => some (colon [] t outer)
  | nextName members outer, .text t => some (colon members t outer)
  | colon members key outer, .colon => some (value (.object members key :: outer))
  | afterMember members outer, .comma => some (nextName members outer)
  | afterMember members outer, .closeObject => some (complete (.object members.reverse) outer)
  | _, _ => none

/-- Any number of tokens further. -/
def run? : State → List Token → Option State
  | s, [] => some s
  | s, t :: ts =>
    match s.next? t with
    | some s => run? s ts
    | none => none

end State

/-- The value that a list of tokens spells. -/
def ofTokens? (ts : List Token) : Option Value :=
  match State.run? (.value []) ts with
  | some (.done v) => some v
  | _ => none

/-- The value of a text that holds exactly one, among blanks. -/
def parse? (s : String) : Option Value :=
  (tokens? s).bind ofTokens?

end ConsolePipeline.Json
