import ConsolePipeline.Json.Number

namespace ConsolePipeline.Json

/-!
# JSON values

A value keeps what a reader may want to judge later: the order and repetition of an object's
members, whether a number was written as a plain integer, and whether a text held half of a
surrogate pair, which stands for no character.

* `Value` — a document or a part of one.
* `Value.depth` — how deep lists and objects are nested.
* `Value.isSound` — whether it holds no half of a surrogate pair and no number too large.
-/

/-- A text; `none` if an unpaired surrogate was among its escapes. -/
abbrev Text := Option String

/-- A document or a part of one. -/
inductive Value
  | null
  | bool (b : Bool)
  | number (n : Number)
  | string (text : Text)
  | array (items : List Value)
  /-- Members in the order written, repeated names included. -/
  | object (members : List (Text × Value))
  deriving Inhabited

namespace Value

def ofNat (n : Nat) : Value :=
  .number (.ofNat n)

def ofInt (i : Int) : Value :=
  .number (.ofInt i)

def ofString (s : String) : Value :=
  .string (some s)

/-- An object with the given members, in that order. -/
def record (members : List (String × Value)) : Value :=
  .object (members.map fun (k, v) => (some k, v))

/-- An absent value is `null`. -/
def ofOption {α : Type} (f : α → Value) : Option α → Value
  | some a => f a
  | none => .null

/-- How deep lists and objects are nested; 0 for any other value. -/
def depth : Value → Nat
  | .array items => itemsDepth items + 1
  | .object members => membersDepth members + 1
  | _ => 0
where
  itemsDepth : List Value → Nat
    | [] => 0
    | v :: vs => max v.depth (itemsDepth vs)
  membersDepth : List (Text × Value) → Nat
    | [] => 0
    | (_, v) :: ms => max v.depth (membersDepth ms)

/-- Whether every text is free of unpaired surrogates and every number fits a double. -/
def isSound : Value → Bool
  | .number n => !n.overflows
  | .string text => text.isSome
  | .array items => itemsSound items
  | .object members => membersSound members
  | _ => true
where
  itemsSound : List Value → Bool
    | [] => true
    | v :: vs => v.isSound && itemsSound vs
  membersSound : List (Text × Value) → Bool
    | [] => true
    | (k, v) :: ms => k.isSome && v.isSound && membersSound ms

end Value

end ConsolePipeline.Json
