import ConsolePipeline.Json.Value

namespace ConsolePipeline.Json

/-!
# Codecs

A codec writes values of a type as JSON and reads them back. Reading is strict about values and
lenient about records: a record is an object whose unknown members are ignored and whose missing
members keep their defaults, or a list of its first fields in order.

* `Codec` — a writer and a reader.
* `Codec.unsigned`, `Codec.choice`, `Codec.pair` — numbers, names out of a list, two values.
* `Codec.record` — a record, from a description of its fields.
-/

/-- How values of a type are written and read. -/
structure Codec (α : Type) where
  write : α → Value
  read? : Value → Option α

namespace Codec

variable {α ρ : Type}

def bool : Codec Bool where
  write := .bool
  read?
    | .bool b => some b
    | _ => none

/-- Natural numbers below a bound, written without sign, fraction and exponent. -/
def unsigned (bound : Nat) (toNat : α → Nat) (ofNat : Nat → α) : Codec α where
  write a := .ofNat (toNat a)
  read?
    | .number n => n.nat?.bind fun k => if k < bound then some (ofNat k) else none
    | _ => none

def uint8 : Codec UInt8 :=
  unsigned UInt8.size UInt8.toNat UInt8.ofNat

def uint32 : Codec UInt32 :=
  unsigned UInt32.size UInt32.toNat UInt32.ofNat

def uint64 : Codec UInt64 :=
  unsigned UInt64.size UInt64.toNat UInt64.ofNat

/-- Exactly two values in a list. -/
def pair (c : Codec α) : Codec (α × α) where
  write p := .array [c.write p.1, c.write p.2]
  read?
    | .array [v, w] => do return (← c.read? v, ← c.read? w)
    | _ => none

/-- One of finitely many values, by its name. The name may also be that of the only member of an
    object, if `isVoid` holds of the member's value. -/
def choice (all : List α) (name : α → String) (isVoid : Value → Bool) : Codec α where
  write a := .ofString (name a)
  read?
    | .string (some s) => all.find? fun a => name a == s
    | .object [(some s, v)] => if isVoid v then all.find? fun a => name a == s else none
    | _ => none

end Codec

/-- A member of a record: its name, and how it is written and read into the record. -/
structure Member (ρ : Type) where
  name : String
  write : ρ → Value
  read? : Value → ρ → Option ρ

namespace Member

variable {α ρ : Type}

/-- A member from the codec of its values. -/
def of (name : String) (codec : Codec α) (get : ρ → α) (set : α → ρ → ρ) : Member ρ where
  name
  write r := codec.write (get r)
  read? v r := (codec.read? v).map (set · r)

/-- Read members of an object one after the other; unknown ones are ignored. -/
def readMembers (fields : List (Member ρ)) : List (Text × Value) → ρ → Option ρ
  | [], r => some r
  | (key, v) :: ms, r =>
    match fields.find? fun f => some f.name == key with
    | some f => (f.read? v r).bind (readMembers fields ms)
    | none => readMembers fields ms r

/-- Read a list of the first fields' values. -/
def readItems : List (Member ρ) → List Value → ρ → Option ρ
  | _, [], r => some r
  | [], _ :: _, _ => none
  | f :: fs, v :: vs, r => (f.read? v r).bind (readItems fs vs)

/-- Whether every member has a name and no field occurs twice. -/
def areDistinct (fields : List (Member ρ)) (ms : List (Text × Value)) : Bool :=
  ms.all (fun m => m.1.isSome) &&
    fields.all fun f => ms.countP (fun m => m.1 == some f.name) ≤ 1

end Member

/-- A record, read over `start`, which gives the fields that are missing. -/
def Codec.record {ρ : Type} (fields : List (Member ρ)) (start : ρ) : Codec ρ where
  write r := .record (fields.map fun f => (f.name, f.write r))
  read?
    | .object ms =>
      if Member.areDistinct fields ms then Member.readMembers fields ms start else none
    | .array vs => Member.readItems fields vs start
    | _ => none

end ConsolePipeline.Json
