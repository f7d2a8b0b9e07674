import ConsolePipeline.Json.Value

namespace ConsolePipeline.Json

/-!
# Sorted members

The same value with the members of every object in the order of their names.
-/

/-- The order of names, by code points; a name that stands for no characters comes first. -/
def nameLe : Text → Text → Bool
  | none, _ => true
  | some _, none => false
  | some a, some b => a ≤ b

/-- The value with the members of every object sorted by name. -/
def Value.sorted : Value → Value
  | .array items => .array (itemsSorted items)
  | .object members => .object ((membersSorted members).mergeSort fun a b => nameLe a.1 b.1)
  | v => v
where
  itemsSorted : List Value → List Value
    | [] => []
    | v :: vs => v.sorted :: itemsSorted vs
  membersSorted : List (Text × Value) → List (Text × Value)
    | [] => []
    | (k, v) :: ms => (k, v.sorted) :: membersSorted ms

end ConsolePipeline.Json
