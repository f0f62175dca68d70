import SymbolIndex.Json.Basic

/-!
# Json.Decode — reading values of a known shape

A structure is written as an object, or as an array of its fields in order. `slots` finds the
value written for each field; a field written twice, or more items than fields, is refused, and a
field the structure does not have is passed over. The readers below say what a missing field means.
-/

namespace SymbolIndex.Json

/-- The text of a string value. -/
def text? : Json → Option String
  | .string s => s
  | _ => none

/-- An integer written without fraction and exponent. -/
def integer? : Json → Option Int
  | .number n => n.integer?
  | _ => none

/-- An unsigned 32-bit integer. -/
def uint32? (j : Json) : Option UInt32 := do uint32OfInt? (← j.integer?)

/-- A signed 64-bit integer. -/
def int64? (j : Json) : Option Int64 := do int64OfInt? (← j.integer?)

/-- Every item read by one reader. -/
def list? {α : Type} (read : Json → Option α) : Json → Option (List α)
  | .array items => items.mapM read
  | _ => none

/-- The values written for a key, in order. -/
def valuesOf (fields : List (Option String × Json)) (key : String) : List Json :=
  (fields.filter (fun e => e.1 == some key)).map (·.2)

/-- What is written for a key: `some none` when nothing is, `none` when it is written twice. -/
def unique? (fields : List (Option String × Json)) (key : String) : Option (Option Json) :=
  match valuesOf fields key with
  | [] => some none
  | [value] => some (some value)
  | _ => none

/-- The value of each field of a structure, `none` where nothing is written. -/
def slots (names : List String) : Json → Option (List (Option Json))
  | .object fields =>
    if fields.all (fun e => e.1.isSome) then names.mapM (unique? fields) else none
  | .array items =>
    if items.length ≤ names.length then
      some (items.map some ++ List.replicate (names.length - items.length) none)
    else none
  | _ => none

/-- A field that must be written. -/
def required {α : Type} (read : Json → Option α) : Option Json → Option α
  | none => none
  | some j => read j

/-- A field that may be missing or `null`. -/
def optional {α : Type} (read : Json → Option α) : Option Json → Option (Option α)
  | none | some .null => some none
  | some j => (read j).map some

/-- A field with a value of its own when it is missing. -/
def defaulted {α : Type} (default : α) (read : Json → Option α) : Option Json → Option α
  | none => some default
  | some j => read j

/-- How the name of a constant may be written: as a string, or as an object whose only field is the
name, with nothing in it. An empty object counts as nothing only where `emptyToo` holds. -/
def name? (emptyToo : Bool) : Json → Option String
  | .string s => s
  | .object [(key, .null)] => key
  | .object [(key, .object [])] => if emptyToo then key else none
  | _ => none

end SymbolIndex.Json
