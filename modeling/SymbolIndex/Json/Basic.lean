import SymbolIndex.Integer

/-!
# Json.Basic — JSON values as they were written

A value keeps what its text says: numbers keep their digits, objects keep the order of their
fields and any repetition. A string literal whose surrogate escapes do not pair up is well-formed
text that denotes no string; it is kept as `none`, and a decoder that needs the string refuses it.
-/

namespace SymbolIndex

namespace Json

/-- A number as written: sign, integer digits, and the optional fraction and exponent. -/
structure Number where
  negative : Bool
  digits : List Char
  fraction : Option (List Char)
  exponent : Option (Bool × List Char)
  deriving DecidableEq

/-- The value of a string of decimal digits. -/
def digitsValue (digits : List Char) : Nat :=
  digits.foldl (fun n d => n * 10 + (d.toNat - 48)) 0

/-- Decimal digits of a number. -/
def digitsOf (n : Nat) : List Char := Nat.toDigits 10 n

/-- An integer without fraction and exponent. -/
def Number.ofInt (i : Int) : Number :=
  ⟨i < 0, digitsOf i.natAbs, none, none⟩

/-- The integer a number denotes when it is written as one. A zero with a minus sign is not. -/
def Number.integer? (n : Number) : Option Int :=
  match n.fraction, n.exponent with
  | none, none =>
    let value := digitsValue n.digits
    if n.negative then (if value = 0 then none else some (-value)) else some value
  | _, _ => none

/-- The least magnitude that rounds past the greatest finite double. -/
def overflowBound : Nat := Nat.pow 2 1024 - Nat.pow 2 970

/-- Whether a number lies in the range of finite doubles. -/
def Number.isFinite (n : Number) : Bool :=
  let mantissa := digitsValue (n.digits ++ n.fraction.getD [])
  let exponent : Int := match n.exponent with
    | none => 0
    | some (negative, digits) =>
      let value := digitsValue digits
      if negative then -(value : Int) else value
  let scale := exponent - (n.fraction.getD []).length
  if mantissa = 0 then true
  else if 400 < scale then false
  else if 0 ≤ scale then mantissa * powerOfTen scale.toNat < overflowBound
  else if (n.digits.length + (n.fraction.getD []).length : Int) < -scale then true
  else mantissa < overflowBound * powerOfTen (-scale).toNat

end Json

/-- A JSON value. -/
inductive Json where
  | null
  | bool (value : Bool)
  | number (value : Json.Number)
  | string (text : Option String)
  | array (items : List Json)
  | object (fields : List (Option String × Json))

namespace Json

instance : Inhabited Json := ⟨.null⟩

/-- A string value. -/
def text (s : String) : Json := .string (some s)

/-- An integer value. -/
def int (i : Int) : Json := .number (.ofInt i)

/-- A natural number. -/
def nat (n : Nat) : Json := .int n

/-- A value, or `null` for none. -/
def option {α : Type} (write : α → Json) : Option α → Json
  | none => .null
  | some a => write a

/-- An array of values of one type. -/
def list {α : Type} (write : α → Json) (items : List α) : Json :=
  .array (items.map write)

/-- An object with the given fields. -/
def fields (entries : List (String × Json)) : Json :=
  .object (entries.map (fun e => (some e.1, e.2)))

mutual

/-- Whether every string denotes a text and every number a finite double. -/
def isSound : Json → Bool
  | .null => true
  | .bool _ => true
  | .number n => n.isFinite
  | .string s => s.isSome
  | .array items => itemsSound items
  | .object fields => fieldsSound fields

/-- `isSound` for each item. -/
def itemsSound : List Json → Bool
  | [] => true
  | item :: rest => isSound item && itemsSound rest

/-- `isSound` for each field, keys included. -/
def fieldsSound : List (Option String × Json) → Bool
  | [] => true
  | (key, value) :: rest => key.isSome && isSound value && fieldsSound rest

end

mutual

/-- The number of arrays and objects around the innermost value. -/
def depth : Json → Nat
  | .array items => itemsDepth items + 1
  | .object fields => fieldsDepth fields + 1
  | _ => 0

/-- The greatest depth of the items. -/
def itemsDepth : List Json → Nat
  | [] => 0
  | item :: rest => max (depth item) (itemsDepth rest)

/-- The greatest depth of the fields' values. -/
def fieldsDepth : List (Option String × Json) → Nat
  | [] => 0
  | (_, value) :: rest => max (depth value) (fieldsDepth rest)

end

end Json

end SymbolIndex
