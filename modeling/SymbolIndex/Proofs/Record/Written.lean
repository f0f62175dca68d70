import SymbolIndex.Proofs.Record.RoundTrip

/-!
# Proofs.Record.Written — the text of a record, field by field

What a record is written as is said here a second time, without JSON values: a structure has a
layout, the names of its fields in the order of their declaration, each with the text of its value
or with nothing. Its text is the object of the fields that hold something (`Written.braced`). A
layout names every field there is, so what is left out and what is always written can be read off
it: `flags` and `references` have a text in every layout, and a field that may be missing has the
text of its value or none.

The printer agrees: `Location.print_toJson`, `RecordReference.print_toJson` and
`Record.encode_eq`.
-/

namespace SymbolIndex

open Json

set_option autoImplicit false

/-! ## Texts of values -/

/-- The fields of a structure in the order of their declaration, each with the text of its value. A
field without one is not written. -/
abbrev Layout := List (String × Option String)

namespace Written

/-- A string literal. -/
def literal (s : String) : String := String.ofList (stringChars s)

/-- The items between brackets. -/
def bracketed (items : List String) : String := "[" ++ String.intercalate "," items ++ "]"

/-- The fields that hold something, between braces. -/
def braced (fields : Layout) : String :=
  "\x7b" ++ String.intercalate ","
    (fields.filterMap fun e => e.2.map fun value => literal e.1 ++ ":" ++ value) ++ "\x7d"

/-- Small letters, with underscores between words. -/
def isSnakeCase (name : String) : Bool := name.toList.all fun c => c.isLower || c == '_'

end Written

open Written

namespace Json

theorem print_text (s : String) : (text s).print = literal s := rfl

theorem print_int (i : Int) : (int i).print = toString i := by
  apply String.toList_injective
  rw [print, String.toList_ofList]
  cases i <;>
    simp [int, chars, Number.chars, Number.ofInt, digitsOf, toString, Int.repr, Nat.repr]

theorem print_nat (n : Nat) : (nat n).print = toString n := print_int n

theorem itemsChars_eq (items : List Json) :
    itemsChars items = (String.intercalate "," (items.map print)).toList ++ [']'] := by
  induction items with
  | nil => rfl
  | cons item items ih =>
      cases items with
      | nil => simp [itemsChars, print]
      | cons next rest =>
          rw [itemsChars, ih]
          · simp [print]
          · exact List.cons_ne_nil _ _

theorem print_list {α : Type} (write : α → Json) (items : List α) :
    (Json.list write items).print = bracketed (items.map fun a => (write a).print) := by
  apply String.toList_injective
  rw [print, String.toList_ofList, Json.list, chars, itemsChars_eq, List.map_map]
  simp [bracketed, Function.comp_def]

theorem fieldsChars_eq (entries : List (String × Json)) :
    fieldsChars (entries.map fun e => (some e.1, e.2)) =
      (String.intercalate "," (entries.map fun e => literal e.1 ++ ":" ++ e.2.print)).toList ++
        ['\x7d'] := by
  induction entries with
  | nil => rfl
  | cons e entries ih =>
      cases entries with
      | nil => simp [fieldsChars, textChars, literal, print]
      | cons next rest =>
          rw [List.map_cons, fieldsChars, ih]
          · simp [textChars, literal, print]
          · exact List.cons_ne_nil _ _

/-- An object is printed as the layout of its fields, each with a text. -/
theorem print_fields (entries : List (String × Json)) :
    (fields entries).print = braced (entries.map fun e => (e.1, some e.2.print)) := by
  apply String.toList_injective
  rw [print, String.toList_ofList, fields, chars, fieldsChars_eq]
  simp [braced, List.filterMap_map, Function.comp_def]

end Json

namespace Written

theorem bracketed_map_congr {α : Type} {f g : α → String} (same : ∀ a, f a = g a) (items : List α) :
    bracketed (items.map f) = bracketed (items.map g) := by rw [funext same]

/-- The text depends on the fields that hold something only. -/
theorem braced_congr {a b : Layout}
    (same : a.filterMap (fun e => e.2.map fun value => literal e.1 ++ ":" ++ value) =
      b.filterMap (fun e => e.2.map fun value => literal e.1 ++ ":" ++ value)) :
    braced a = braced b := by rw [braced, same, braced]

end Written

/-! ## Layouts -/

namespace Location

/-- The fields of a location. -/
def layout (l : Location) : Layout :=
  [("uri", some (literal l.uri)),
    ("start", some (toString l.start.toNat)),
    ("end", some (toString l.stop.toNat))]

theorem print_toJson (l : Location) : l.toJson.print = braced l.layout := by
  rw [toJson, print_fields]
  simp [layout, print_text, print_nat]

end Location

namespace RecordReference

/-- The fields of a reference. -/
def layout (r : RecordReference) : Layout :=
  [("record_type", some (literal r.recordType.name)),
    ("identifier", some (literal r.identifier)),
    ("start", some (toString r.start.toNat)),
    ("end", some (toString r.stop.toNat)),
    ("container_type", r.containerType.map literal),
    ("flags", some (toString r.flags.toNat))]

theorem print_toJson (r : RecordReference) : r.toJson.print = braced r.layout := by
  rw [toJson, print_fields]
  cases held : r.containerType <;>
    exact braced_congr (by simp [layout, optionalField, print_text, print_nat, held])

end RecordReference

namespace Record

/-- The fields of a record. The first one is the name of its kind. -/
def layout : Record → Layout
  | .klass r =>
    [("record_type", some (literal "class")),
      ("fqn", some (literal r.fqn)),
      ("type", r.classType.map fun t => literal t.name),
      ("location", r.location.map fun l => braced l.layout),
      ("flags", some (toString r.flags.toNat))]
  | .function r =>
    [("record_type", some (literal "function")),
      ("fqn", some (literal r.fqn)),
      ("location", r.location.map fun l => braced l.layout)]
  | .constant r =>
    [("record_type", some (literal "constant")),
      ("fqn", some (literal r.fqn)),
      ("location", r.location.map fun l => braced l.layout)]
  | .member r =>
    [("record_type", some (literal "member")),
      ("member_type", some (literal r.memberType.name)),
      ("member_name", some (literal r.memberName)),
      ("container_type", r.containerType.map literal),
      ("references", some (bracketed (r.references.toList.map literal)))]
  | .file r =>
    [("record_type", some (literal "file")),
      ("path", some (literal r.path)),
      ("last_indexed", r.lastIndexed.map fun time => toString time.toInt),
      ("references", some (bracketed (r.references.map fun use => braced use.layout)))]

theorem print_references (uses : List RecordReference) :
    (Json.list RecordReference.toJson uses).print =
      bracketed (uses.map fun use => braced use.layout) := by
  rw [print_list]
  exact bracketed_map_congr RecordReference.print_toJson uses

/-- A record is written as its layout. -/
theorem encode_eq (r : Record) : r.encode = braced r.layout := by
  rw [encode, toJson, print_fields]
  cases r with
  | klass r =>
      cases type : r.classType <;> cases place : r.location <;>
        exact braced_congr (by
          simp [layout, bodyFields, classFields, optionalField, recordType, RecordType.name,
            print_text, print_nat, Location.print_toJson, type, place])
  | function r =>
      cases place : r.location <;>
        exact braced_congr (by
          simp [layout, bodyFields, functionFields, optionalField, recordType, RecordType.name,
            print_text, Location.print_toJson, place])
  | constant r =>
      cases place : r.location <;>
        exact braced_congr (by
          simp [layout, bodyFields, constantFields, optionalField, recordType, RecordType.name,
            print_text, Location.print_toJson, place])
  | member r =>
      cases holder : r.containerType <;>
        exact braced_congr (by
          simp [layout, bodyFields, memberFields, optionalField, recordType, RecordType.name,
            print_text, print_list, holder])
  | file r =>
      cases time : r.lastIndexed <;>
        exact braced_congr (by
          simp [layout, bodyFields, fileFields, optionalField, recordType, RecordType.name,
            print_text, print_int, print_references, time])

example : encode (.member { memberType := .method, memberName := "run\n" }) =
    "\x7b\"record_type\":\"member\",\"member_type\":\"method\",\"member_name\":\"run\\n\"," ++
      "\"references\":[]\x7d" := by
  decide +kernel

end Record

end SymbolIndex
