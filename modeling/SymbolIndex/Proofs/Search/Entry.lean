import SymbolIndex.Proofs.Record.Written
import SymbolIndex.Search.Entry

/-!
# Proofs.Search.Entry — what is written is read back, records and entries alike

An entry of the search index is read back from its text (`SearchEntry.decode_encode`) and has a
layout of its own. With the same of records, this is what the files of an index rest on: each text
is that of one value (`texts_determine`), and its form is the layout, in which the kind comes first,
fields without a value are left out, and flags and references never are.
-/

namespace SymbolIndex

open Json Written

set_option autoImplicit false

namespace SearchEntry

theorem ofJson?_fields {kind identifier flags : Json} {type : Option Json} {e : SearchEntry}
    (name : name? false kind = some e.recordType.name)
    (same : text? identifier = some e.identifier)
    (classKind : Json.optional (fun k => (name? false k).bind ClassType.ofName?) type =
      some e.classType)
    (bits : uint32? flags = some e.flags) :
    ofJson? (.fields ([("record_type", kind), ("identifier", identifier)] ++
      optionalField "type" type ++ [("flags", flags)])) = some e := by
  have read : slots ["record_type", "identifier", "type", "flags"]
      (.fields ([("record_type", kind), ("identifier", identifier)] ++
        optionalField "type" type ++ [("flags", flags)])) =
      some [some kind, some identifier, type, some flags] := by
    cases type <;> rw [slots_fields (by simp [optionalField])] <;>
      simp [List.lookup_cons, optionalField]
  simp only [ofJson?, read, required, defaulted, name, RecordType.ofName?_name, same, classKind,
    bits, Option.bind_eq_bind, Option.bind_some, Option.pure_def]

theorem ofJson?_toJson (e : SearchEntry) : ofJson? e.toJson = some e :=
  ofJson?_fields (name?_text false _) (text?_text _)
    (optional_map (fun _ => text_ne_null _) ClassType.ofName?_name _) (uint32?_nat _)

theorem plain_toJson (e : SearchEntry) : Plain e.toJson := by
  refine plain_fields fun field member => ?_
  simp only [List.mem_append, List.mem_cons, List.not_mem_nil, or_false] at member
  rcases member with ((rfl | rfl) | member) | rfl
  · exact plain_text _
  · exact plain_text _
  · exact forall_optionalField (by simp [plain_text]) field member
  · exact plain_uint32 _

/-- **Round trip.** The text of an entry is read as that entry. -/
theorem decode_encode (e : SearchEntry) : decode? e.encode = some e := by
  rw [decode?, encode, parse_print e.plain_toJson, Option.bind_eq_bind, Option.bind_some,
    ofJson?_toJson]

/-- The fields of an entry. -/
def layout (e : SearchEntry) : Layout :=
  [("record_type", some (literal e.recordType.name)),
    ("identifier", some (literal e.identifier)),
    ("type", e.classType.map fun t => literal t.name),
    ("flags", some (toString e.flags.toNat))]

/-- An entry is written as its layout. -/
theorem encode_eq (e : SearchEntry) : e.encode = braced e.layout := by
  rw [encode, toJson, print_fields]
  cases type : e.classType <;>
    exact braced_congr (by simp [layout, optionalField, print_text, print_nat, type])

end SearchEntry

/-- What a text is decoded to is what it was encoded from, so that two texts are only equal where
the values are. -/
theorem encode_injective_of_decode {α : Type} {encode : α → String} {decode : String → Option α}
    (back : ∀ a, decode (encode a) = some a) : Function.Injective encode := by
  intro a b same
  have read := back a
  rw [same, back b] at read
  exact (Option.some.inj read).symm

/-! ## Layouts of one kind -/

namespace Written

/-- The fields that may be missing, of all structures. -/
def mayBeMissing : List String := ["type", "location", "container_type", "last_indexed"]

/-- A layout of the index: the names are in small letters with underscores between words, and only
a field that may be missing is without a text. -/
structure Regular (fields : Layout) : Prop where
  snakeCase : ∀ e ∈ fields, isSnakeCase e.1 = true
  isSome : ∀ e ∈ fields, e.1 ∉ mayBeMissing → e.2.isSome = true

end Written

theorem Location.regular_layout (l : Location) : Regular l.layout where
  snakeCase := by simp only [layout, List.forall_mem_cons]; decide
  isSome := by simp [layout]

theorem RecordReference.regular_layout (r : RecordReference) : Regular r.layout where
  snakeCase := by simp only [layout, List.forall_mem_cons]; decide
  isSome := by simp [layout, mayBeMissing]

theorem Record.regular_layout (r : Record) : Regular r.layout where
  snakeCase := by cases r <;> simp only [layout, List.forall_mem_cons] <;> decide
  isSome := by cases r <;> simp [layout, mayBeMissing]

theorem SearchEntry.regular_layout (e : SearchEntry) : Regular e.layout where
  snakeCase := by simp only [layout, List.forall_mem_cons]; decide
  isSome := by simp [layout, mayBeMissing]

/-- **The texts of an index are lossless.** Every record and every entry is read back from its text
as itself, so that different records, and different entries, have different texts. The text is that
of the layout: the kind is its first field, a field that holds nothing is left out, and in the
layouts of records, entries, references and locations alike names are in small letters with
underscores and only the four fields that may be missing ever are. -/
theorem texts_determine :
    (∀ r : Record, Record.decode? r.encode = some r ∧ r.encode = braced r.layout ∧
      r.layout.head? = some ("record_type", some (literal r.recordType.name)) ∧
      Regular r.layout) ∧
    (∀ e : SearchEntry, SearchEntry.decode? e.encode = some e ∧ e.encode = braced e.layout ∧
      e.layout.head? = some ("record_type", some (literal e.recordType.name)) ∧
      Regular e.layout) ∧
    Function.Injective Record.encode ∧ Function.Injective SearchEntry.encode ∧
    (∀ r : RecordReference, r.toJson.print = braced r.layout ∧ Regular r.layout) ∧
    ∀ l : Location, l.toJson.print = braced l.layout ∧ Regular l.layout := by
  refine ⟨fun r => ⟨r.decode_encode, r.encode_eq, ?_, r.regular_layout⟩,
    fun e => ⟨e.decode_encode, e.encode_eq, rfl, e.regular_layout⟩,
    encode_injective_of_decode Record.decode_encode,
    encode_injective_of_decode SearchEntry.decode_encode,
    fun r => ⟨r.print_toJson, r.regular_layout⟩, fun l => ⟨l.print_toJson, l.regular_layout⟩⟩
  cases r <;> rfl

end SymbolIndex
