import SymbolIndex.Record.Codec

/-!
# Search.Entry — what the search index knows of a record

An entry is the projection of one class, function or constant: enough to decide a criteria, and
the key under which the whole record is found.
-/

namespace SymbolIndex

open Json

/-- A row of the search index. -/
structure SearchEntry where
  recordType : RecordType
  identifier : String
  classType : Option ClassType := none
  flags : UInt32 := 0
  deriving DecidableEq

namespace SearchEntry

/-- The projection of a record. Members and files have none, nor has a class without a type. -/
def ofRecord? (r : Record) : Option SearchEntry :=
  if r.recordType.isSearchable && !r.isSpeculative then
    some ⟨r.recordType, r.identifier, r.classType?, r.flags?.getD 0⟩
  else none

/-- The last segment of the qualified name. -/
def shortName (e : SearchEntry) : String := SymbolIndex.shortName e.identifier

/-- The key of the record. -/
def key (e : SearchEntry) : RecordKey := ⟨e.recordType, e.identifier⟩

/-- The name of a class type; of no type, the empty text. -/
def typeName (t : Option ClassType) : String :=
  match t with
  | some t => t.name
  | none => ""

/-- The text of the type column. -/
def typeColumn (e : SearchEntry) : String := typeName e.classType

/-- The JSON form of an entry. -/
def toJson (e : SearchEntry) : Json :=
  .fields ([("record_type", .text e.recordType.name), ("identifier", .text e.identifier)] ++
    optionalField "type" (e.classType.map (fun t => .text t.name)) ++
    [("flags", .nat e.flags.toNat)])

/-- The JSON text of an entry. -/
def encode (e : SearchEntry) : String := e.toJson.print

/-- The entry a JSON value writes. -/
def ofJson? (j : Json) : Option SearchEntry := do
  match ← slots ["record_type", "identifier", "type", "flags"] j with
  | [kind, identifier, classKind, flags] =>
    let kind ← required (name? false) kind
    return {
      recordType := ← RecordType.ofName? kind
      identifier := ← required text? identifier
      classType := ← optional (fun k => (name? false k).bind ClassType.ofName?) classKind
      flags := ← defaulted 0 uint32? flags }
  | _ => none

/-- The entry a JSON text writes. -/
def decode? (s : String) : Option SearchEntry := do ofJson? (← Json.parse? s)

end SearchEntry

end SymbolIndex
