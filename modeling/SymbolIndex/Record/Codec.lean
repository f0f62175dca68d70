import SymbolIndex.Json.Decode
import SymbolIndex.Json.Parser
import SymbolIndex.Json.Printer
import SymbolIndex.Record.Basic

/-!
# Record.Codec — records as JSON text

A record is an object whose `record_type` names its kind, followed by the fields of that kind in
order. Fields that hold nothing are left out; `flags` and `references` are always written. Reading
accepts what writing produces and more: fields in any order, unknown fields, and arrays in place
of objects.
-/

namespace SymbolIndex

open Json

/-- A field of an object. -/
abbrev Field := String × Json

/-- A field that is left out when there is no value. -/
def optionalField (name : String) (value : Option Json) : List Field :=
  match value with
  | some v => [(name, v)]
  | none => []

namespace Location

/-- The JSON form of a location. -/
def toJson (l : Location) : Json :=
  .fields [("uri", .text l.uri), ("start", .nat l.start.toNat), ("end", .nat l.stop.toNat)]

/-- The location a JSON value writes. -/
def ofJson? (j : Json) : Option Location := do
  match ← slots ["uri", "start", "end"] j with
  | [uri, start, stop] =>
    return ⟨← required text? uri, ← required uint32? start, ← required uint32? stop⟩
  | _ => none

end Location

namespace RecordReference

/-- The JSON form of a reference. -/
def toJson (r : RecordReference) : Json :=
  .fields ([("record_type", .text r.recordType.name), ("identifier", .text r.identifier),
      ("start", .nat r.start.toNat), ("end", .nat r.stop.toNat)] ++
    optionalField "container_type" (r.containerType.map .text) ++
    [("flags", .nat r.flags.toNat)])

/-- The reference a JSON value writes. -/
def ofJson? (j : Json) : Option RecordReference := do
  match ← slots ["record_type", "identifier", "start", "end", "container_type", "flags"] j with
  | [kind, identifier, start, stop, container, flags] =>
    let kind ← required (name? true) kind
    return {
      recordType := ← RecordType.ofName? kind
      identifier := ← required text? identifier
      start := ← required uint32? start
      stop := ← required uint32? stop
      containerType := ← optional text? container
      flags := ← defaulted 0 uint32? flags }
  | _ => none

end RecordReference

namespace Record

/-- The fields of a class. -/
def classFields (r : ClassRecord) : List Field :=
  [("fqn", .text r.fqn)] ++ optionalField "type" (r.classType.map (fun t => .text t.name)) ++
    optionalField "location" (r.location.map Location.toJson) ++ [("flags", .nat r.flags.toNat)]

/-- The fields of a function. -/
def functionFields (r : FunctionRecord) : List Field :=
  [("fqn", .text r.fqn)] ++ optionalField "location" (r.location.map Location.toJson)

/-- The fields of a constant. -/
def constantFields (r : ConstantRecord) : List Field :=
  [("fqn", .text r.fqn)] ++ optionalField "location" (r.location.map Location.toJson)

/-- The fields of a member. -/
def memberFields (r : MemberRecord) : List Field :=
  [("member_type", .text r.memberType.name), ("member_name", .text r.memberName)] ++
    optionalField "container_type" (r.containerType.map .text) ++
    [("references", .list .text r.references.toList)]

/-- The fields of a file. -/
def fileFields (r : FileRecord) : List Field :=
  [("path", .text r.path)] ++ optionalField "last_indexed" (r.lastIndexed.map (.int ·.toInt)) ++
    [("references", .list RecordReference.toJson r.references)]

/-- The fields of a record, without its kind. -/
def bodyFields : Record → List Field
  | .klass r => classFields r
  | .function r => functionFields r
  | .constant r => constantFields r
  | .member r => memberFields r
  | .file r => fileFields r

/-- The JSON form of a record. -/
def toJson (r : Record) : Json :=
  .fields (("record_type", .text r.recordType.name) :: r.bodyFields)

/-- The JSON text of a record. -/
def encode (r : Record) : String := r.toJson.print

/-- The class that the fields of a JSON value write. -/
def classOfJson? (j : Json) : Option ClassRecord := do
  match ← slots ["fqn", "type", "location", "flags"] j with
  | [fqn, kind, location, flags] =>
    return {
      fqn := ← required text? fqn
      classType := ← optional (fun k => (name? true k).bind ClassType.ofName?) kind
      location := ← optional Location.ofJson? location
      flags := ← defaulted 0 uint32? flags }
  | _ => none

/-- The name and the location that the fields of a JSON value write. -/
def locatedOfJson? (j : Json) : Option (String × Option Location) := do
  match ← slots ["fqn", "location"] j with
  | [fqn, location] => return (← required text? fqn, ← optional Location.ofJson? location)
  | _ => none

/-- The member that the fields of a JSON value write. -/
def memberOfJson? (j : Json) : Option MemberRecord := do
  match ← slots ["member_type", "member_name", "container_type", "references"] j with
  | [kind, name, container, references] =>
    let kind ← required (name? true) kind
    return {
      memberType := ← MemberType.ofName? kind
      memberName := ← required text? name
      containerType := ← optional text? container
      references := .ofList (← defaulted [] (list? text?) references) }
  | _ => none

/-- The file that the fields of a JSON value write. -/
def fileOfJson? (j : Json) : Option FileRecord := do
  match ← slots ["path", "last_indexed", "references"] j with
  | [path, stamp, references] =>
    return {
      path := ← required text? path
      lastIndexed := ← optional int64? stamp
      references := ← defaulted [] (list? RecordReference.ofJson?) references }
  | _ => none

/-- The record of a kind that the fields of a JSON value write. -/
def bodyOfJson? (kind : RecordType) (j : Json) : Option Record :=
  match kind with
  | .klass => (classOfJson? j).map .klass
  | .function => (locatedOfJson? j).map (fun r => .function ⟨r.1, r.2⟩)
  | .constant => (locatedOfJson? j).map (fun r => .constant ⟨r.1, r.2⟩)
  | .member => (memberOfJson? j).map .member
  | .file => (fileOfJson? j).map .file

/-- The kind a record's JSON value names, and the value of its fields. -/
def tagged? : Json → Option (RecordType × Json)
  | .object fields => do
    let tag ← (← unique? fields "record_type")
    return (← RecordType.ofName? (← tag.text?), .object fields)
  | .array (tag :: rest) => do
    return (← RecordType.ofName? (← tag.text?), .array rest)
  | _ => none

/-- The record a JSON value writes. A string anywhere in it must denote a text, and a number be in
the range of doubles. -/
def ofJson? (j : Json) : Option Record := do
  if !j.isSound then none
  let (kind, body) ← tagged? j
  bodyOfJson? kind body

/-- The greatest depth at which a text may nest arrays and objects. -/
def maxDepth : Nat := 127

/-- The record a JSON text writes. -/
def decode? (s : String) : Option Record := do
  let j ← Json.parse? s
  if j.depth ≤ maxDepth then ofJson? j else none

/-- The records a JSON text writes as an array, as an extractor may get them from a document. -/
def decodeList? (s : String) : Option (List Record) := do
  let j ← Json.parse? s
  if j.depth ≤ maxDepth then list? ofJson? j else none

end Record

end SymbolIndex
