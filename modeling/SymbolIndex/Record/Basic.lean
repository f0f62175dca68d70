import SymbolIndex.Ordered.Set
import SymbolIndex.Record.Key

/-!
# Record.Basic — the facts the index stores

One record says what is known of one symbol or one file. A class, function or constant without a
location is a placeholder: it is referenced, and not yet known to be defined. A class without a type
is speculative, and is never stored.
-/

namespace SymbolIndex

/-- A range of bytes in a document. -/
structure Location where
  uri : String
  start : UInt32
  stop : UInt32
  deriving DecidableEq

/-- The range in the document at a path. -/
def Location.ofPath (path : String) (start stop : UInt32) : Location :=
  ⟨Uri.normalize path, start, stop⟩

/-- Whether every bit of `flag` is set in `flags`. -/
def hasFlag (flags flag : UInt32) : Bool := flags &&& flag == flag

/-- A use of a symbol, in the table of the file that uses it. -/
structure RecordReference where
  recordType : RecordType
  identifier : String
  start : UInt32
  stop : UInt32
  containerType : Option String
  flags : UInt32
  deriving DecidableEq

namespace RecordReference

/-- The use instantiates the class it references. -/
def newObjectFlag : UInt32 := 1

/-- Whether the reference is to the given record. -/
def pointsTo (r : RecordReference) (recordType : RecordType) (identifier : String) : Bool :=
  r.recordType == recordType && r.identifier == identifier

end RecordReference

/-- A class, interface, trait or enumeration. The type is known once a declaration was read. -/
structure ClassRecord where
  fqn : String
  classType : Option ClassType := none
  location : Option Location := none
  flags : UInt32 := 0
  deriving DecidableEq

/-- The class may be used as an attribute. -/
def ClassRecord.attributeFlag : UInt32 := 1

/-- A free function. -/
structure FunctionRecord where
  fqn : String
  location : Option Location := none
  deriving DecidableEq

/-- A global constant. -/
structure ConstantRecord where
  fqn : String
  location : Option Location := none
  deriving DecidableEq

/-- A class member, and the URIs of the files that use it. -/
structure MemberRecord where
  memberType : MemberType
  memberName : String
  containerType : Option String := none
  references : SortedSet String := .empty
  deriving DecidableEq

namespace MemberRecord

/-- The identifier of a member. -/
def identifier (m : MemberRecord) : String := RecordKey.memberIdentifier m.memberType m.memberName

/-- A member of which only the identifier is known. -/
def ofIdentifier (identifier : String) : Except ParseError MemberRecord :=
  (RecordKey.parseMember identifier).map
    (fun parts => { memberType := parts.1, memberName := parts.2 })

/-- Note that a file uses the member. -/
def addReference (m : MemberRecord) (path : String) : MemberRecord :=
  { m with references := m.references.insert (Uri.normalize path) }

/-- Forget that a file uses the member. -/
def removeReference (m : MemberRecord) (path : String) : MemberRecord :=
  { m with references := m.references.erase (Uri.normalize path) }

end MemberRecord

/-- What is known of a file: its URI, the time of its last indexing in milliseconds, and the symbols
it uses. -/
structure FileRecord where
  path : String
  lastIndexed : Option Int64 := none
  references : List RecordReference := []
  deriving DecidableEq

namespace FileRecord

/-- A file that was not indexed yet. -/
def ofPath (path : String) : FileRecord := { path := Uri.normalize path }

/-- The references to one record, in order. -/
def referencesTo (f : FileRecord) (recordType : RecordType) (identifier : String) :
    List RecordReference :=
  f.references.filter (·.pointsTo recordType identifier)

/-- Whether the file was indexed at `mtime` or later. -/
def isFreshAt (f : FileRecord) (mtime : Int64) : Bool :=
  match f.lastIndexed with
  | some stamp => mtime ≤ stamp
  | none => false

end FileRecord

/-- One fact of the index. -/
inductive Record where
  | klass (record : ClassRecord)
  | function (record : FunctionRecord)
  | constant (record : ConstantRecord)
  | member (record : MemberRecord)
  | file (record : FileRecord)
  deriving DecidableEq

namespace Record

/-- The kind of a record. -/
def recordType : Record → RecordType
  | .klass _ => .klass
  | .function _ => .function
  | .constant _ => .constant
  | .member _ => .member
  | .file _ => .file

/-- The identifier of a record among those of its kind. -/
def identifier : Record → String
  | .klass r => r.fqn
  | .function r => r.fqn
  | .constant r => r.fqn
  | .member r => r.identifier
  | .file r => r.path

/-- The address of a record. -/
def key (r : Record) : RecordKey := ⟨r.recordType, r.identifier⟩

/-- The record of which only the kind and the identifier are known. -/
def prototype (recordType : RecordType) (identifier : String) : Except ParseError Record :=
  match recordType with
  | .klass => .ok (.klass { fqn := identifier })
  | .function => .ok (.function { fqn := identifier })
  | .constant => .ok (.constant { fqn := identifier })
  | .member => (MemberRecord.ofIdentifier identifier).map .member
  | .file => .ok (.file (FileRecord.ofPath identifier))

/-- The qualified name of a class, function or constant. -/
def fqn? : Record → Option String
  | .klass r => some r.fqn
  | .function r => some r.fqn
  | .constant r => some r.fqn
  | .member _ | .file _ => none

/-- Where a class, function or constant is defined. -/
def location? : Record → Option Location
  | .klass r => r.location
  | .function r => r.location
  | .constant r => r.location
  | .member _ | .file _ => none

/-- A class, function or constant with its definition at a location. -/
def withLocation (r : Record) (l : Location) : Record :=
  match r with
  | .klass r => .klass { r with location := some l }
  | .function r => .function { r with location := some l }
  | .constant r => .constant { r with location := some l }
  | r => r

/-- The last segment of the qualified name. -/
def shortName? (r : Record) : Option String := r.fqn?.map shortName

/-- The flags of a class; no other record has any. -/
def flags? : Record → Option UInt32
  | .klass r => some r.flags
  | _ => none

/-- The class type of a class whose type is known. -/
def classType? : Record → Option ClassType
  | .klass r => r.classType
  | _ => none

/-- Whether the record is a symbol that is not known to be defined. -/
def isPlaceholder (r : Record) : Bool := r.fqn?.isSome && r.location?.isNone

/-- Whether the record is a class without a type. -/
def isSpeculative : Record → Bool
  | .klass r => r.classType.isNone
  | _ => false

/-- The URI a record hangs on: that of the file, or of the file that defines the symbol. -/
def sourceUri? : Record → Option String
  | .file r => some r.path
  | r => r.location?.map (·.uri)

end Record

/-- How certain a reference is. -/
inductive Confidence where
  /-- The container is the one asked for. -/
  | surely
  /-- The container is not known. -/
  | maybe
  /-- The container is known and another one. -/
  | never
  deriving DecidableEq

/-- A place of use and how certain it is. -/
structure LocationConfidence where
  location : Location
  confidence : Confidence
  deriving DecidableEq

end SymbolIndex
