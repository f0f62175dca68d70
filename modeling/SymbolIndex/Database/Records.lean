import SymbolIndex.Database.Basic
import SymbolIndex.Record.Basic

/-!
# Database.Records — records as rows

A class, a function or a constant is one row, a member and a file are one row each and one more row
for each reference. Of several rows of one class the last added speaks for it; writing a class
removes the rows it has under other types. The references of a record are replaced whole whenever
the record is written.
-/

namespace SymbolIndex.Records

open SymbolIndex (Table Transaction)

/-! ## Reading -/

/-- A location of which every part is there. -/
def locationOf (start stop : Option UInt32) (filePath : Option String) : Option SymbolIndex.Location := do
  return ⟨← filePath, ← start, ← stop⟩

/-- Fail with the first error, as reading the columns one after the other does. -/
def liftExcept {α : Type} (result : Except DatabaseError α) : Transaction α :=
  fun db => result.map (fun a => (a, db))

/-- The class of a name. -/
def getClass (fqn : String) : Transaction (Option Record) := do
  let rows ← Table.classes.rows
  match (rows.filter (fun r => r.fqn == fqn)).getLast? with
  | none => return none
  | some row =>
    let start ← liftExcept row.start.uint32?
    let stop ← liftExcept row.stop.uint32?
    let flags ← liftExcept row.flags.uint32
    let classType ← liftExcept (corruptUnless (ClassType.parse row.classType))
    return some (.klass {
      fqn := fqn
      classType := some classType
      location := locationOf start stop row.filePath
      flags := flags })

/-- The location in the row of a name, if there is one. -/
def getLocated (table : Table LocatedRow) (fqn : String) :
    Transaction (Option (Option SymbolIndex.Location)) := do
  let rows ← table.rows
  match rows.find? (fun r => r.fqn == fqn) with
  | none => return none
  | some row =>
    let start ← liftExcept row.start.uint32?
    let stop ← liftExcept row.stop.uint32?
    return some (locationOf start stop row.filePath)

/-- Whether a row is that of a member. -/
def isMember (memberType : MemberType) (name : String) (r : MemberRow) : Bool :=
  r.memberType == memberType.name && r.memberName == name

/-- The member of an identifier. A text that is no identifier has none. -/
def getMember (identifier : String) : Transaction (Option Record) := do
  match MemberRecord.ofIdentifier identifier with
  | .error _ => return none
  | .ok member =>
    let rows ← Table.members.rows
    match rows.find? (isMember member.memberType member.memberName) with
    | none => return none
    | some row =>
      let references ← Table.memberReferences.rows
      let found := references.filter (fun r => r.memberId == row.id)
      return some (.member { member with
        containerType := row.containerType
        references := .ofList (found.map (·.filePath)) })

/-- The reference in a row. -/
def referenceOf (row : FileReferenceRow) : Except DatabaseError RecordReference :=
  (corruptUnless (RecordType.parse row.recordType)).map fun kind => {
    recordType := kind
    identifier := row.identifier
    start := row.start
    stop := row.stop
    containerType := row.containerType
    flags := row.flags }

/-- Put a row in its place among rows in the order of their positions. -/
def insertPosition (row : FileReferenceRow) : List FileReferenceRow → List FileReferenceRow
  | [] => [row]
  | r :: rest => if row.position ≤ r.position then row :: r :: rest else r :: insertPosition row rest

/-- Rows in the order of their positions. -/
def inPosition (rows : List FileReferenceRow) : List FileReferenceRow :=
  rows.foldr insertPosition []

/-- The file of a URI. -/
def getFile (uri : String) : Transaction (Option Record) := do
  let rows ← Table.files.rows
  match rows.find? (fun r => r.filePath == uri) with
  | none => return none
  | some row =>
    let references ← Table.fileReferences.rows
    let found := inPosition (references.filter (fun r => r.fileId == row.id))
    let references ← liftExcept (found.mapM referenceOf)
    return some (.file { path := uri, lastIndexed := row.updatedAt, references := references })

/-- The record of a key. -/
protected def get (key : RecordKey) : Transaction (Option Record) :=
  match key.recordType with
  | .klass => getClass key.identifier
  | .function => do
    let found ← getLocated Table.functions key.identifier
    return found.map (fun location => .function ⟨key.identifier, location⟩)
  | .constant => do
    let found ← getLocated Table.constants key.identifier
    return found.map (fun location => .constant ⟨key.identifier, location⟩)
  | .member => getMember key.identifier
  | .file => getFile (Uri.normalize key.identifier)

/-! ## Writing -/

/-- The columns of a location: start, end and file. -/
def locationColumns (location : Option SymbolIndex.Location) : Cell × Cell × Option String :=
  match location with
  | some l => (.ofUInt32 l.start, .ofUInt32 l.stop, some l.uri)
  | none => (.null, .null, none)

/-- Write a class. A class without a type is not written. -/
def writeClass (record : ClassRecord) : Transaction Unit := do
  match record.classType with
  | none => return ()
  | some classType =>
    let (start, stop, filePath) := locationColumns record.location
    Table.classes.delete (fun r => r.fqn == record.fqn && r.classType != classType.name)
    Table.classes.modify fun rows =>
      upsert (fun r => r.fqn == record.fqn && r.classType == classType.name)
        (fun r => { r with
          start := start, stop := stop, filePath := filePath, flags := .ofUInt32 record.flags })
        ⟨nextId (rows.map (·.id)), classType.name, record.fqn, start, stop, filePath,
          .ofUInt32 record.flags⟩
        rows

/-- Write a function or a constant. -/
def writeLocated (table : Table LocatedRow) (fqn : String)
    (location : Option SymbolIndex.Location) : Transaction Unit :=
  let (start, stop, filePath) := locationColumns location
  table.modify fun rows =>
    upsert (fun r => r.fqn == fqn)
      (fun r => { r with start := start, stop := stop, filePath := filePath })
      ⟨nextId (rows.map (·.id)), fqn, start, stop, filePath⟩
      rows

/-- Write a member and the files that use it. -/
def writeMember (record : MemberRecord) : Transaction Unit := do
  Table.members.modify fun rows =>
    upsert (isMember record.memberType record.memberName)
      (fun r => { r with containerType := record.containerType })
      ⟨nextId (rows.map (·.id)), record.memberType.name, record.memberName, record.containerType⟩
      rows
  let rows ← Table.members.rows
  match rows.find? (isMember record.memberType record.memberName) with
  | none => throw .statement
  | some row =>
    Table.memberReferences.delete (fun r => r.memberId == row.id)
    Table.memberReferences.modify
      (· ++ record.references.toList.map (fun uri => ⟨row.id, uri⟩))

/-- The rows of the references of a file, from a position on. -/
def referenceRows (fileId : Nat) (position : Nat) : List RecordReference → List FileReferenceRow
  | [] => []
  | r :: rest =>
    ⟨fileId, position, r.recordType.name, r.identifier, r.start, r.stop, r.containerType,
      r.flags⟩ :: referenceRows fileId (position + 1) rest

/-- Write a file and its references. -/
def writeFile (record : FileRecord) : Transaction Unit := do
  Table.files.modify fun rows =>
    upsert (fun r => r.filePath == record.path)
      (fun r => { r with updatedAt := record.lastIndexed })
      ⟨nextId (rows.map (·.id)), record.path, record.lastIndexed⟩
      rows
  let rows ← Table.files.rows
  match rows.find? (fun r => r.filePath == record.path) with
  | none => throw .statement
  | some row =>
    Table.fileReferences.delete (fun r => r.fileId == row.id)
    Table.fileReferences.modify (· ++ referenceRows row.id 0 record.references)

/-- Write a record. -/
def write : Record → Transaction Unit
  | .klass r => writeClass r
  | .function r => writeLocated Table.functions r.fqn r.location
  | .constant r => writeLocated Table.constants r.fqn r.location
  | .member r => writeMember r
  | .file r => writeFile r

/-- Write several records. -/
def writeAll : List Record → Transaction Unit
  | [] => return ()
  | record :: rest => do
    write record
    writeAll rest

/-! ## Removing -/

/-- Remove the member of an identifier. -/
def removeMember (identifier : String) : Transaction Unit := do
  match MemberRecord.ofIdentifier identifier with
  | .error _ => return ()
  | .ok member =>
    let isIt := isMember member.memberType member.memberName
    let ids := ((← Table.members.rows).filter isIt).map (·.id)
    Table.memberReferences.delete (fun r => ids.contains r.memberId)
    Table.members.delete isIt

/-- Remove the file of a URI. -/
def removeFile (uri : String) : Transaction Unit := do
  let ids := ((← Table.files.rows).filter (fun r => r.filePath == uri)).map (·.id)
  Table.fileReferences.delete (fun r => ids.contains r.fileId)
  Table.files.delete (fun r => r.filePath == uri)

/-- Remove the record of a key. -/
def remove (key : RecordKey) : Transaction Unit :=
  match key.recordType with
  | .klass => Table.classes.delete (fun r => r.fqn == key.identifier)
  | .function => Table.functions.delete (fun r => r.fqn == key.identifier)
  | .constant => Table.constants.delete (fun r => r.fqn == key.identifier)
  | .member => removeMember key.identifier
  | .file => removeFile (Uri.normalize key.identifier)

/-! ## Sweeping -/

/-- The keys of rows and the files they hang on, for the rows that have a file. -/
def keyed (kind : RecordType) (rows : List (String × Option String)) :
    List (RecordKey × String) :=
  rows.filterMap (fun r => r.2.map (fun path => (⟨kind, r.1⟩, path)))

/-- Every record that hangs on a URI, with that URI, each pair once. -/
def sweepCandidates : Transaction (List (RecordKey × String)) := do
  let files ← Table.files.rows
  let classes ← Table.classes.rows
  let functions ← Table.functions.rows
  let constants ← Table.constants.rows
  let found : List (RecordKey × String) :=
    keyed .file (files.map (fun r => (r.filePath, some r.filePath))) ++
    keyed .klass (classes.map (fun r => (r.fqn, r.filePath))) ++
    keyed .function (functions.map (fun r => (r.fqn, r.filePath))) ++
    keyed .constant (constants.map (fun r => (r.fqn, r.filePath)))
  return found.eraseDups

/-- Remove the records of some keys; the answer is what was there. -/
def removeAll : List RecordKey → Transaction (List Record)
  | [] => return []
  | key :: rest => do
    let found ← Records.get key
    remove key
    return found.toList ++ (← removeAll rest)

end SymbolIndex.Records
