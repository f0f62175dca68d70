import SymbolIndex.Index.Freshness
import SymbolIndex.Index.Indexer

/-!
# Index.Document — the records of one document

Applying a document writes the records that were extracted from it. A placeholder does not take the
place of a definition. The record of the document itself gets a new stamp, and the members it refers
to are brought in step with it: the document is added to the references of those it refers to now,
and taken from the references of those it no longer refers to. Symbols are written as they come, then
the members in the order of their identifiers, and the file last.
-/

namespace SymbolIndex

/-- The identifiers of the members that a file refers to. -/
def FileRecord.memberReferences (f : FileRecord) : SortedSet String :=
  .ofList ((f.references.filter (fun r => r.recordType == .member)).map (·.identifier))

/-- What was gathered from the records of a document: its own record, the members to be written by
identifier, and the number of records that were written. -/
structure Gathered where
  file : Option FileRecord := none
  members : SortedMap String MemberRecord := .empty
  written : Nat := 0

namespace Gathered

/-- One more member to be written. -/
def put (g : Gathered) (identifier : String) (m : MemberRecord) : Gathered :=
  { g with members := g.members.insert identifier m }

end Gathered

namespace Indexer

/-- The record of a file. -/
def file? (x : Indexer) (uri : String) : Indexed (Option FileRecord) := do
  match ← x.find? (.ofFile uri) with
  | some (.file file) => return some file
  | _ => return none

/-- The member of an identifier: the one to be written, or else the stored one. -/
def member? (x : Indexer) (g : Gathered) (identifier : String) : Indexed (Option MemberRecord) :=
  match g.members.get? identifier with
  | some m => return some m
  | none =>
    match RecordKey.parseMember identifier with
    | .error _ => return none
    | .ok (kind, name) => do
      match ← x.find? (.ofMember kind name) with
      | some (.member m) => return some m
      | _ => return none

/-- Whether a definition is stored under a key. -/
def isDefined (x : Indexer) (key : RecordKey) : Indexed Bool := do
  return (← x.find? key).any (fun stored => !stored.isPlaceholder)

/-- Write a record to both buffers. -/
def writeSymbol (x : Indexer) (g : Gathered) (record : Record) : Indexed Gathered := do
  onSearch (SearchIndex.write record)
  x.write record
  return { g with written := g.written + 1 }

/-- Write a record to both buffers, unless it is a placeholder of what is defined. -/
def offerSymbol (x : Indexer) (g : Gathered) (record : Record) : Indexed Gathered := do
  if record.isPlaceholder then
    if ← x.isDefined record.key then return g else x.writeSymbol g record
  else x.writeSymbol g record

/-- Take in one record of a document. -/
def gather (x : Indexer) (uri : String) (g : Gathered) : Record → Indexed Gathered
  | .member m => do
    match ← x.member? g m.identifier with
    | some known =>
      return g.put m.identifier { m with references := m.references.union known.references }
    | none => return g.put m.identifier m
  | .file file =>
    if file.path = uri then return { g with file := some file } else x.offerSymbol g (.file file)
  | record => x.offerSymbol g record

/-- Take a document from the references of a member. -/
def forgetReference (x : Indexer) (uri : String) (g : Gathered) (identifier : String) :
    Indexed Gathered := do
  match ← x.member? g identifier with
  | some m => return g.put identifier { m with references := m.references.erase uri }
  | none => return g

/-- Add a document to the references of a member. An identifier of no member is passed over. -/
def addReference (x : Indexer) (uri : String) (g : Gathered) (identifier : String) :
    Indexed Gathered := do
  match ← x.member? g identifier with
  | some m => return g.put identifier { m with references := m.references.insert uri }
  | none =>
    match MemberRecord.ofIdentifier identifier with
    | .ok m => return g.put identifier { m with references := m.references.insert uri }
    | .error _ => return g

/-- The record that a document gets: its own or an empty one, with a new stamp. -/
def stamped (uri : String) (own : Option FileRecord) (previous : Option FileRecord) (now : Int64) :
    FileRecord :=
  { own.getD (.ofPath uri) with
    lastIndexed := some (Freshness.nextStamp now (previous.bind (·.lastIndexed))) }

/-- The identifiers of the members that a document referred to and no longer refers to. -/
def droppedReferences (previous : Option FileRecord) (file : FileRecord) : List String :=
  match previous with
  | none => []
  | some previous =>
    previous.memberReferences.toList.filter (fun i => !file.memberReferences.contains i)

/-- Write the records of a document; the answer is how many were written. -/
def apply (x : Indexer) (uri : String) (records : List Record) : Indexed Nat := do
  let previous ← x.file? uri
  let g ← records.foldlM (x.gather uri) {}
  let now ← Action.ofPlain Freshness.nowMillis
  let file := stamped uri g.file previous now
  let g ← (droppedReferences previous file).foldlM (x.forgetReference uri) g
  let g ← file.memberReferences.toList.foldlM (x.addReference uri) g
  g.members.values.forM (fun m => x.write (.member m))
  x.write (.file file)
  return g.written + g.members.size + 1

end Indexer

end SymbolIndex
