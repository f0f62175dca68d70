import SymbolIndex.Database.Cell

/-!
# Database.Basic — tables, rows and transactions

A database is its tables. A table that was dropped is not there, and a statement on it fails. Rows
stand in the order of their ids, which is the order in which they were added: the id of a new row
is one more than the greatest id in the table or, where ids are never used again, one more than the
greatest id there ever was.

A transaction is a function on databases that may fail. A transaction that fails changes nothing,
because there is no database it could have changed.
-/

namespace SymbolIndex

/-- A row of the table of classes. A file may have declared a class twice, under two types. -/
structure ClassRow where
  id : Nat
  classType : String
  fqn : String
  start : Cell
  stop : Cell
  filePath : Option String
  flags : Cell
  deriving DecidableEq

/-- A row of the tables of functions and of constants. -/
structure LocatedRow where
  id : Nat
  fqn : String
  start : Cell
  stop : Cell
  filePath : Option String
  deriving DecidableEq

/-- A row of the table of members. -/
structure MemberRow where
  id : Nat
  memberType : String
  memberName : String
  containerType : Option String
  deriving DecidableEq

/-- A file that uses a member. -/
structure MemberReferenceRow where
  memberId : Nat
  filePath : String
  deriving DecidableEq

/-- A row of the table of files. -/
structure FileRow where
  id : Nat
  filePath : String
  updatedAt : Option Int64
  deriving DecidableEq

/-- A reference of a file, at its place in the list of references. -/
structure FileReferenceRow where
  fileId : Nat
  position : Nat
  recordType : String
  identifier : String
  start : UInt32
  stop : UInt32
  containerType : Option String
  flags : UInt32
  deriving DecidableEq

/-- A named number of the index as a whole. -/
structure PropertyRow where
  name : String
  value : Int64
  deriving DecidableEq

/-- A row of the search table. -/
structure SearchRow where
  id : Nat
  recordType : String
  identifier : String
  classType : String
  flags : Cell
  deriving DecidableEq

/-- A mark in the dirty log. -/
structure DirtyRow where
  id : Nat
  filePath : String
  deriving DecidableEq

/-- The tables of an index, and the greatest ids ever given out where they are not used again. -/
structure Database where
  classes : Option (List ClassRow) := none
  functions : Option (List LocatedRow) := none
  constants : Option (List LocatedRow) := none
  members : Option (List MemberRow) := none
  memberReferences : Option (List MemberReferenceRow) := none
  files : Option (List FileRow) := none
  fileReferences : Option (List FileReferenceRow) := none
  properties : Option (List PropertyRow) := none
  search : Option (List SearchRow) := none
  lastSearchId : Nat := 0
  dirty : Option (List DirtyRow) := none
  lastDirtyId : Nat := 0

/-- A change of a database with a result, or a failure. -/
abbrev Transaction := StateT Database (Except DatabaseError)

/-- One of the tables: how it is read from a database, and how it is put back. -/
structure Table (ρ : Type) where
  rows? : Database → Option (List ρ)
  replace : Database → Option (List ρ) → Database

namespace Table

variable {ρ : Type}

/-- The table of classes. -/
def classes : Table ClassRow := ⟨(·.classes), fun db rows => { db with classes := rows }⟩

/-- The table of functions. -/
def functions : Table LocatedRow := ⟨(·.functions), fun db rows => { db with functions := rows }⟩

/-- The table of constants. -/
def constants : Table LocatedRow := ⟨(·.constants), fun db rows => { db with constants := rows }⟩

/-- The table of members. -/
def members : Table MemberRow := ⟨(·.members), fun db rows => { db with members := rows }⟩

/-- The table of the files that use a member. -/
def memberReferences : Table MemberReferenceRow :=
  ⟨(·.memberReferences), fun db rows => { db with memberReferences := rows }⟩

/-- The table of files. -/
def files : Table FileRow := ⟨(·.files), fun db rows => { db with files := rows }⟩

/-- The table of the references of files. -/
def fileReferences : Table FileReferenceRow :=
  ⟨(·.fileReferences), fun db rows => { db with fileReferences := rows }⟩

/-- The table of named numbers. -/
def properties : Table PropertyRow := ⟨(·.properties), fun db rows => { db with properties := rows }⟩

/-- The search table. Its ids start over when it is dropped. -/
def search : Table SearchRow :=
  ⟨(·.search), fun db rows =>
    { db with search := rows, lastSearchId := if rows.isNone then 0 else db.lastSearchId }⟩

/-- The table of marks. Its ids start over when it is dropped. -/
def dirty : Table DirtyRow :=
  ⟨(·.dirty), fun db rows =>
    { db with dirty := rows, lastDirtyId := if rows.isNone then 0 else db.lastDirtyId }⟩

/-- The rows of a table that is there. -/
def rows (t : Table ρ) : Transaction (List ρ) := fun db =>
  match t.rows? db with
  | some rows => .ok (rows, db)
  | none => .error .statement

/-- Change the rows of a table that is there. -/
def modify (t : Table ρ) (f : List ρ → List ρ) : Transaction Unit := fun db =>
  match t.rows? db with
  | some rows => .ok ((), t.replace db (some (f rows)))
  | none => .error .statement

/-- Remove the rows that satisfy `p`. -/
def delete (t : Table ρ) (p : ρ → Bool) : Transaction Unit := t.modify (·.filter (fun r => !p r))

/-- Create a table unless it is there. -/
def ensure (t : Table ρ) : Transaction Unit := fun db =>
  match t.rows? db with
  | some _ => .ok ((), db)
  | none => .ok ((), t.replace db (some []))

/-- Drop a table if it is there. -/
def drop (t : Table ρ) : Transaction Unit := fun db => .ok ((), t.replace db none)

end Table

/-- One more than the greatest of some ids. -/
def nextId (ids : List Nat) : Nat := ids.foldl max 0 + 1

/-- Change the first row that satisfies `p`, or add a new row at the end. -/
def upsert {ρ : Type} (p : ρ → Bool) (change : ρ → ρ) (fresh : ρ) : List ρ → List ρ
  | [] => [fresh]
  | r :: rest => if p r then change r :: rest else r :: upsert p change fresh rest

end SymbolIndex
