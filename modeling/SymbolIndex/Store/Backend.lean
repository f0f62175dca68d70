import SymbolIndex.Store.Buffer
import SymbolIndex.Store.Files
import SymbolIndex.Store.Tables

/-!
# Store.Backend — the choice of a store

An index lives under one directory, its root. Its records are either files in a directory of their
own or rows of the database that every part of the index shares.
-/

namespace SymbolIndex

/-- Where an index keeps what it knows. -/
inductive Backend where
  | file
  | sqlite
  deriving DecidableEq

namespace Backend

/-- Every backend. -/
def all : List Backend := [.file, .sqlite]

/-- The name of a backend. -/
def name : Backend → String
  | .file => "file"
  | .sqlite => "sqlite"

/-- The backend of a name. -/
def ofName? (s : String) : Option Backend := all.find? (fun b => b.name == s)

end Backend

/-- The name of the database. -/
def databaseName : String := "index.sqlite"

/-- The name of the directory of records. -/
def recordsName : String := "records"

/-- The database under an index root. -/
def databasePath (root : Path) : Path := root.child databaseName

namespace RecordStore

/-- The record store under an index root. -/
def ofBackend (backend : Backend) (root : Path) : RecordStore :=
  match backend with
  | .file => FileStore.toStore ⟨root.child recordsName⟩
  | .sqlite => TableStore.toStore

/-- Create what the record store under an index root needs, as far as it is missing. -/
def «open» (backend : Backend) (root : Path) : Stored Unit :=
  match backend with
  | .file => FileStore.open ⟨root.child recordsName⟩
  | .sqlite => TableStore.open root (databasePath root)

end RecordStore

end SymbolIndex
