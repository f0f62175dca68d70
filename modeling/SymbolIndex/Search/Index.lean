import SymbolIndex.Search.FileIndex
import SymbolIndex.Search.TableIndex
import SymbolIndex.Store.Backend

/-!
# Search.Index — the search index of either kind

The two kinds answer the same searches with the same entries; they differ in the order of the
answers and in when a change becomes durable.
-/

namespace SymbolIndex

/-- A search index. -/
inductive SearchIndex where
  | file (index : FileIndex)
  | table (index : TableIndex)

/-- A computation that changes a search index. -/
abbrev Searched := Action SearchIndex SearchError

namespace SearchIndex

/-- The number of writes that make a batch, unless another is asked for. -/
def defaultBatchSize : Nat := 1000

/-- Open the search index under an index root. -/
def «open» (backend : Backend) (root : Path) (batchSize : Nat) :
    ExceptT SearchError Script SearchIndex :=
  match backend with
  | .file => do return .file (← FileIndex.open root batchSize)
  | .sqlite => do return .table (← TableIndex.open root (databasePath root) batchSize)

/-- Do what the kind of index asks for. -/
def onEither {α : Type} (onFile : Action FileIndex SearchError α)
    (onTable : Action TableIndex SearchError α) : Searched α := fun index =>
  match index with
  | .file i => (onFile i).bind (fun r => .done (r.1, .file r.2))
  | .table i => (onTable i).bind (fun r => .done (r.1, .table r.2))

/-- Turn the flush of a full queue on or off. -/
def setAutoFlush (index : SearchIndex) (enabled : Bool) : SearchIndex :=
  match index with
  | .file i => .file (i.setAutoFlush enabled)
  | .table i => .table (i.setAutoFlush enabled)

/-- Whether a batch of changes waits. -/
def isFull : SearchIndex → Bool
  | .file i => i.isFull
  | .table i => i.isFull

/-- Hand over what waits. -/
def flush : Searched Unit := onEither FileIndex.flush TableIndex.flush

/-- Write the entry of a record, if it has one. -/
def write (record : Record) : Searched Unit :=
  onEither (FileIndex.write record) (TableIndex.write record)

/-- Remove the entry of a record. -/
def remove (record : Record) : Searched Unit :=
  onEither (FileIndex.remove record) (TableIndex.remove record)

/-- Remove the entries of classes. -/
def reset : Searched Unit := onEither FileIndex.reset TableIndex.reset

/-- The entries that a criteria accepts. -/
def search (criteria : Criteria) : Searched (List (Hit SearchEntry)) :=
  onEither (FileIndex.search criteria) (TableIndex.search criteria)

end SearchIndex

end SymbolIndex
