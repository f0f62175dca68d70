import SymbolIndex.Search.Condition
import SymbolIndex.Store.Basic

/-!
# Search.Error — why a search fails

A search reads the index and, to answer whole records, the record store behind it.
-/

namespace SymbolIndex

/-- Why an operation of a search index fails. -/
inductive SearchError where
  | store (cause : StoreError)
  | io (cause : DiskError)
  | database (cause : DatabaseError)
  | unsupported (cause : UnsupportedText)
  deriving DecidableEq

/-- An answer of a search: an entry or a record, or an error in its place. -/
abbrev Hit (α : Type) := Except SearchError α

end SymbolIndex
