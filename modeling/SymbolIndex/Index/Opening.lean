import SymbolIndex.Index.Pass

/-!
# Index.Opening — from settings to an indexer

The settings of an index determine the indexer, and opening an index creates what the settings name
as far as it is missing. Settings that do not fit together touch nothing; a pattern that cannot be
read is noticed last.
-/

namespace SymbolIndex.Indexer

/-- The number of files that are read together, by how much a machine does at the same time. -/
def readWidthFor (parallelism : Nat) : Nat := max 2 (min parallelism 8)

/-- The indexer of some settings, on a machine of some parallelism. -/
def ofConfig (c : IndexConfig) (extract : Extractor) (parallelism : Nat := 8) : Except IndexError Indexer :=
  (Source.ofConfig c).map fun sources =>
    { root := c.indexRoot
      store := .ofBackend c.backend c.indexRoot
      sources := sources
      extract := extract
      readWidth := readWidthFor parallelism }

/-- Open the index of some settings. -/
def «open» (c : IndexConfig) : ExceptT IndexError Script IndexState := do
  if let some e := c.fault? then throw (.config e)
  match ← ExceptT.lift (Script.ask (.createDirectories c.indexRoot)) with
  | .error e => throw (.io e)
  | .ok () =>
    (RecordStore.open c.backend c.indexRoot).adapt .store
    let search ← (SearchIndex.open c.backend c.indexRoot c.searchBatchSize).adapt .search
    let dirty ← (DirtyLog.open c.backend c.indexRoot).adapt .ofDirty
    match Source.ofConfig c with
    | .error e => throw e
    | .ok _ =>
      return ⟨(Buffer.ofBatchSize c.storeBatchSize).setAutoFlush false, search.setAutoFlush false,
        dirty⟩

end SymbolIndex.Indexer
