import SymbolIndex.Proofs.Search.FileIndex
import SymbolIndex.Proofs.Search.TableIndex
import SymbolIndex.Search.Index

/-!
# Proofs.Search.Index — a search index of either kind stands for a catalog

Each operation on an index that stands for a catalog succeeds, is the same operation on the catalog
(`SearchIndex.Stands.write`, `Stands.remove`, `Stands.flush`, `Stands.reset`) and changes the world in
the place of the index alone (`SearchIndex.Apart`). A search answers exactly the entries that the
criteria accepts, in the order of its kind (`SearchIndex.Exact`), unless the index is in a table and the
criteria is beyond the limits of its engine (`SearchIndex.Answers`, `Stands.search`).
-/

namespace SymbolIndex

open Action (outcome)

set_option autoImplicit false

/-- Whether an index of a kind takes a criteria: one in a file takes any, one in a table those within the limits
of its engine. -/
def Backend.takes (backend : Backend) (criteria : Criteria) : Bool :=
  match backend with
  | .file => true
  | .sqlite => criteria.fits

/-- An index of either kind takes the criteria that accepts everything. -/
theorem Backend.takes_everything (backend : Backend) : backend.takes (.and []) = true := by
  cases backend <;> decide +kernel

namespace SearchIndex

variable {root : Path} {base : Address} {backend : Backend} {c : Catalog} {index : SearchIndex}
  {w : World}

theorem outcome_onEither_file {α : Type} (f : Action FileIndex SearchError α)
    (t : Action TableIndex SearchError α) (i : FileIndex) (w : World) :
    outcome (onEither f t) (.file i) w =
      ((outcome f i w).1, .file (outcome f i w).2.1, (outcome f i w).2.2) := by
  have run := Script.run_bind (f i) (fun r => .done (r.1, SearchIndex.file r.2)) w
  unfold outcome
  rw [show onEither f t (.file i) = (f i >>= fun r => .done (r.1, SearchIndex.file r.2)) from rfl, run]
  rfl

theorem outcome_onEither_table {α : Type} (f : Action FileIndex SearchError α)
    (t : Action TableIndex SearchError α) (i : TableIndex) (w : World) :
    outcome (onEither f t) (.table i) w =
      ((outcome t i w).1, .table (outcome t i w).2.1, (outcome t i w).2.2) := by
  have run := Script.run_bind (t i) (fun r => .done (r.1, SearchIndex.table r.2)) w
  unfold outcome
  rw [show onEither f t (.table i) = (t i >>= fun r => .done (r.1, SearchIndex.table r.2)) from rfl, run]
  rfl

/-- An index of a kind stands for a catalog. -/
inductive Stands (root : Path) (base : Address) (c : Catalog) (w : World) : Backend → SearchIndex → Prop where
  | file {i : FileIndex} (stands : FileIndex.Stands root base c i w) : Stands root base c w .file (.file i)
  | table {i : TableIndex} (stands : TableIndex.Stands c i w) : Stands root base c w .sqlite (.table i)

/-- Two worlds agree apart from what an index of a kind keeps in them. -/
inductive Apart (base : Address) (w : World) : Backend → World → Prop where
  | file {d : Disk} (apart : FileIndex.Apart base w.disk d) : Apart base w .file { w with disk := d }
  | table {db : Database} (apart : TableIndex.Apart w.database db) :
      Apart base w .sqlite { w with database := db }

/-- Answers that hold each entry of a catalog that a criteria accepts once, and nothing else. An index
in a file answers in the order of the keys, one in a table in the order of the catalog. -/
def Exact (backend : Backend) (c : Catalog) (criteria : Criteria) (hits : List (Hit SearchEntry)) : Prop :=
  ∃ found : List SearchEntry, hits = found.map .ok ∧ found.Nodup ∧
    (∀ e, e ∈ found ↔ e ∈ c.entries ∧ criteria.accepts e = true) ∧
    match backend with
    | .file => found.Pairwise (fun e f => e.key < f.key)
    | .sqlite => found = c.entries.filter criteria.accepts

/-- What an index answers to a search of a catalog. A criteria that it takes is answered exactly. An engine that does
not take the statement answers with an error, and one that fails later with the beginning of the exact answers and an
error. -/
structure Answers (backend : Backend) (c : Catalog) (criteria : Criteria) (hits : List (Hit SearchEntry)) : Prop where
  exact_ : backend.takes criteria = true → Exact backend c criteria hits
  refused : backend = .sqlite → criteria.isTaken = false → hits = [.error (.database .statement)]
  begins : ∃ found, Exact backend c criteria (found.map .ok) ∧ Scan.AllOrFailed found hits

namespace Stands

theorem flush (stands : Stands root base c w backend index) :
    ∃ index' w', outcome SearchIndex.flush index w = (.ok (), index', w') ∧
      Stands root base c w' backend index' ∧ Apart base w backend w' := by
  cases stands with
  | file stands =>
      obtain ⟨d, done, stands', apart⟩ := stands.flush
      refine ⟨_, _, ?_, .file stands', .file apart⟩
      rw [SearchIndex.flush, outcome_onEither_file, done]
  | @table i stands =>
      obtain ⟨db, done, holds, apart⟩ := stands.flush
      refine ⟨_, _, ?_, .table (TableIndex.Stands.of_holds holds i), .table apart⟩
      rw [SearchIndex.flush, outcome_onEither_table, done]

theorem write (stands : Stands root base c w backend index) (r : Record) :
    ∃ index' w', outcome (SearchIndex.write r) index w = (.ok (), index', w') ∧
      Stands root base (c.write r) w' backend index' ∧ Apart base w backend w' := by
  cases stands with
  | file stands =>
      obtain ⟨i', d, done, stands', apart⟩ := stands.write r
      refine ⟨_, _, ?_, .file stands', .file apart⟩
      rw [SearchIndex.write, outcome_onEither_file, done]
  | table stands =>
      obtain ⟨i', db, done, stands', apart⟩ := stands.write r
      refine ⟨_, _, ?_, .table stands', .table apart⟩
      rw [SearchIndex.write, outcome_onEither_table, done]

theorem remove (stands : Stands root base c w backend index) (r : Record) :
    ∃ index' w', outcome (SearchIndex.remove r) index w = (.ok (), index', w') ∧
      Stands root base (c.remove r) w' backend index' ∧ Apart base w backend w' := by
  cases stands with
  | file stands =>
      obtain ⟨done, stands'⟩ := stands.remove r
      refine ⟨_, { w with disk := w.disk }, ?_, .file stands', .file (.refl base w.disk)⟩
      rw [SearchIndex.remove, outcome_onEither_file, done]
  | table stands =>
      obtain ⟨db, done, stands', apart⟩ := stands.remove r
      refine ⟨_, _, ?_, .table stands', .table apart⟩
      rw [SearchIndex.remove, outcome_onEither_table, done]

theorem reset (stands : Stands root base c w backend index) :
    ∃ index' w', outcome SearchIndex.reset index w = (.ok (), index', w') ∧
      Stands root base c.reset w' backend index' ∧ Apart base w backend w' := by
  cases stands with
  | file stands =>
      obtain ⟨i', d, done, stands', -, apart⟩ := stands.reset
      refine ⟨_, _, ?_, .file stands', .file apart⟩
      rw [SearchIndex.reset, outcome_onEither_file, done]
  | table stands =>
      obtain ⟨db, done, stands', apart⟩ := stands.reset
      refine ⟨_, _, ?_, .table stands', .table apart⟩
      rw [SearchIndex.reset, outcome_onEither_table, done]

theorem setAutoFlush (stands : Stands root base c w backend index) (enabled : Bool) :
    Stands root base c w backend (index.setAutoFlush enabled) := by
  cases stands with
  | file stands => exact .file (stands.setAutoFlush enabled)
  | table stands => exact .table (stands.setAutoFlush enabled)

/-- A search succeeds, and its answers are exact if the index takes the criteria. -/
theorem search (stands : Stands root base c w backend index) (readable : c.Readable)
    {criteria : Criteria} (clean : criteria.Clean) :
    ∃ hits index' w', outcome (SearchIndex.search criteria) index w = (.ok hits, index', w') ∧
      Answers backend c criteria hits ∧ Stands root base c w' backend index' ∧
      Apart base w backend w' := by
  have distinct : (c.entries.filter criteria.accepts).Nodup := c.distinct.of_map.filter _
  cases stands with
  | file stands =>
      obtain ⟨found, d, done, same, ascending, stands', apart⟩ := stands.search criteria
      have exact_ : Exact .file c criteria (found.map .ok) :=
        ⟨found, rfl, same.nodup_iff.2 distinct, fun e => by rw [same.mem_iff, List.mem_filter], ascending⟩
      refine ⟨_, _, _, ?_, ⟨fun _ => exact_, nofun, found, exact_, .inl rfl⟩, .file stands', .file apart⟩
      rw [SearchIndex.search, outcome_onEither_file, done]
  | @table i stands =>
      obtain ⟨hits, db, done, told, holds, apart⟩ := stands.search readable clean
      have exact_ : Exact .sqlite c criteria ((c.entries.filter criteria.accepts).map .ok) :=
        ⟨_, rfl, distinct, fun e => List.mem_filter, rfl⟩
      refine ⟨hits, _, _, ?_, ⟨fun fits => told.within fits ▸ exact_, fun _ => told.refused, _, exact_, told.begins⟩,
        .table (TableIndex.Stands.of_holds holds i), .table apart⟩
      rw [SearchIndex.search, outcome_onEither_table, done]

end Stands

end SearchIndex

end SymbolIndex
