import SymbolIndex.Index.Indexer
import SymbolIndex.Proofs.Dirty.Log
import SymbolIndex.Proofs.Search.Index
import SymbolIndex.Proofs.Store.Opening

/-!
# Proofs.Index.Parts — the parts of an index do not meet

What an index keeps lies in four parts: the records, the search index, the dirty log and the lock. Each has
names of its own under the root (`Part.Owns`, `Owns.unique`) and tables of its own in the database
(`Part.tables`). An operation on a part touches that part alone (`World.Touch`), so what another part
stands for it goes on standing for (`World.Touch.same`, and `congr` for each kind of part).

What lies under none of these names is around the index; no operation changes it (`World.Around`), and only
the clock itself lets time pass (`World.Still`).
-/

namespace SymbolIndex

open SymbolIndex.Text (encode)
open Disk (Hosts Fit)

set_option autoImplicit false

/-- The name of the lock, in bytes. -/
def Indexer.lockPart : Name := encode Indexer.lockName

/-- The parts of an index. -/
inductive Part where
  | records
  | search
  | marks
  | lock
  deriving DecidableEq

variable {root : Path} {base : Address} {p q : Part} {w w' w'' : World}

namespace Part

/-- The names under which a part keeps its files. -/
def names : Part → List Name
  | .records => [FileStore.recordsPart]
  | .search => [FileIndex.filePart, FileIndex.draftPart]
  | .marks => [FileLog.logPart, FileLog.draftPart, FileLog.drainingPart]
  | .lock => [Indexer.lockPart]

/-- A part keeps its files at an address. -/
def Owns (base : Address) (p : Part) (a : Address) : Prop :=
  ∃ name ∈ p.names, Disk.isUnder a (name :: base) = true

theorem names_disjoint : ∀ name ∈ p.names, name ∈ q.names → p = q := by
  cases p <;> cases q <;> decide +kernel

/-- No address belongs to two parts. -/
theorem Owns.unique {a : Address} (one : p.Owns base a) (two : q.Owns base a) : p = q := by
  obtain ⟨name, mine, under⟩ := one
  obtain ⟨name', yours, under'⟩ := two
  obtain ⟨front, rfl⟩ := Disk.isUnder_iff.1 under
  obtain ⟨front', same⟩ := Disk.isUnder_iff.1 under'
  obtain ⟨-, same⟩ := List.append_inj' same rfl
  obtain ⟨rfl, -⟩ := List.cons.inj same
  exact names_disjoint name mine yours

theorem owns_of_name {name : Name} (mine : name ∈ p.names) : p.Owns base (name :: base) :=
  ⟨name, mine, Disk.isUnder_self _⟩

/-- What a part owns lies under the root of the index. -/
theorem Owns.below {a : Address} (owns : p.Owns base a) : Disk.Below base a := by
  obtain ⟨name, -, under⟩ := owns
  obtain ⟨names, rfl⟩ := Disk.isUnder_iff.1 under
  exact ⟨names ++ [name], by simp, by simp⟩

theorem owns_records {a : Address} :
    Part.records.Owns base a ↔ Disk.isUnder a (FileStore.recordsPart :: base) = true := by
  simp [Owns, names]

/-- The tables of a part, without all others. -/
def tables (p : Part) (db : Database) : Database :=
  match p with
  | .records => { db with search := none, lastSearchId := 0, dirty := none, lastDirtyId := 0 }
  | .search => { search := db.search, lastSearchId := db.lastSearchId }
  | .marks => { dirty := db.dirty, lastDirtyId := db.lastDirtyId }
  | .lock => {}

end Part

namespace World

/-- Two worlds hold the same in a part. -/
structure Same (base : Address) (p : Part) (w w' : World) : Prop where
  disk : ∀ a, p.Owns base a → w'.disk.node? a = w.disk.node? a
  tables : p.tables w'.database = p.tables w.database

theorem Same.refl (base : Address) (p : Part) (w : World) : Same base p w w := ⟨fun _ _ => rfl, rfl⟩

theorem Same.trans (first : Same base p w w') (second : Same base p w' w'') : Same base p w w'' :=
  ⟨fun a own => (second.disk a own).trans (first.disk a own), second.tables.trans first.tables⟩

/-- A world came from another by an operation on a part. -/
structure Touch (root : Path) (base : Address) (p : Part) (w w' : World) : Prop where
  disk : ∀ a, ¬ p.Owns base a → w'.disk.node? a = w.disk.node? a
  tables : ∀ q, q ≠ p → q.tables w'.database = q.tables w.database
  clock : w'.clock = w.clock
  hosts : w.disk.Hosts root base → w'.disk.Hosts root base

namespace Touch

theorem refl (root : Path) (base : Address) (p : Part) (w : World) : Touch root base p w w :=
  ⟨fun _ _ => rfl, fun _ _ => rfl, rfl, id⟩

theorem trans (first : Touch root base p w w') (second : Touch root base p w' w'') :
    Touch root base p w w'' where
  disk a other := (second.disk a other).trans (first.disk a other)
  tables q other := (second.tables q other).trans (first.tables q other)
  clock := second.clock.trans first.clock
  hosts there := second.hosts (first.hosts there)

/-- An operation on a part leaves the others as they are. -/
theorem same (touch : Touch root base p w w') (other : q ≠ p) : Same base q w w' :=
  ⟨fun a own => touch.disk a fun own' => other (own.unique own'), touch.tables q other⟩

theorem of_disk {d : Disk} (hosts : d.Hosts root base)
    (others : ∀ a, ¬ p.Owns base a → d.node? a = w.disk.node? a) :
    Touch root base p w { w with disk := d } :=
  ⟨others, fun _ _ => rfl, rfl, fun _ => hosts⟩

theorem of_aside {d : Disk} (hosts : d.Hosts root base) (aside : FileStore.Aside base w.disk d) :
    Touch root base .records w { w with disk := d } :=
  of_disk hosts fun a other => aside a (by simpa [Part.owns_records] using other)

theorem of_beyondRecords {db : Database} (same : db.beyondRecords = w.database.beyondRecords) :
    Touch root base .records w { w with database := db } := by
  simp only [Database.beyondRecords, Prod.mk.injEq] at same
  obtain ⟨search, lastSearchId, dirty, lastDirtyId⟩ := same
  refine ⟨fun _ _ => rfl, fun q other => ?_, rfl, id⟩
  cases q with
  | records => exact absurd rfl other
  | search => simp only [Part.tables, search, lastSearchId]
  | marks => simp only [Part.tables, dirty, lastDirtyId]
  | lock => rfl

theorem of_search {backend : Backend} {c : Catalog} {index : SearchIndex}
    (apart : SearchIndex.Apart base w backend w')
    (stands : SearchIndex.Stands root base c w' backend index) : Touch root base .search w w' := by
  cases apart with
  | file apart =>
      cases stands with
      | file stands =>
          refine of_disk stands.writable.hosts fun a other => apart a ?_ ?_
          · rintro rfl
            exact other (Part.owns_of_name (by simp [Part.names]))
          · rintro rfl
            exact other (Part.owns_of_name (by simp [Part.names]))
  | @table db apart =>
      refine ⟨fun _ _ => rfl, fun q other => ?_, rfl, id⟩
      show q.tables db = q.tables w.database
      rw [apart]
      cases q with
      | search => exact absurd rfl other
      | records | marks | lock => rfl

theorem of_marks {backend : Backend} {marks : List String} {log : DirtyLog}
    (apart : DirtyLog.Apart base w backend w')
    (stands : DirtyLog.Stands root base marks w' backend log) : Touch root base .marks w w' := by
  cases apart with
  | file apart =>
      cases stands with
      | file stands =>
          refine of_disk stands.logged.hosts fun a other => apart a ?_ ?_ ?_
          all_goals
            rintro rfl
            exact other (Part.owns_of_name (by simp [Part.names]))
  | @table db apart =>
      refine ⟨fun _ _ => rfl, fun q other => ?_, rfl, id⟩
      show q.tables db = q.tables w.database
      rw [apart]
      cases q with
      | marks => exact absurd rfl other
      | records | search | lock => rfl

end Touch

/-- A world came from another by operations on an index: what lies around the index is as it was. -/
structure Around (root : Path) (base : Address) (w w' : World) : Prop where
  disk : ∀ a, (∀ p : Part, ¬ p.Owns base a) → w'.disk.node? a = w.disk.node? a
  hosts : w.disk.Hosts root base → w'.disk.Hosts root base

namespace Around

theorem refl (root : Path) (base : Address) (w : World) : Around root base w w := ⟨fun _ _ => rfl, id⟩

theorem trans (first : Around root base w w') (second : Around root base w' w'') :
    Around root base w w'' :=
  ⟨fun a free => (second.disk a free).trans (first.disk a free),
    fun hosts => second.hosts (first.hosts hosts)⟩

end Around

/-- Around the index nothing has changed, and no time has passed. -/
structure Still (root : Path) (base : Address) (w w' : World) : Prop extends Around root base w w' where
  clock : w'.clock = w.clock

namespace Still

theorem refl (root : Path) (base : Address) (w : World) : Still root base w w := ⟨.refl root base w, rfl⟩

theorem trans (first : Still root base w w') (second : Still root base w' w'') :
    Still root base w w'' :=
  ⟨first.toAround.trans second.toAround, second.clock.trans first.clock⟩

end Still

theorem Touch.still (touch : Touch root base p w w') : Still root base w w' :=
  ⟨⟨fun a free => touch.disk a (free p), touch.hosts⟩, touch.clock⟩

end World

/-! ## What a part stands for -/

open World (Same)

theorem FileStore.Shelved.same {S : String → Prop} {l : Ledger} (shelved : Shelved S root base w.disk l)
    (same : Same base .records w w') (hosts : w'.disk.Hosts root base) :
    Shelved S root base w'.disk l :=
  shelved.congr hosts fun a under => same.disk a (Part.owns_records.2 under)

theorem TableStore.Carries.same {l : Ledger} (carries : Carries w.database l)
    (same : Same base .records w w') : Carries w'.database l := by
  have tables := same.tables
  simp only [Part.tables, Database.mk.injEq] at tables
  obtain ⟨classes, functions, constants, members, memberReferences, files, fileReferences,
    properties, -⟩ := tables
  exact {
    classes := classes ▸ carries.classes
    functions := functions ▸ carries.functions
    constants := constants ▸ carries.constants
    members := members ▸ memberReferences ▸ carries.members
    files := files ▸ fileReferences ▸ carries.files
    built := properties ▸ carries.built
    keyed := carries.keyed }

theorem SearchIndex.Stands.same {backend : Backend} {c : Catalog} {index : SearchIndex}
    (stands : Stands root base c w backend index) (same : Same base .search w w')
    (hosts : w'.disk.Hosts root base) : Stands root base c w' backend index := by
  cases stands with
  | file stands =>
      refine .file (stands.congr ⟨hosts, ?_, ?_⟩)
      · rw [same.disk _ (Part.owns_of_name (by simp [Part.names]))]
        exact stands.writable.file
      · rw [same.disk _ (Part.owns_of_name (by simp [Part.names]))]
        exact stands.writable.draft
  | table stands =>
      obtain ⟨c₀, ⟨rows, listed, shown⟩, rfl⟩ := stands
      have tables := same.tables
      simp only [Part.tables, Database.mk.injEq] at tables
      obtain ⟨-, -, -, -, -, -, -, -, search, lastSearchId, -⟩ := tables
      exact .table ⟨c₀, ⟨rows, search.trans listed, lastSearchId ▸ shown⟩, rfl⟩

theorem DirtyLog.Stands.same {backend : Backend} {marks : List String} {log : DirtyLog}
    (stands : Stands root base marks w backend log) (same : Same base .marks w w')
    (hosts : w'.disk.Hosts root base) : Stands root base marks w' backend log := by
  cases stands with
  | file stands =>
      have mine : ∀ name ∈ Part.marks.names, w'.disk.node? (name :: base) = w.disk.node? (name :: base) :=
        fun name mine => same.disk _ (Part.owns_of_name mine)
      exact .file ⟨stands.path, stands.logged.congr hosts (mine _ (by simp [Part.names]))
        (mine _ (by simp [Part.names])) (mine _ (by simp [Part.names])), stands.pending⟩
  | table stands =>
      obtain ⟨⟨rows, there, listed⟩, pending⟩ := stands
      have tables := same.tables
      simp only [Part.tables, Database.mk.injEq] at tables
      obtain ⟨-, -, -, -, -, -, -, -, -, -, dirty, -⟩ := tables
      exact .table ⟨⟨rows, dirty.trans there, listed⟩, pending⟩

end SymbolIndex
