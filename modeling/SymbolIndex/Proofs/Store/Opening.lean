import SymbolIndex.Proofs.Store.Files
import SymbolIndex.Proofs.Store.Tables

/-!
# Proofs.Store.Opening — a new store keeps the empty ledger

In an empty directory (`World.Fresh`) either kind of store is opened without an error, and what is
opened keeps the empty ledger (`RecordStore.open_fresh`). `RecordStore.Stands` names the relation
between ledgers and worlds for either kind.
-/

namespace SymbolIndex

open Script (outcome)
open SymbolIndex.Text (encode)
open Disk (Hosts Fit Below addressOf)
open FileStore (recordsPart ofRoot Shelved)

set_option autoImplicit false

/-- A directory with nothing in it, for a new index. -/
structure World.Fresh (w : World) (root : Path) (base : Address) : Prop where
  hosts : w.disk.Hosts root base
  bare : ∀ {a : Address}, Below base a → w.disk.node? a = none

/-- A directory `/i` with nothing in it. -/
def newIndex : World := ⟨Disk.single [105], {}, 0⟩

theorem newIndex_fresh : newIndex.Fresh ⟨[47, 105]⟩ [[105]] where
  hosts := Disk.single_hosts (by decide)
  bare := Disk.single_bare

variable {S : String → Prop} {root : Path} {base : Address} {w : World}

namespace FileStore

theorem open_fresh (fresh : w.Fresh root base) :
    ∃ d, outcome (ofRoot root).open w = (.ok (), { w with disk := d }) ∧
      Shelved S root base d .empty ∧ Aside base w.disk d := by
  have bare : ∀ names, w.disk.node? (names ++ recordsPart :: base) = none := fun names =>
    fresh.bare ⟨names ++ [recordsPart], by simp, by simp⟩
  obtain ⟨d, created, hosts, changed, there⟩ :=
    fresh.hosts.createDirectories_below w.time fit_records fun a way =>
      .inl (onTheWay_records.1 way ▸ bare [])
  obtain ⟨m, home⟩ := there _ (onTheWay_records.2 rfl)
  refine ⟨d, ?_, .empty hosts home fun names some_ => ?_, fun a outside => ?_⟩
  · exact congrArg (fun r => (Except.mapError StoreError.io r.1, r.2))
      (Script.run_createDirectories created)
  · rcases changed (names ++ recordsPart :: base) with same | ⟨way, -⟩
    · rw [same, bare]
    · exact absurd (onTheWay_records.1 way) (by simpa using some_)
  · rcases changed a with same | ⟨way, -⟩
    · exact same
    · exact absurd (onTheWay_records.1 way) (outside_ne outside [])

end FileStore

/-- The name of the database, in bytes. -/
def databasePart : Name := encode databaseName

theorem fit_database : Fit [databasePart] where
  proper := by
    have proper : databasePart.Proper := by decide +kernel
    simpa using proper
  some_ := by simp
  short := by decide +kernel

/-- A database that is not there is created without tables. -/
theorem World.Fresh.connect (fresh : w.Fresh root base) :
    ∃ d, (Script.ask (.connect (databasePath root))).run w =
        (.ok (), { w with disk := d, database := {} }) ∧ d.Hosts root base ∧
      (∀ a, a ≠ databasePart :: base → d.node? a = w.disk.node? a) ∧
      ∃ id c m, d.node? (databasePart :: base) = some (.file id c m) := by
  have vacant : w.disk.node? (databasePart :: base) = none := fresh.bare (Disk.below_cons _ _)
  obtain ⟨m, parent⟩ := fresh.hosts.directory
  obtain ⟨id, c, time, d, opened, hosts, -, effect⟩ :=
    @Hosts.openFile_spec _ _ _ [] databasePart m fresh.hosts fit_database w.time false parent
      fun m' directory => by cases vacant.symm.trans directory
  obtain ⟨e, missing⟩ : ∃ e, w.disk.find true (databasePath root) = .error e :=
    fresh.hosts.find_none fit_database vacant
  have stat : w.disk.stat (databasePath root) = .error e := by rw [Disk.stat, missing]
  have opened' : w.disk.openFile w.time false (databasePath root) = .ok (id, d) := opened
  refine ⟨d, ?_, hosts, fun a other => ?_, id, c, time, (effect _).trans (if_pos rfl)⟩
  · rw [Script.run_ask, Call.perform, stat, opened']
  · exact (effect a).trans (if_neg other)

/-- A database that is there is joined as it is. -/
theorem connect_again {id : Nat} {c : Text.Bytes} {m : Int} (hosts : w.disk.Hosts root base)
    (file : w.disk.node? (databasePart :: base) = some (.file id c m)) :
    (Script.ask (.connect (databasePath root))).run w = (.ok (), w) := by
  obtain ⟨m', parent⟩ := hosts.directory
  have found : w.disk.find true (databasePath root) = .ok (databasePart :: base, .file id c m) :=
    @Hosts.find_some _ _ _ [databasePart] true hosts fit_database _ file
  have stat : w.disk.stat (databasePath root) = .ok ⟨databasePart :: base, .file, c.length, m⟩ := by
    rw [Disk.stat, found]
  obtain ⟨id', c', time, d, opened, -⟩ :=
    @Hosts.openFile_spec _ _ _ [] databasePart m' hosts fit_database w.time false parent
      fun m'' directory => by cases file.symm.trans directory
  have opened' : w.disk.openFile w.time false (databasePath root) = .ok (id', d) := opened
  rw [Script.run_ask, Call.perform, stat, opened']

namespace TableStore

theorem open_fresh (fresh : w.Fresh root base) :
    ∃ w', outcome (TableStore.open root (databasePath root)) w = (.ok (), w') ∧
      w'.database = emptied {} := by
  have created : outcome (Stored.disk (.createDirectories root)) w = (.ok (), w) :=
    congrArg (fun r => (Except.mapError StoreError.io r.1, r.2))
      (Script.run_createDirectories fresh.hosts.createDirectories_self)
  obtain ⟨d, connected, -⟩ := fresh.connect
  have joined : outcome (Stored.database (.connect (databasePath root))) w =
      (.ok (), { w with disk := d, database := {} }) :=
    congrArg (fun r => (Except.mapError StoreError.database r.1, r.2)) connected
  have ensured : ensureTables {} = .ok ((), emptied {}) := ensureTables_new rfl rfl rfl rfl rfl rfl rfl rfl
  refine ⟨{ w with disk := d, database := emptied {} }, ?_, rfl⟩
  rw [TableStore.open, Script.outcome_bind_ok created, Script.outcome_bind_ok joined,
    Stored.outcome_transact_ok ensured]

end TableStore

namespace RecordStore

/-- The worlds in which a store of a kind stands for a ledger. -/
def Stands (backend : Backend) (S : String → Prop) (root : Path) (base : Address) (l : Ledger)
    (w : World) : Prop :=
  match backend with
  | .file => Shelved S root base w.disk l
  | .sqlite => TableStore.Holds w.database l

theorem keeps (backend : Backend) (distinct : Sha256.DistinctOn S) (root : Path) (base : Address) :
    (ofBackend backend root).Keeps S (Stands backend S root base) :=
  match backend with
  | .file => FileStore.keeps distinct root base
  | .sqlite => TableStore.keeps S

theorem open_fresh (backend : Backend) (S : String → Prop) (fresh : w.Fresh root base) :
    ∃ w', outcome (RecordStore.open backend root) w = (.ok (), w') ∧
      Stands backend S root base .empty w' := by
  cases backend with
  | file =>
      obtain ⟨d, opened, shelved, -⟩ := FileStore.open_fresh fresh
      exact ⟨_, opened, shelved⟩
  | sqlite =>
      obtain ⟨w', opened, bare⟩ := TableStore.open_fresh fresh
      exact ⟨w', opened, bare ▸ TableStore.Carries.empty, .empty⟩

end RecordStore

end SymbolIndex
