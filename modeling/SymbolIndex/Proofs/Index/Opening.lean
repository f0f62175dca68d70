import SymbolIndex.Index.Opening
import SymbolIndex.Proofs.Index.Operations
import SymbolIndex.Proofs.Search.Persisted

/-!
# Proofs.Index.Opening — a new index holds nothing

In a directory with nothing in it an index of either kind is opened without an error, and what is opened
stands for empty holdings (`Site.Stands.open_fresh`). The three parts are opened one after the other: with
files, each finds that its own are missing; with a database, the first creates it and the others join.
-/

namespace SymbolIndex

open Script (outcome)
open Disk (Below)

set_option autoImplicit false

/-- Adapting an error changes nothing where there is none. -/
theorem Script.outcome_adapt_ok {α ε δ : Type} {s : ExceptT ε Script α} {f : ε → δ} {w w' : World} {a : α}
    (done : outcome s w = (.ok a, w')) : outcome (s.adapt f) w = (.ok a, w') := by
  have mapped : outcome (s.adapt f) w = ((outcome s w).1.mapError f, (outcome s w).2) :=
    Script.run_map _ _ _
  rw [mapped, done]
  rfl

variable {root : Path} {base : Address} {w : World} {used : String → Prop}

/-- What is left of an empty directory once the store of records is opened. -/
theorem World.Fresh.vacant {w' : World} (fresh : w.Fresh root base)
    (touch : World.Touch root base .records w w') {p : Part} (other : p ≠ .records) {name : Name}
    (mine : name ∈ p.names) : w'.disk.node? (name :: base) = none := by
  rw [(touch.same other).disk _ (Part.owns_of_name mine)]
  exact fresh.bare (Disk.below_cons name base)

theorem not_directory {d : Disk} {a : Address} (vacant : d.node? a = none) (m : Int) :
    d.node? a ≠ some (.directory m) := by
  rw [vacant]
  exact nofun

namespace Site

/-- The parts of an index as they are opened, one after the other. -/
structure Opened (site : Site) (batchSize : Nat) (w : World) (i : SearchIndex) (log : DirtyLog)
    (w' : World) : Prop where
  run : ∃ w₁ w₂, outcome (RecordStore.open site.backend site.root) w = (.ok (), w₁) ∧
    outcome (SearchIndex.open site.backend site.root batchSize) w₁ = (.ok i, w₂) ∧
    outcome (DirtyLog.open site.backend site.root) w₂ = (.ok log, w')
  records : site.Carries .empty w'
  search : SearchIndex.Stands site.root site.base .empty w' site.backend i
  marks : DirtyLog.Stands site.root site.base [] w' site.backend log
  hosts : w'.disk.Hosts site.root site.base
  lock : w'.disk.node? (Indexer.lockPart :: site.base) = none
  idle : i.Idle
  synced : i.Synced site.root w'.disk
  apart : ∀ a, ¬ Below site.base a → w'.disk.node? a = w.disk.node? a

/-- Files: the directory of the records is created, and nothing else. -/
theorem open_files (fresh : w.Fresh root base) (distinct : Backend.file = .file → Sha256.DistinctOn used)
    (batchSize : Nat) : ∃ i log w', Opened ⟨.file, root, base, used, distinct⟩ batchSize w i log w' := by
  obtain ⟨d, opened, shelved, aside⟩ := FileStore.open_fresh (S := used) fresh
  have touch := World.Touch.of_aside (w := w) shelved.hosts aside
  have search : ∀ name ∈ Part.search.names, d.node? (name :: base) = none := fun name mine =>
    fresh.vacant touch (by decide) mine
  have marks : ∀ name ∈ Part.marks.names, d.node? (name :: base) = none := fun name mine =>
    fresh.vacant touch (by decide) mine
  have missing := search FileIndex.filePart (by simp [Part.names])
  obtain ⟨opened', stands⟩ := FileIndex.open_outcome (w := { w with disk := d })
    ⟨shelved.hosts, not_directory missing, not_directory (search _ (by simp [Part.names]))⟩ missing batchSize
  have unlogged := marks FileLog.logPart (by simp [Part.names])
  have logged : FileLog.Stands root base [] (.ofRoot root) { w with disk := d } := by
    refine ⟨rfl, ⟨shelved.hosts, not_directory unlogged, not_directory (marks _ (by simp [Part.names])),
      marks _ (by simp [Part.names]), [], ?_, rfl⟩, fun uri pending => by cases pending⟩
    show d.contentAt _ = _
    rw [Disk.contentAt, unlogged]
    rfl
  have made : outcome (ExceptT.lift (Script.ask (.createDirectories root)) : ExceptT DirtyError Script _)
      { w with disk := d } = (.ok (.ok ()), { w with disk := d }) := by
    rw [Script.outcome_lift, Script.run_createDirectories shelved.hosts.createDirectories_self]
  refine ⟨_, _, { w with disk := d }, ⟨_, { w with disk := d }, opened, ?_, ?_⟩, shelved, .file stands, .file logged,
    shelved.hosts, fresh.vacant touch (p := .lock) (by decide) (by simp [Part.names]), rfl,
    FileIndex.loaded_missing shelved.hosts missing, fun a outside => ?_⟩
  · rw [SearchIndex.open, Script.outcome_bind_ok opened']
    rfl
  · rw [DirtyLog.open, Script.outcome_bind_ok made]
    rfl
  · exact touch.still.disk a fun p owns => outside owns.below

/-- A database: the first part creates it, and each makes its tables. -/
theorem open_tables (fresh : w.Fresh root base)
    (distinct : Backend.sqlite = .file → Sha256.DistinctOn used) (batchSize : Nat) :
    ∃ i log w', Opened ⟨.sqlite, root, base, used, distinct⟩ batchSize w i log w' := by
  obtain ⟨d, connected, hosts, others, id, c, m, file⟩ := fresh.connect
  have again : ∀ db : Database, (Script.ask (.connect (databasePath root))).run
      { w with disk := d, database := db } = (.ok (), { w with disk := d, database := db }) := fun db =>
    connect_again (w := { w with disk := d, database := db }) hosts file
  have created : ∀ db : Database, (Script.ask (.createDirectories root)).run
      { w with disk := d, database := db } = (.ok (), { w with disk := d, database := db }) := fun db =>
    Script.run_createDirectories (w := { w with disk := d, database := db }) hosts.createDirectories_self
  obtain ⟨db₁, ensured, carries⟩ := @TableStore.ensureTables_ok {} rfl rfl rfl rfl rfl rfl rfl rfl
  have beyond := TableStore.spares_ensureTables ensured
  simp only [Database.beyondRecords, Prod.mk.injEq] at beyond
  obtain ⟨unsearched, -, unmarked, -⟩ := beyond
  obtain ⟨db₂, opened, stands, apart⟩ :=
    TableIndex.open_outcome (created db₁) (again db₁) unsearched batchSize
  have dirty : db₂.dirty = none := by
    rw [show db₂ = _ from apart]
    exact unmarked
  let db₃ : Database := { db₂ with dirty := some [] }
  have ensured' : Table.dirty.ensure db₂ = .ok ((), db₃) := Table.ensure_missing dirty
  have made : outcome (ExceptT.lift (Script.ask (.createDirectories root)) : ExceptT DirtyError Script _)
      { w with disk := d, database := db₂ } = (.ok (.ok ()), { w with disk := d, database := db₂ }) := by
    rw [Script.outcome_lift, created db₂]
  have joined : outcome (ExceptT.lift (Script.ask (.connect (databasePath root))) :
      ExceptT DirtyError Script _) { w with disk := d, database := db₂ } =
        (.ok (.ok ()), { w with disk := d, database := db₂ }) := by
    rw [Script.outcome_lift, again db₂]
  have marked : outcome (ExceptT.lift (Script.ask (.transact Table.dirty.ensure)) :
      ExceptT DirtyError Script _) { w with disk := d, database := db₂ } =
        (.ok (.ok ()), { w with disk := d, database := db₃ }) := by
    rw [Script.outcome_lift, Script.run_ask]
    simp only [Call.perform, ensured']
  have records : World.Same base .records { w with disk := d, database := db₁ }
      { w with disk := d, database := db₃ } := by
    refine ⟨fun _ _ => rfl, ?_⟩
    show Part.records.tables { db₂ with dirty := some [] } = _
    rw [show db₂ = _ from apart]
    rfl
  have search : World.Same base .search { w with disk := d, database := db₂ }
      { w with disk := d, database := db₃ } := ⟨fun _ _ => rfl, rfl⟩
  refine ⟨_, _, { w with disk := d, database := db₃ }, ⟨{ w with disk := d, database := db₁ },
    { w with disk := d, database := db₂ }, ?_, ?_, ?_⟩, carries.same records,
    SearchIndex.Stands.same (.table stands) search hosts,
    .table (l := .fresh) ⟨⟨[], rfl, rfl⟩, fun uri pending => by cases pending⟩, hosts, ?_, rfl, trivial,
    fun a outside => others a (by rintro rfl; exact outside (Disk.below_cons _ _))⟩
  · have created' : outcome (Stored.disk (.createDirectories root)) w = (.ok (), w) :=
      congrArg (fun r => (Except.mapError StoreError.io r.1, r.2))
        (Script.run_createDirectories fresh.hosts.createDirectories_self)
    have joined' : outcome (Stored.database (.connect (databasePath root))) w =
        (.ok (), { w with disk := d, database := {} }) :=
      congrArg (fun r => (Except.mapError StoreError.database r.1, r.2)) connected
    show outcome (TableStore.open root (databasePath root)) w = _
    rw [TableStore.open, Script.outcome_bind_ok created', Script.outcome_bind_ok joined',
      Stored.outcome_transact_ok ensured]
  · rw [SearchIndex.open, Script.outcome_bind_ok opened]
    rfl
  · rw [DirtyLog.open, Script.outcome_bind_ok made]
    simp only
    rw [Script.outcome_bind_ok joined]
    simp only
    rw [Script.outcome_bind_ok marked]
    rfl
  · exact (others _ (by simpa using (by decide +kernel : Indexer.lockPart ≠ databasePart))).trans
      (fresh.bare (Disk.below_cons _ _))

/-- The parts of a new index. -/
theorem open_parts (site : Site) (fresh : w.Fresh site.root site.base) (batchSize : Nat) :
    ∃ i log w', site.Opened batchSize w i log w' := by
  obtain ⟨backend, root, base, used, distinct⟩ := site
  cases backend with
  | file => exact open_files fresh distinct batchSize
  | sqlite => exact open_tables fresh distinct batchSize

/-- An index is opened part by part, and its buffers do not hand over on their own. -/
theorem Opened.outcome_open {site : Site} {c : IndexConfig} {x : Indexer} {extract : Extractor} {i : SearchIndex}
    {log : DirtyLog} {w' : World} (opened : site.Opened c.searchBatchSize w i log w')
    (fresh : w.Fresh site.root site.base) (backend : c.backend = site.backend) (root : c.indexRoot = site.root)
    (sound : c.fault? = none) (made : ∃ parallelism, Indexer.ofConfig c extract parallelism = .ok x) :
    outcome (Indexer.open c) w =
      (.ok ⟨(Buffer.ofBatchSize c.storeBatchSize).setAutoFlush false, i.setAutoFlush false, log⟩, w') := by
  obtain ⟨sources, listed⟩ : ∃ sources, Source.ofConfig c = .ok sources := by
    obtain ⟨_, made⟩ := made
    cases listed : Source.ofConfig c with
    | error e => rw [Indexer.ofConfig, listed] at made; cases made
    | ok sources => exact ⟨sources, rfl⟩
  obtain ⟨w₁, w₂, opened₁, opened₂, opened₃⟩ := opened.run
  have created : outcome (ExceptT.lift (Script.ask (.createDirectories site.root)) :
      ExceptT IndexError Script _) w = (.ok (.ok ()), w) := by
    rw [Script.outcome_lift, Script.run_createDirectories fresh.hosts.createDirectories_self]
  rw [Indexer.open, sound, backend, root]
  simp only
  rw [Script.outcome_bind_ok created]
  simp only
  rw [Script.outcome_bind_ok (Script.outcome_adapt_ok opened₁),
    Script.outcome_bind_ok (Script.outcome_adapt_ok opened₂),
    Script.outcome_bind_ok (Script.outcome_adapt_ok opened₃), listed]
  rfl

/-- **A new index holds nothing.** -/
theorem Stands.open_fresh {site : Site} {c : IndexConfig} {x : Indexer} {extract : Extractor}
    (fresh : w.Fresh site.root site.base) (backend : c.backend = site.backend)
    (root : c.indexRoot = site.root) (sound : c.fault? = none)
    (made : ∃ parallelism, Indexer.ofConfig c extract parallelism = .ok x) :
    ∃ s w', outcome (Indexer.open c) w = (.ok s, w') ∧ site.Stands .empty s w' ∧
      ∀ a, ¬ Below site.base a → w'.disk.node? a = w.disk.node? a := by
  obtain ⟨i, log, w', opened⟩ := open_parts site fresh c.searchBatchSize
  exact ⟨_, w', opened.outcome_open fresh backend root sound made, ⟨.of_empty opened.records rfl,
    opened.search.setAutoFlush false, opened.marks, opened.hosts, not_directory opened.lock, .empty site⟩, opened.apart⟩

end Site

/-- The indexer of some settings works at their place. -/
theorem Indexer.at_ofConfig {site : Site} {c : IndexConfig} {x : Indexer} {extract : Extractor}
    (backend : c.backend = site.backend) (root : c.indexRoot = site.root)
    (made : ∃ parallelism, Indexer.ofConfig c extract parallelism = .ok x) :
    x.At site ∧ x.extract = extract ∧ ∃ listings : List Listing,
      x.sources = listings.map .listing ++ [.dirtyLog] ∧ ∀ list ∈ listings, Script.Quiet list := by
  obtain ⟨_, made⟩ := made
  rw [Indexer.ofConfig] at made
  cases listed : Source.ofConfig c with
  | error e => rw [listed] at made; cases made
  | ok sources =>
      rw [listed] at made
      obtain rfl := Except.ok.inj made
      refine ⟨⟨root, ?_⟩, rfl, Source.quiet_ofConfig listed⟩
      rw [Site.store, ← backend, ← root]

end SymbolIndex
