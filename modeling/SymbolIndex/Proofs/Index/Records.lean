import SymbolIndex.Index.Pass
import SymbolIndex.Proofs.Index.Parts
import SymbolIndex.Proofs.Store.Buffer
import SymbolIndex.Proofs.Uri.FileUri

/-!
# Proofs.Index.Records — the records of an index

The store of an index and the buffer in front of it carry a ledger (`Site.Carries`, `Site.Buffers`). They
carry any records at all: a file whose path is not normal and a member without a name are in the ledger
too, only no lookup comes upon them (`RecordKey.Legible`).

Each operation does to the world what it does to the ledger, in the part of the records alone. A sweep is
told what is still there while it removes, so all that is said of it here is that it removes stored records
that hang on a URI (`Buffers.sweep_ok`).
-/

namespace SymbolIndex

open Action (outcome)

set_option autoImplicit false

/-- Where an index lives, and the identifiers in use there. No two of them share a digest where digests
name the files. -/
structure Site where
  backend : Backend
  root : Path
  base : Address
  used : String → Prop
  distinct : backend = .file → Sha256.DistinctOn used

/-- The identifiers that a record brings along: its own, and those of the members a file refers to. -/
def Record.identifiers : Record → List String
  | .file f => f.path :: f.memberReferences.toList
  | r => [r.identifier]

theorem Record.identifier_mem (r : Record) : r.identifier ∈ r.identifiers := by
  cases r <;> simp [identifiers, identifier]

namespace Ledger

variable {l : Ledger} {removed : List Record}

/-- To take the orphans is to sweep. -/
theorem without_orphans (keyed : l.Keyed) {keep : String → Bool}
    (same : removed.Perm (l.orphans keep)) : l.without removed = l.sweep keep := by
  refine ext (fun key => ?_) (builtAt_removeAll _ _)
  rw [get?_without, get?_sweep]
  have orphan : key ∈ removed.map Record.key ↔ ∃ r, l.get? key = some r ∧ isOrphan keep r = true := by
    simp only [List.mem_map, same.mem_iff, mem_orphans keyed]
    constructor
    · rintro ⟨r, ⟨found, orphan⟩, rfl⟩
      exact ⟨r, found, orphan⟩
    · rintro ⟨r, found, orphan⟩
      have here := keyed key r found
      exact ⟨r, ⟨here.symm ▸ found, orphan⟩, here⟩
  simp only [orphan]
  cases found : l.get? key with
  | none => simp
  | some r => cases orphaned : isOrphan keep r <;> simp [Option.filter, orphaned]

end Ledger

namespace Site

variable {site : Site} {l : Ledger} {b : Buffer} {w w' : World}

/-- The store of an index. -/
def store (site : Site) : RecordStore := .ofBackend site.backend site.root

/-- An operation on a part of the index at a site. -/
abbrev Touch (site : Site) (p : Part) (w w' : World) : Prop := World.Touch site.root site.base p w w'

/-- Every identifier that the records of a ledger bring along is in use. -/
def Uses (site : Site) (l : Ledger) : Prop := ∀ key r, l.get? key = some r → ∀ i ∈ r.identifiers, site.used i

namespace Uses

theorem empty (site : Site) : site.Uses .empty := fun _ _ found => by cases found

theorem write (uses : site.Uses l) {r : Record} (used : ∀ i ∈ r.identifiers, site.used i) :
    site.Uses (l.write r) := by
  intro key r' found
  cases firm : r.isSpeculative with
  | true =>
      rw [Ledger.write_speculative firm] at found
      exact uses key r' found
  | false =>
      rw [Ledger.get?_write firm] at found
      split at found
      · cases found
        exact used
      · exact uses key r' found

theorem without (uses : site.Uses l) (removed : List Record) : site.Uses (l.without removed) := by
  intro key r found
  rw [Ledger.get?_without] at found
  split at found
  · cases found
  · exact uses key r found

end Uses

/-! ## The store -/

/-- The store of an index carries a ledger. -/
def Carries (site : Site) (l : Ledger) (w : World) : Prop :=
  match site.backend with
  | .file => FileStore.Shelved site.used site.root site.base w.disk l
  | .sqlite => TableStore.Carries w.database l

namespace Carries

theorem keyed (carries : site.Carries l w) : l.Keyed := by
  obtain ⟨_ | _, root, base, used, distinct⟩ := site
  · exact FileStore.Shelved.keyed carries
  · exact TableStore.Carries.keyed carries

theorem same (carries : site.Carries l w) (same : World.Same site.base .records w w')
    (hosts : w'.disk.Hosts site.root site.base) : site.Carries l w' := by
  obtain ⟨_ | _, root, base, used, distinct⟩ := site
  · exact FileStore.Shelved.same carries same hosts
  · exact TableStore.Carries.same carries same

theorem get_ok (carries : site.Carries l w) {key : RecordKey} (used : site.used key.identifier)
    (legible : key.Legible) :
    Script.outcome (site.store.get key) w = (.ok (l.get? key), w) := by
  obtain ⟨_ | _, root, base, S, distinct⟩ := site
  · have read := FileStore.get_run carries (distinct rfl) used
    show Script.outcome (ExceptT.lift ((FileStore.ofRoot root).get key) : Stored _) w = _
    rw [Script.outcome_lift, read]
  · exact Stored.outcome_transact_ok (TableStore.Carries.get_ok carries legible)

theorem isFresh_ok (carries : site.Carries l w) {path : String}
    (used : site.used (Uri.normalize path)) (mtime : Int64) :
    Script.outcome (site.store.isFresh path mtime) w = (.ok (l.isFresh path mtime), w) := by
  obtain ⟨_ | _, root, base, S, distinct⟩ := site
  · have read := FileStore.isFresh_run carries (distinct rfl) used mtime
    show Script.outcome (ExceptT.lift ((FileStore.ofRoot root).isFresh path mtime) : Stored _) w = _
    rw [Script.outcome_lift, read]
  · exact Stored.outcome_transact_ok (TableStore.Carries.isFresh_ok carries path mtime)

theorem writeBatch_ok (carries : site.Carries l w) {rs : List Record}
    (used : ∀ r ∈ rs, site.used r.identifier) :
    ∃ w', Script.outcome (site.store.writeBatch rs) w = (.ok (), w') ∧
      site.Carries (l.writeAll rs) w' ∧ site.Touch .records w w' := by
  obtain ⟨_ | _, root, base, S, distinct⟩ := site
  · obtain ⟨d, done, shelved, aside⟩ := FileStore.writeAll_run carries (distinct rfl) used
    refine ⟨{ w with disk := d }, ?_, shelved, .of_aside shelved.hosts aside⟩
    show Script.outcome (ExceptT.lift ((FileStore.ofRoot root).writeAll rs) : Stored _) w = _
    rw [Script.outcome_lift, done]
  · obtain ⟨db, done, carries'⟩ := TableStore.Carries.writeAll_ok carries rs
    exact ⟨{ w with database := db }, Stored.outcome_transact_ok done, carries',
      .of_beyondRecords (Records.spares_writeAll rs done)⟩

theorem flush_ok (site : Site) (w : World) : Script.outcome site.store.flush w = (.ok (), w) := by
  obtain ⟨_ | _, root, base, S, distinct⟩ := site <;> rfl

theorem reset_ok (carries : site.Carries l w) :
    ∃ w', Script.outcome site.store.reset w = (.ok (), w') ∧ site.Carries .empty w' ∧
      site.Touch .records w w' := by
  obtain ⟨_ | _, root, base, S, distinct⟩ := site
  · obtain ⟨d, done, shelved, aside⟩ := FileStore.reset_outcome carries
    exact ⟨{ w with disk := d }, done, shelved, .of_aside shelved.hosts aside⟩
  · obtain ⟨db, done, carries'⟩ := TableStore.recreateTables_ok w.database
    exact ⟨{ w with database := db }, Stored.outcome_transact_ok done, carries',
      .of_beyondRecords (TableStore.spares_recreateTables done)⟩

theorem markUpdated_ok (carries : site.Carries l w) (time : Int64) :
    ∃ w', Script.outcome (site.store.markUpdated time) w = (.ok (), w') ∧
      site.Carries (l.markUpdated time) w' ∧ site.Touch .records w w' := by
  obtain ⟨_ | _, root, base, S, distinct⟩ := site
  · obtain ⟨d, done, shelved, aside⟩ := FileStore.markUpdated_outcome carries time
    exact ⟨{ w with disk := d }, done, shelved, .of_aside shelved.hosts aside⟩
  · obtain ⟨db, done, carries'⟩ := TableStore.Carries.markUpdated_ok carries time
    exact ⟨{ w with database := db }, Stored.outcome_transact_ok done, carries',
      .of_beyondRecords (TableStore.spares_markUpdated time done)⟩

end Carries

/-- Asking whether a file is there changes nothing. -/
theorem quiet_isThere (uri : String) (w : World) : ((Indexer.isThere uri).run w).2 = w := by
  unfold Indexer.isThere
  split
  · have asked : (Script.ask (.stat (Uri.toPath uri))).run w = (w.disk.stat (Uri.toPath uri), w) := rfl
    rw [Script.run_bind_of asked]
    cases w.disk.stat (Uri.toPath uri) <;> rfl
  · rfl

/-- What may be gone is a file URI, and so normal. -/
theorem normal_of_gone {uri : String} {w : World} (gone : ((Indexer.isThere uri).run w).1 = false) :
    Uri.normalize uri = uri := by
  unfold Indexer.isThere at gone
  split at gone
  next file => exact Uri.normalize_of_file (List.isPrefixOf_iff_prefix.1 file)
  · cases gone

theorem Carries.sweep_ok (carries : site.Carries l w) :
    ∃ report w', Script.outcome (site.store.sweep Indexer.isThere) w = (.ok report, w') ∧
      site.Carries (l.without report.removed) w' ∧ site.Touch .records w w' ∧
      ∀ r ∈ report.removed, l.get? r.key = some r ∧ r.sourceUri?.isSome = true := by
  obtain ⟨_ | _, root, base, S, distinct⟩ := site
  · obtain ⟨d, removed, verdicts, done, shelved, aside, stored, -⟩ :=
      FileStore.sweep_run quiet_isThere (distinct rfl) carries
    refine ⟨⟨removed, verdicts⟩, { w with disk := d }, ?_, shelved, .of_aside shelved.hosts aside, stored⟩
    show Script.outcome (ExceptT.lift ((FileStore.ofRoot root).sweep Indexer.isThere) : Stored _) w = _
    rw [Script.outcome_lift, done]
  · have decides : ∀ uri, (Indexer.isThere uri).run w = (((Indexer.isThere uri).run w).1, w) :=
      fun uri => Prod.ext rfl (quiet_isThere uri w)
    have keyed := TableStore.Carries.keyed carries
    obtain ⟨report, db, done, same, carries', spared⟩ :=
      TableStore.Carries.sweep_ok carries decides fun key r uri found there gone file => by
        obtain rfl := keyed key r found
        cases r with
        | file f => cases there; exact normal_of_gone gone
        | klass _ => cases file
        | function _ => cases file
        | constant _ => cases file
        | member _ => cases file
    refine ⟨report, { w with database := db }, done, ?_, .of_beyondRecords spared, fun r member => ?_⟩
    · rw [Ledger.without_orphans keyed same]
      exact carries'
    · obtain ⟨found, orphan⟩ := (Ledger.mem_orphans keyed).1 (same.mem_iff.1 member)
      obtain ⟨uri, there, -⟩ := Ledger.isOrphan_iff.1 orphan
      exact ⟨found, by rw [there]; rfl⟩

/-! ## The buffer in front of it -/

/-- The store of an index, with the writes that wait in front of it, carries a ledger. -/
structure Buffers (site : Site) (l : Ledger) (b : Buffer) (w : World) : Prop where
  formed : b.Formed
  used : ∀ key r, b.pending.get? key = some r → site.used r.identifier
  below : ∃ l₀, site.Carries l₀ w ∧ l = b.onto l₀

namespace Buffers

theorem keyed (buffers : site.Buffers l b w) : l.Keyed := by
  obtain ⟨l₀, below, rfl⟩ := buffers.below
  exact Buffer.onto_keyed buffers.formed below.keyed

theorem same (buffers : site.Buffers l b w) (same : World.Same site.base .records w w')
    (hosts : w'.disk.Hosts site.root site.base) : site.Buffers l b w' := by
  obtain ⟨l₀, below, onto⟩ := buffers.below
  exact ⟨buffers.formed, buffers.used, l₀, below.same same hosts, onto⟩

/-- A buffer in which nothing waits carries what the store carries. -/
theorem of_empty (carries : site.Carries l w) (nothing : b.pending = .empty) : site.Buffers l b w := by
  refine ⟨Buffer.formed_of_empty nothing, fun key r found => ?_, l, carries,
    (Buffer.onto_of_empty nothing l).symm⟩
  rw [nothing] at found
  cases found

theorem find?_ok (buffers : site.Buffers l b w) (key : RecordKey) (used : site.used key.identifier)
    (legible : key.Legible) :
    Script.outcome (b.find? site.store key) w = (.ok (l.get? key), w) := by
  obtain ⟨l₀, below, rfl⟩ := buffers.below
  rw [Buffer.get?_onto buffers.formed, Buffer.find?]
  cases b.pending.get? key with
  | some r => rfl
  | none => exact below.get_ok used legible

theorem isFresh_ok (buffers : site.Buffers l b w) {path : String}
    (used : site.used (Uri.normalize path)) (mtime : Int64) :
    Script.outcome (b.isFresh site.store path mtime) w = (.ok (l.isFresh path mtime), w) := by
  obtain ⟨l₀, below, rfl⟩ := buffers.below
  rw [Buffer.isFresh, Ledger.isFresh, Buffer.get?_onto buffers.formed]
  cases waits : b.pending.get? (.ofFile path) with
  | none => exact below.isFresh_ok used mtime
  | some r =>
      have kind := congrArg RecordKey.recordType (buffers.formed.keyed _ _ waits)
      cases r with
      | file f => rfl
      | klass _ => cases kind
      | function _ => cases kind
      | constant _ => cases kind
      | member _ => cases kind

theorem flush_ok (buffers : site.Buffers l b w) :
    ∃ w', outcome (Buffer.flush site.store) b w = (.ok (), b.clear, w') ∧
      site.Carries l w' ∧ site.Touch .records w w' := by
  obtain ⟨l₀, below, rfl⟩ := buffers.below
  have settled : ∀ w, Script.run site.store.flush w = (.ok (), w) := Carries.flush_ok site
  rw [Buffer.flush, Action.outcome_bind_ok (Action.outcome_get _ _),
    Action.outcome_bind_ok (Action.outcome_set _ _ _)]
  cases nothing : b.pending.isEmpty with
  | true =>
      refine ⟨w, ?_, ?_, .refl _ _ _ _⟩
      · simp only [Bool.not_true, Bool.false_eq_true, if_false]
        rw [Action.outcome_ofScript, settled]
      · rw [Buffer.onto_of_empty (SortedMap.isEmpty_iff.1 nothing)]
        exact below
  | false =>
      have used : ∀ r ∈ b.pending.values, site.used r.identifier := fun r member => by
        obtain ⟨key, waits⟩ := SortedMap.mem_values.1 member
        exact buffers.used key r waits
      obtain ⟨w', written, carries, touch⟩ := below.writeBatch_ok used
      have written' : Script.run (site.store.writeBatch b.pending.values) w = (.ok (), w') := written
      have wrote : outcome (Action.ofScript (site.store.writeBatch b.pending.values) : Buffered Unit)
          b.clear w = (.ok (), b.clear, w') := by
        rw [Action.outcome_ofScript, written']
      refine ⟨w', ?_, carries, touch⟩
      simp only [Bool.not_false, if_true]
      rw [Action.outcome_bind_ok wrote, Action.outcome_ofScript, settled]

theorem write_ok (buffers : site.Buffers l b w) {r : Record} (used : site.used r.identifier) :
    ∃ b' w', outcome (Buffer.write site.store r) b w = (.ok (), b', w') ∧
      site.Buffers (l.write r) b' w' ∧ site.Touch .records w w' := by
  rw [Buffer.write]
  cases firm : r.isSpeculative with
  | true =>
      rw [Ledger.write_speculative firm]
      exact ⟨b, w, rfl, buffers, .refl _ _ _ _⟩
  | false =>
      obtain ⟨l₀, below, rfl⟩ := buffers.below
      have waits : site.Buffers ((b.onto l₀).write r) (b.insert r) w := by
        refine ⟨buffers.formed.insert firm, fun key r' found => ?_, l₀, below,
          (Buffer.onto_insert buffers.formed firm l₀).symm⟩
        rcases Buffer.get?_insert found with ⟨rfl, -⟩ | found
        · exact used
        · exact buffers.used key r' found
      simp only [Bool.false_eq_true, if_false]
      rw [Action.outcome_bind_ok (Action.outcome_modify _ _ _),
        Action.outcome_bind_ok (Action.outcome_get _ _)]
      split
      · obtain ⟨w', flushed, carries, touch⟩ := waits.flush_ok
        exact ⟨_, w', flushed, of_empty carries rfl, touch⟩
      · exact ⟨_, w, rfl, waits, .refl _ _ _ _⟩

theorem reset_ok (buffers : site.Buffers l b w) :
    ∃ w', outcome (Buffer.reset site.store) b w = (.ok (), b.clear, w') ∧
      site.Buffers .empty b.clear w' ∧ site.Touch .records w w' := by
  obtain ⟨l₀, below, -⟩ := buffers.below
  obtain ⟨w', cleared, carries, touch⟩ := below.reset_ok
  have cleared' : Script.run site.store.reset w = (.ok (), w') := cleared
  refine ⟨w', ?_, of_empty carries rfl, touch⟩
  rw [Buffer.reset, Action.outcome_bind_ok (Action.outcome_modify _ _ _), Action.outcome_ofScript,
    cleared']

/-- The time of the last build does not wait. -/
theorem markUpdated_ok (buffers : site.Buffers l b w) (time : Int64) :
    ∃ w', Script.outcome (site.store.markUpdated time) w = (.ok (), w') ∧
      site.Buffers (l.markUpdated time) b w' ∧ site.Touch .records w w' := by
  obtain ⟨l₀, below, rfl⟩ := buffers.below
  obtain ⟨w', marked, carries, touch⟩ := below.markUpdated_ok time
  exact ⟨w', marked, ⟨buffers.formed, buffers.used, _, carries,
    (Buffer.onto_markUpdated buffers.formed time l₀).symm⟩, touch⟩

/-- A sweep removes stored records that hang on a URI. -/
theorem sweep_ok (buffers : site.Buffers l b w) :
    ∃ report w', outcome (Buffer.sweep site.store Indexer.isThere) b w = (.ok report, b.clear, w') ∧
      site.Buffers (l.without report.removed) b.clear w' ∧ site.Touch .records w w' ∧
      ∀ r ∈ report.removed, l.get? r.key = some r ∧ r.sourceUri?.isSome = true := by
  obtain ⟨w₁, flushed, carries₁, touch₁⟩ := buffers.flush_ok
  obtain ⟨report, w₂, swept, carries₂, touch₂, stored⟩ := carries₁.sweep_ok
  have swept' : Script.run (site.store.sweep Indexer.isThere) w₁ = (.ok report, w₂) := swept
  refine ⟨report, w₂, ?_, of_empty carries₂ rfl, touch₁.trans touch₂, stored⟩
  rw [Buffer.sweep, Action.outcome_bind_ok flushed, Action.outcome_ofScript, swept']

end Buffers

end Site

end SymbolIndex
