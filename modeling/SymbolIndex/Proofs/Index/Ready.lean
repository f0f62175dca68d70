import SymbolIndex.Index.Opening
import SymbolIndex.Proofs.Index.Providing

/-!
# Proofs.Index.Ready — states that an index comes to when operations fail

The handle of an index is on the log under its root, and that log can be read and written (`Indexer.Ready`). Opening
an index makes it so (`Indexer.goes_open`), and no operation undoes it, whichever of its calls fail
(`Indexer.keeps_run`, `keeps_indexFile`, `DirtyLog.keeps_mark`, ...). So it is so in every state that an index comes
to (`Indexer.Comes.ready`). A process that dies at a call is one whose calls fail from then on, after which the index
is opened again.
-/

namespace SymbolIndex

open DirtyLog (Stocked remembering)
open World (MarksOf)

set_option autoImplicit false

variable {root : Path} {base : Address} {backend : Backend} {s s' : IndexState} {w w' : World} {t : List Answered}
  {x : Indexer}

/-! ## An indexer and its log -/

/-- An indexer over the store of an index, whose listings leave the marks alone. -/
structure Indexer.Works (x : Indexer) (root : Path) (base : Address) (backend : Backend) : Prop where
  located : x.root = root
  store : x.store = .ofBackend backend root
  listings : ∀ list, .listing list ∈ x.sources → Script.LeavesMarks root base list

theorem Indexer.Works.leaves (works : x.Works root base backend) : x.store.LeavesMarks root base := by
  rw [works.store]
  exact RecordStore.leavesMarks_ofBackend backend root base

/-- The indexer of some settings, among whose sources the dirty log is the last. -/
theorem Indexer.works_ofConfig (base : Address) {c : IndexConfig} {extract : Extractor}
    (made : ∃ parallelism, Indexer.ofConfig c extract parallelism = .ok x) : x.Works c.indexRoot base c.backend ∧ .dirtyLog ∈ x.sources := by
  obtain ⟨_, made⟩ := made
  rw [Indexer.ofConfig] at made
  cases listed : Source.ofConfig c with
  | error e =>
      rw [listed] at made
      cases made
  | ok sources =>
      rw [listed] at made
      cases made
      obtain ⟨listings, rfl, asks⟩ := Source.asks_ofConfig listed
      refine ⟨⟨rfl, rfl, fun list member => (asks list ?_).leaves⟩, by simp⟩
      simpa using member

/-- The handle of an indexer is on the log under its root, and the log can be read and written. -/
structure Indexer.Ready (root : Path) (base : Address) (backend : Backend) (s : IndexState) (w : World) : Prop where
  search : s.search.Under root
  dirty : ∃ known, s.dirty = remembering backend root known
  stocked : Stocked root base w backend

namespace DirtyLog

/-- A handle on a log that can be read and written. -/
abbrev Ready (root : Path) (base : Address) (backend : Backend) (log : DirtyLog) (w : World) : Prop :=
  (∃ known, log = remembering backend root known) ∧ Stocked root base w backend

theorem keeps_mark (path : String) : (DirtyLog.mark path).Keeps (Ready root base backend) := by
  rintro _ w t r log' w' ⟨⟨known, rfl⟩, stocked⟩ goes
  obtain ⟨marks, lists⟩ := stocked.lists
  obtain ⟨-, ⟨e, -, rfl, lists'⟩ | ⟨-, rfl, lists'⟩⟩ := lists.goes_mark goes
  · exact ⟨⟨_, rfl⟩, lists'.stocked⟩
  · exact ⟨⟨_, rfl⟩, lists'.stocked⟩

theorem keeps_clear (path : String) : (DirtyLog.clear path).Keeps (Ready root base backend) := by
  rintro _ w t r log' w' ⟨⟨known, rfl⟩, stocked⟩ goes
  obtain ⟨marks, lists⟩ := stocked.lists
  obtain ⟨-, rfl, ⟨e, -, lists'⟩ | ⟨-, lists'⟩⟩ := lists.goes_clear goes
  · exact ⟨⟨_, rfl⟩, lists'.stocked⟩
  · exact ⟨⟨_, rfl⟩, lists'.stocked⟩

theorem keeps_drain : DirtyLog.drain.Keeps (Ready root base backend) := by
  rintro _ w t r log' w' ⟨⟨known, rfl⟩, stocked⟩ goes
  rcases stocked.goes_drain goes with ⟨e, -, rfl, stocked', -⟩ | ⟨uris, known', -, rfl, tidy, -⟩
  · exact ⟨⟨_, rfl⟩, stocked'⟩
  · exact ⟨⟨_, rfl⟩, tidy.stocked⟩

end DirtyLog

namespace Source

theorem keeps_provideAll {sources : List Source}
    (leave : ∀ list, .listing list ∈ sources → Script.LeavesMarks root base list) :
    (provideAll sources).Keeps (DirtyLog.Ready root base backend) := by
  induction sources with
  | nil => exact .pure _
  | cons source sources ih =>
      refine .bind ?_ fun found => .bind (ih fun list member => leave list (by simp [member])) fun _ => .pure _
      cases source with
      | listing list =>
          refine .ofScript fun log w t r w' ready goes => ⟨ready.1, ?_⟩
          exact (leave list (by simp) w (.refl ready.2.hosts) goes).stocked ready.2
      | dirtyLog => exact .bind (.within DirtyLog.keeps_drain (fun _ _ => id) fun _ _ _ _ _ => id) fun _ => .pure _

end Source

namespace Indexer

theorem Ready.aside {α : Type} {a : Indexed α} (kept : KeepsAside root base a) : a.Keeps (Ready root base backend) := by
  rintro s w t r s' w' ⟨search, ⟨known, dirty⟩, stocked⟩ goes
  obtain ⟨search', dirty', left⟩ := kept s.dirty w ⟨search, rfl, .refl stocked.hosts⟩ goes
  exact ⟨search', ⟨known, dirty'.trans dirty⟩, left.stocked stocked⟩

theorem Ready.onDirty {α : Type} {a : Marked α} (kept : a.Keeps (DirtyLog.Ready root base backend)) :
    (onDirty a).Keeps (Ready root base backend) :=
  .within kept (fun _ _ ready => ⟨ready.dirty, ready.stocked⟩) fun _ _ _ _ ready kept => ⟨ready.search, kept.1, kept.2⟩

theorem keeps_fail (stats : IndexStats) (uri : String) : (fail stats uri).Keeps (Ready root base backend) :=
  .bind (.onDirty (DirtyLog.keeps_mark uri)) fun _ => .pure _

theorem keeps_indexChunk (works : x.Works root base backend) (stats : IndexStats) (chunk : List Candidate) :
    (x.indexChunk stats chunk).Keeps (Ready root base backend) := by
  refine .bind (.aside (keeps_readAll chunk)) fun found => .foldlM (fun stats h => ?_) found stats
  rw [indexRead]
  split
  next document _ =>
    rw [indexDocument]
    split
    · exact keeps_fail stats _
    · refine .bind (.aside (keeps_apply works.leaves _ _)) fun written => ?_
      exact .bind (.onDirty (DirtyLog.keeps_clear _)) fun _ => .bind (.aside (keeps_flushIfFull works.leaves)) fun _ =>
        .pure _
  · exact keeps_fail stats _

theorem keeps_indexCandidates (works : x.Works root base backend) (force : Bool) (paths : List Path) :
    (x.indexCandidates force paths).Keeps (Ready root base backend) := by
  refine .bind (.foldlM (fun choice path => .aside (keeps_consider works.leaves force choice path)) _ _)
    fun choice => ?_
  exact .bind (.foldlM (fun stats chunk => keeps_indexChunk works stats chunk) _ _) fun _ =>
    .bind (.aside (keeps_flush works.leaves)) fun _ => .pure _

/-- Runs and the indexing of single files keep the log such that it can be read and written, whatever fails. -/
theorem keeps_run (works : x.Works root base backend) (force : Bool) :
    (x.run force).Keeps (Ready root base backend) := by
  have provided : x.provide.Keeps (Ready root base backend) :=
    .within (Source.keeps_provideAll works.listings) (fun _ _ ready => ⟨ready.dirty, ready.stocked⟩)
      fun _ _ _ _ ready kept => ⟨ready.search, kept.1, kept.2⟩
  refine .bind (.aside (keeps_lock works.located)) fun _ => .bind provided fun paths => ?_
  exact .bind (keeps_indexCandidates works force paths) fun _ => .bind (.aside keeps_nowSeconds) fun _ =>
    .bind (.aside (keeps_markUpdated works.leaves _)) fun _ => .pure _

theorem keeps_indexFile (works : x.Works root base backend) (path : Path) :
    (x.indexFile path).Keeps (Ready root base backend) :=
  .bind (.aside (keeps_lock works.located)) fun _ => keeps_indexCandidates works true [path]

end Indexer

/-! ## Opening -/

/-- A log of a kind can be opened: its files are such that it can be read. A table is made when it is missing. -/
def DirtyLog.Openable (root : Path) (base : Address) (w : World) : Backend → Prop
  | .file => Stocked root base w .file
  | .sqlite => w.disk.Hosts root base

namespace DirtyLog

theorem Stocked.openable (stocked : Stocked root base w backend) : Openable root base w backend := by
  cases backend with
  | file => exact stocked
  | sqlite => exact stocked.hosts

theorem Openable.hosts (openable : Openable root base w backend) : w.disk.Hosts root base := by
  cases backend with
  | file => exact Stocked.hosts openable
  | sqlite => exact openable

/-- An index can be opened in an empty directory. -/
theorem openable_fresh (fresh : w.Fresh root base) (backend : Backend) : Openable root base w backend := by
  cases backend with
  | file => exact .file (FileLog.filed_fresh fresh)
  | sqlite => exact fresh.hosts

end DirtyLog

open DirtyLog (Openable)

namespace Script

variable {ε δ α : Type} {s : ExceptT ε Script α}

/-- A script whose calls may fail, and that leaves it possible to open a log. -/
abbrev KeepsOpenable (root : Path) (base : Address) (backend : Backend) (s : Script α) : Prop :=
  s.Keeps (Openable root base · backend)

theorem LeavesMarks.keepsOpenable {s : Script α} (leaves : s.LeavesMarks root base) :
    s.KeepsOpenable root base .file := fun w _ _ _ openable goes =>
  (leaves w (.refl (Openable.hosts openable)) goes).stocked openable

/-- To create the directory of an index changes nothing. -/
theorem keepsOpenable_created : (ask (.createDirectories root)).KeepsOpenable root base backend :=
  .ask fun w openable => by
    rw [Call.perform, openable.hosts.createDirectories_self]
    exact openable

theorem keepsOpenable_connect : (ask (.connect (databasePath root))).KeepsOpenable root base .sqlite :=
  .ask fun w hosts => by
    rw [Call.perform]
    split
    · exact hosts
    next opened => exact (Disk.Hosts.openFile_ok hosts fit_database opened).1
    · exact hosts

theorem keepsOpenable_transact (action : Transaction α) :
    (ask (.transact action)).KeepsOpenable root base .sqlite :=
  .ask fun w hosts => by
    rw [Call.perform]
    split <;> exact hosts

end Script

open Script (KeepsOpenable)

theorem RecordStore.keepsOpenable_open (backend : Backend) :
    (RecordStore.open backend root).run.KeepsOpenable root base backend := by
  cases backend with
  | file =>
      have created : (Script.ask (.createDirectories (FileStore.ofRoot root).root)).LeavesMarks root base := fun w₀ =>
        .ask fun w marks => marks.perform_createDirectories (by decide) FileStore.recordsPart_mem FileStore.fit_records
      exact .bind created.keepsOpenable fun _ => .pure _
  | sqlite =>
      exact .run_bind (.bind Script.keepsOpenable_created fun _ => .pure _) fun _ =>
        .run_bind (.bind Script.keepsOpenable_connect fun _ => .pure _) fun _ =>
          .bind (Script.keepsOpenable_transact _) fun _ => .pure _

theorem FileIndex.path_of_open {batchSize : Nat} {i : FileIndex}
    (goes : (FileIndex.open root batchSize).run.Goes w t (.ok i) w') : i.path = root.child FileIndex.fileName := by
  obtain ⟨made, w₁, t₁, t₂, -, -, rest⟩ := Script.goes_lift_bind.1 goes
  cases made with
  | error e => exact absurd rest Script.not_goes_throw
  | ok made =>
      obtain ⟨found, w₂, t₃, t₄, -, -, last⟩ := Script.goes_lift_bind.1 rest
      split at last
      · cases (Script.goes_done.1 last).2.1
        rfl
      · exact absurd last Script.not_goes_throw
      · split at last
        · exact absurd last Script.not_goes_throw
        · cases (Script.goes_done.1 last).2.1
          rfl

/-- What opening a search index gives keeps its file, if any, under the root. -/
theorem SearchIndex.under_of_open {batchSize : Nat} {index : SearchIndex}
    (goes : (SearchIndex.open backend root batchSize).run.Goes w t (.ok index) w') : index.Under root := by
  cases backend with
  | file =>
      rcases Script.goes_run_bind.1 goes with ⟨e, same, -⟩ | ⟨i, w₁, t₁, t₂, -, first, rest⟩
      · cases same
      cases (Script.goes_done.1 rest).2.1
      exact FileIndex.path_of_open first
  | sqlite =>
      rcases Script.goes_run_bind.1 goes with ⟨e, same, -⟩ | ⟨i, w₁, t₁, t₂, -, first, rest⟩
      · cases same
      cases (Script.goes_done.1 rest).2.1
      trivial

theorem SearchIndex.keepsOpenable_open (backend : Backend) (batchSize : Nat) :
    (SearchIndex.open backend root batchSize).run.KeepsOpenable root base backend := by
  cases backend with
  | file =>
      refine .run_bind (.run_bind (.map Script.keepsOpenable_created _) fun made => ?_) fun _ => .pure _
      cases made with
      | error e => exact .pure _
      | ok made =>
          have looked : (Script.ask (.read (root.child FileIndex.fileName))).LeavesMarks root base :=
            Script.leaves_ask (Call.looks_read _)
          refine .run_bind (.map looked.keepsOpenable _) fun found => ?_
          split
          · exact .pure _
          · exact .pure _
          · split <;> exact .pure _
  | sqlite =>
      refine .run_bind (.run_bind (.map Script.keepsOpenable_created _) fun made => ?_) fun _ => .pure _
      cases made with
      | error e => exact .pure _
      | ok made =>
          refine .run_bind (.map Script.keepsOpenable_connect _) fun connected => ?_
          cases connected with
          | error e => exact .pure _
          | ok connected =>
              refine .run_bind (.map (Script.keepsOpenable_transact _) _) fun ensured => ?_
              split <;> exact .pure _

/-- The table of marks is there once it was made. -/
theorem TableLog.holds_of_ensure {answer : Except DatabaseError Unit} (made : answer = .ok ())
    (goes : (Call.transact Table.dirty.ensure).Goes w answer w') : ∃ marks, Holds w'.database marks := by
  cases goes with
  | failed fault =>
      obtain ⟨e, rfl⟩ := fault
      cases made
  | performed =>
      rw [Call.perform]
      cases there : w.database.dirty with
      | none =>
          rw [show Table.dirty.ensure _ = _ from Table.ensure_missing there]
          exact ⟨[], [], rfl, rfl⟩
      | some rows =>
          rw [show Table.dirty.ensure _ = _ from Table.ensure_there there]
          exact ⟨_, rows, there, rfl⟩

/-- **Opening a log gives a handle on it** that remembers nothing, and the log can be read and written. -/
theorem DirtyLog.goes_open {log : DirtyLog} (openable : Openable root base w backend)
    (goes : (DirtyLog.open backend root).run.Goes w t (.ok log) w') :
    log = remembering backend root .empty ∧ Stocked root base w' backend := by
  obtain ⟨made, w₁, t₁, t₂, -, first, rest⟩ := Script.goes_lift_bind.1 goes
  have created := Script.keepsOpenable_created openable first
  cases made with
  | error e => exact absurd rest Script.not_goes_throw
  | ok made =>
      cases backend with
      | file =>
          obtain ⟨-, same, rfl⟩ := Script.goes_done.1 rest
          cases same
          exact ⟨rfl, created⟩
      | sqlite =>
          obtain ⟨connected, w₂, t₃, t₄, -, second, last⟩ := Script.goes_lift_bind.1 rest
          have joined := Script.keepsOpenable_connect created second
          cases connected with
          | error e => exact absurd last Script.not_goes_throw
          | ok connected =>
              obtain ⟨ensured, w₃, t₅, t₆, -, third, done⟩ := Script.goes_lift_bind.1 last
              cases ensured with
              | error e => exact absurd done Script.not_goes_throw
              | ok ensured =>
                  obtain ⟨-, same, rfl⟩ := Script.goes_done.1 done
                  cases same
                  obtain ⟨marks, holds⟩ := TableLog.holds_of_ensure rfl (Script.goes_ask.1 third).2
                  exact ⟨rfl, .table (Script.keepsOpenable_transact _ joined third) holds⟩

theorem SearchIndex.Under.setAutoFlush {index : SearchIndex} (under : index.Under root) (enabled : Bool) :
    (index.setAutoFlush enabled).Under root := by
  cases index <;> exact under

/-- **An index that is opened is ready**, whatever it finds there that can be opened. -/
theorem Indexer.goes_open {c : IndexConfig} (openable : Openable c.indexRoot base w c.backend)
    (goes : (Indexer.open c).run.Goes w t (.ok s) w') : Ready c.indexRoot base c.backend s w' := by
  rw [Indexer.open] at goes
  cases fault : c.fault? with
  | some e =>
      rw [fault] at goes
      exact absurd goes Script.not_goes_throw
  | none =>
      rw [fault] at goes
      obtain ⟨made, w₁, t₁, t₂, -, first, rest⟩ := Script.goes_lift_bind.1 goes
      have created := Script.keepsOpenable_created openable first
      cases made with
      | error e => exact absurd rest Script.not_goes_throw
      | ok made =>
          rcases Script.goes_run_bind.1 rest with ⟨e, same, -⟩ | ⟨_, w₂, t₃, t₄, -, second, onward⟩
          · cases same
          have stored := RecordStore.keepsOpenable_open _ created (Script.goes_adapt.1 second)
          rcases Script.goes_run_bind.1 onward with ⟨e, same, -⟩ | ⟨index, w₃, t₅, t₆, -, third, further⟩
          · cases same
          have found := SearchIndex.keepsOpenable_open _ _ stored (Script.goes_adapt.1 third)
          have under := SearchIndex.under_of_open (Script.goes_adapt.1 third)
          rcases Script.goes_run_bind.1 further with ⟨e, same, -⟩ | ⟨log, w₄, t₇, t₈, -, fourth, last⟩
          · cases same
          obtain ⟨fresh, stocked⟩ := DirtyLog.goes_open found (Script.goes_adapt.1 fourth)
          split at last
          · exact absurd last Script.not_goes_throw
          · obtain ⟨-, same, rfl⟩ := Script.goes_done.1 last
            cases same
            exact ⟨under.setAutoFlush false, ⟨.empty, fresh⟩, stocked⟩

/-! ## States that an index comes to -/

/-- The states that an index is in and the worlds around it, from the opening in an empty directory on. Any call of
any operation may fail, the last ones too, as they do when the process dies; then the index is opened again. -/
inductive Indexer.Comes (x : Indexer) (c : IndexConfig) (base : Address) : IndexState → World → Prop where
  | opened {s : IndexState} {w w' : World} {t : List Answered} (fresh : w.Fresh c.indexRoot base)
      (goes : (Indexer.open c).run.Goes w t (.ok s) w') : Comes x c base s w'
  | reopened {s s' : IndexState} {w w' : World} {t : List Answered} (before : Comes x c base s w)
      (goes : (Indexer.open c).run.Goes w t (.ok s') w') : Comes x c base s' w'
  | run {s s' : IndexState} {w w' : World} {t : List Answered} {force : Bool} {r : Except IndexError IndexStats}
      (before : Comes x c base s w) (goes : (x.run force).Goes s w t r s' w') : Comes x c base s' w'
  | indexFile {s s' : IndexState} {w w' : World} {t : List Answered} {path : Path} {r : Except IndexError IndexStats}
      (before : Comes x c base s w) (goes : (x.indexFile path).Goes s w t r s' w') : Comes x c base s' w'
  | mark {s s' : IndexState} {w w' : World} {t : List Answered} {uri : String} {r : Except IndexError Unit}
      (before : Comes x c base s w) (goes : (onDirty (DirtyLog.mark uri)).Goes s w t r s' w') : Comes x c base s' w'
  | clear {s s' : IndexState} {w w' : World} {t : List Answered} {uri : String} {r : Except IndexError Unit}
      (before : Comes x c base s w) (goes : (onDirty (DirtyLog.clear uri)).Goes s w t r s' w') : Comes x c base s' w'
  | drain {s s' : IndexState} {w w' : World} {t : List Answered} {r : Except IndexError (List String)}
      (before : Comes x c base s w) (goes : (onDirty DirtyLog.drain).Goes s w t r s' w') : Comes x c base s' w'
  /-- Whatever leaves the log and the handle on it alone, as sweeps, resets and searches do, or happens outside of
  the index. -/
  | aside {s s' : IndexState} {w w' : World} (before : Comes x c base s w) (dirty : s'.dirty = s.dirty)
      (under : s'.search.Under c.indexRoot) (left : MarksOf c.indexRoot base w w') : Comes x c base s' w'

/-- **Every state that an index comes to is ready.** -/
theorem Indexer.Comes.ready {c : IndexConfig} {extract : Extractor}
    (made : ∃ parallelism, Indexer.ofConfig c extract parallelism = .ok x) (comes : x.Comes c base s w) : Ready c.indexRoot base c.backend s w := by
  obtain ⟨works, -⟩ := works_ofConfig base made
  induction comes with
  | opened fresh goes => exact goes_open (DirtyLog.openable_fresh fresh _) goes
  | reopened before goes ih => exact goes_open ih.stocked.openable goes
  | run before goes ih => exact keeps_run works _ ih goes
  | indexFile before goes ih => exact keeps_indexFile works _ ih goes
  | mark before goes ih => exact Ready.onDirty (DirtyLog.keeps_mark _) ih goes
  | clear before goes ih => exact Ready.onDirty (DirtyLog.keeps_clear _) ih goes
  | drain before goes ih => exact Ready.onDirty DirtyLog.keeps_drain ih goes
  | aside before dirty under left ih =>
      exact ⟨under, ih.dirty.imp fun _ same => dirty.trans same, left.stocked ih.stocked⟩

end SymbolIndex
