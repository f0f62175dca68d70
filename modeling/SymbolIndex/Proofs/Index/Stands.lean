import SymbolIndex.Proofs.Index.Holdings
import SymbolIndex.Proofs.Index.Records

/-!
# Proofs.Index.Stands — an indexer stands for what its index holds

The state of an indexer and the world together stand for holdings (`Site.Stands`): its buffers for the
records and the entries, its log for the marks. An operation on one part changes what that part stands for
and nothing else (`Stands.of_records`, `of_search`, `of_marks`), so each small step of a pass is a lemma of
a few lines: look up, write, flush, mark, clear.
-/

namespace SymbolIndex

open Action (outcome)
open World (Still)

set_option autoImplicit false

/-- An indexer works on the index at a site. -/
structure Indexer.At (x : Indexer) (site : Site) : Prop where
  root : x.root = site.root
  store : x.store = site.store

namespace Indexer

variable {α : Type} {s : IndexState} {w w' : World} {a : α}

theorem onBuffer_ok {action : Buffered α} {b : Buffer}
    (done : outcome action s.buffer w = (.ok a, b, w')) :
    outcome (onBuffer action) s w = (.ok a, { s with buffer := b }, w') := by
  rw [onBuffer, Action.outcome_within, done]
  rfl

theorem onSearch_ok {action : Searched α} {i : SearchIndex}
    (done : outcome action s.search w = (.ok a, i, w')) :
    outcome (onSearch action) s w = (.ok a, { s with search := i }, w') := by
  rw [onSearch, Action.outcome_within, done]
  rfl

theorem onDirty_ok {action : Marked α} {log : DirtyLog}
    (done : outcome action s.dirty w = (.ok a, log, w')) :
    outcome (onDirty action) s w = (.ok a, { s with dirty := log }, w') := by
  rw [onDirty, Action.outcome_within, done]
  rfl

theorem onStore_ok {script : Stored α} (done : Script.outcome script w = (.ok a, w')) :
    outcome (onStore script : Indexed α) s w = (.ok a, s, w') := by
  have ran : Script.run (script.run.bind fun r => .done (r.mapError IndexError.store)) w = (.ok a, w') := by
    have both := Script.run_bind script.run (fun r => .done (r.mapError IndexError.store)) w
    have done' : Script.run script.run w = (.ok a, w') := done
    rw [done'] at both
    exact both
  rw [onStore, Action.outcome_ofScript, ran]

end Indexer

/-- A state and a world stand for what the index at a site holds. -/
structure Site.Stands (site : Site) (h : Holdings) (s : IndexState) (w : World) : Prop where
  records : site.Buffers h.ledger s.buffer w
  search : SearchIndex.Stands site.root site.base h.catalog w site.backend s.search
  marks : DirtyLog.Stands site.root site.base h.marks w site.backend s.dirty
  hosts : w.disk.Hosts site.root site.base
  lock : ∀ m, w.disk.node? (Indexer.lockPart :: site.base) ≠ some (.directory m)
  uses : site.Uses h.ledger

namespace Site.Stands

variable {site : Site} {x : Indexer} {h : Holdings} {s : IndexState} {w w' : World} {key : RecordKey}
  {r : Record}

/-! ## One part changes -/

/-- What changes nothing in the index changes nothing that it stands for. -/
theorem same (stands : site.Stands h s w) (same : ∀ p, World.Same site.base p w w')
    (hosts : w'.disk.Hosts site.root site.base) : site.Stands h s w' where
  records := stands.records.same (same .records) hosts
  search := stands.search.same (same .search) hosts
  marks := stands.marks.same (same .marks) hosts
  hosts := hosts
  lock m := by
    rw [(same .lock).disk _ (Part.owns_of_name (by simp [Part.names]))]
    exact stands.lock m
  uses := stands.uses

theorem lock_touch {p : Part} (stands : site.Stands h s w) (touch : site.Touch p w w')
    (other : Part.lock ≠ p) (m : Int) :
    w'.disk.node? (Indexer.lockPart :: site.base) ≠ some (.directory m) := by
  rw [(touch.same other).disk _ (Part.owns_of_name (by simp [Part.names]))]
  exact stands.lock m

theorem of_records (stands : site.Stands h s w) (touch : site.Touch .records w w') {l : Ledger} {b : Buffer}
    (records : site.Buffers l b w') (uses : site.Uses l) :
    site.Stands { h with ledger := l } { s with buffer := b } w' where
  records := records
  search := stands.search.same (touch.same (by decide)) (touch.hosts stands.hosts)
  marks := stands.marks.same (touch.same (by decide)) (touch.hosts stands.hosts)
  hosts := touch.hosts stands.hosts
  lock := stands.lock_touch touch (by decide)
  uses := uses

theorem of_search (stands : site.Stands h s w) (touch : site.Touch .search w w') {c : Catalog}
    {i : SearchIndex} (search : SearchIndex.Stands site.root site.base c w' site.backend i) :
    site.Stands { h with catalog := c } { s with search := i } w' where
  records := stands.records.same (touch.same (by decide)) (touch.hosts stands.hosts)
  search := search
  marks := stands.marks.same (touch.same (by decide)) (touch.hosts stands.hosts)
  hosts := touch.hosts stands.hosts
  lock := stands.lock_touch touch (by decide)
  uses := stands.uses

theorem of_marks (stands : site.Stands h s w) (touch : site.Touch .marks w w') {marks : List String}
    {log : DirtyLog} (listed : DirtyLog.Stands site.root site.base marks w' site.backend log) :
    site.Stands { h with marks := marks } { s with dirty := log } w' where
  records := stands.records.same (touch.same (by decide)) (touch.hosts stands.hosts)
  search := stands.search.same (touch.same (by decide)) (touch.hosts stands.hosts)
  marks := listed
  hosts := touch.hosts stands.hosts
  lock := stands.lock_touch touch (by decide)
  uses := stands.uses

/-! ## Records -/

theorem find?_ok (stands : site.Stands h s w) (at_ : x.At site) (key : RecordKey) (used : site.used key.identifier)
    (legible : key.Legible) : outcome (x.find? key) s w = (.ok (h.ledger.get? key), s, w) := by
  rw [Indexer.find?, Action.outcome_bind_ok (Action.outcome_get _ _), at_.store]
  exact Indexer.onStore_ok (stands.records.find?_ok key used legible)

theorem write_ok (stands : site.Stands h s w) (at_ : x.At site)
    (used : ∀ i ∈ r.identifiers, site.used i) :
    ∃ s' w', outcome (x.write r) s w = (.ok (), s', w') ∧
      site.Stands { h with ledger := h.ledger.write r } s' w' ∧ Still site.root site.base w w' := by
  obtain ⟨b, w', done, records, touch⟩ := stands.records.write_ok (used _ r.identifier_mem)
  refine ⟨_, w', ?_, stands.of_records touch records (stands.uses.write used), touch.still⟩
  rw [Indexer.write, at_.store]
  exact Indexer.onBuffer_ok done

theorem flushRecords_ok (stands : site.Stands h s w) (at_ : x.At site) :
    ∃ s' w', outcome (Indexer.onBuffer (Buffer.flush x.store)) s w = (.ok (), s', w') ∧
      site.Stands h s' w' ∧ Still site.root site.base w w' := by
  obtain ⟨w', done, carries, touch⟩ := stands.records.flush_ok
  have records : site.Buffers h.ledger s.buffer.clear w' := .of_empty carries rfl
  refine ⟨_, w', ?_, stands.of_records touch records stands.uses, touch.still⟩
  rw [at_.store]
  exact Indexer.onBuffer_ok done

theorem markUpdated_ok (stands : site.Stands h s w) (at_ : x.At site) (time : Int64) :
    ∃ w', outcome (Indexer.onStore (x.store.markUpdated time)) s w = (.ok (), s, w') ∧
      site.Stands { h with ledger := h.ledger.markUpdated time } s w' ∧
      Still site.root site.base w w' := by
  obtain ⟨w', done, records, touch⟩ := stands.records.markUpdated_ok time
  refine ⟨w', ?_, stands.of_records touch records stands.uses, touch.still⟩
  rw [at_.store]
  exact Indexer.onStore_ok done

/-! ## Entries -/

theorem writeEntry_ok (stands : site.Stands h s w) (r : Record) :
    ∃ s' w', outcome (Indexer.onSearch (SearchIndex.write r)) s w = (.ok (), s', w') ∧
      site.Stands { h with catalog := h.catalog.write r } s' w' ∧ Still site.root site.base w w' := by
  obtain ⟨i, w', done, search, apart⟩ := stands.search.write r
  have touch : site.Touch .search w w' := .of_search apart search
  exact ⟨_, w', Indexer.onSearch_ok done, stands.of_search touch search, touch.still⟩

theorem removeEntry_ok (stands : site.Stands h s w) (r : Record) :
    ∃ s' w', outcome (Indexer.onSearch (SearchIndex.remove r)) s w = (.ok (), s', w') ∧
      site.Stands { h with catalog := h.catalog.remove r } s' w' ∧ Still site.root site.base w w' := by
  obtain ⟨i, w', done, search, apart⟩ := stands.search.remove r
  have touch : site.Touch .search w w' := .of_search apart search
  exact ⟨_, w', Indexer.onSearch_ok done, stands.of_search touch search, touch.still⟩

theorem flushEntries_ok (stands : site.Stands h s w) :
    ∃ s' w', outcome (Indexer.onSearch SearchIndex.flush) s w = (.ok (), s', w') ∧
      site.Stands h s' w' ∧ Still site.root site.base w w' := by
  obtain ⟨i, w', done, search, apart⟩ := stands.search.flush
  have touch : site.Touch .search w w' := .of_search apart search
  exact ⟨_, w', Indexer.onSearch_ok done, stands.of_search touch search, touch.still⟩

/-! ## Both -/

theorem flush_ok (stands : site.Stands h s w) (at_ : x.At site) :
    ∃ s' w', outcome x.flush s w = (.ok (), s', w') ∧ site.Stands h s' w' ∧
      Still site.root site.base w w' := by
  obtain ⟨s₁, w₁, first, stands₁, still₁⟩ := stands.flushRecords_ok at_
  obtain ⟨s₂, w₂, second, stands₂, still₂⟩ := stands₁.flushEntries_ok
  exact ⟨s₂, w₂, by rw [Indexer.flush, Action.outcome_bind_ok first, second], stands₂,
    still₁.trans still₂⟩

theorem flushIfFull_ok (stands : site.Stands h s w) (at_ : x.At site) :
    ∃ s' w', outcome x.flushIfFull s w = (.ok (), s', w') ∧ site.Stands h s' w' ∧
      Still site.root site.base w w' := by
  rw [Indexer.flushIfFull, Action.outcome_bind_ok (Action.outcome_get _ _)]
  split
  · exact stands.flush_ok at_
  · exact ⟨s, w, rfl, stands, .refl _ _ _⟩

/-! ## Marks -/

theorem mark_ok (stands : site.Stands h s w) (uri : String) :
    ∃ marks s' w', outcome (Indexer.onDirty (DirtyLog.mark uri)) s w = (.ok (), s', w') ∧
      site.Stands { h with marks := marks } s' w' ∧ Still site.root site.base w w' ∧
      (marks = h.marks ∨ marks = h.marks ++ DirtyLog.added site.backend (Uri.normalize uri)) ∧
      (DirtyLog.added site.backend (Uri.normalize uri) = [Uri.normalize uri] →
        Uri.normalize uri ∈ marks) := by
  obtain ⟨marks, log, w', done, listed, apart, grown, there⟩ := stands.marks.mark uri
  have touch : site.Touch .marks w w' := .of_marks apart listed
  exact ⟨marks, _, w', Indexer.onDirty_ok done, stands.of_marks touch listed, touch.still, grown, there⟩

theorem clear_ok (stands : site.Stands h s w) (uri : String) :
    ∃ s' w', outcome (Indexer.onDirty (DirtyLog.clear uri)) s w = (.ok (), s', w') ∧
      site.Stands (h.cleared uri) s' w' ∧ Still site.root site.base w w' := by
  obtain ⟨log, w', done, listed, apart⟩ := stands.marks.clear uri
  have touch : site.Touch .marks w w' := .of_marks apart listed
  exact ⟨_, w', Indexer.onDirty_ok done, stands.of_marks touch listed, touch.still⟩

end Site.Stands

end SymbolIndex
