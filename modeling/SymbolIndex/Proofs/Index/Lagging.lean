import Mathlib.Order.Monotone.Basic
import SymbolIndex.Proofs.Index.Queued
import SymbolIndex.Proofs.Index.Withholding

/-!
# Proofs.Index.Lagging — what is kept outside of memory lags behind by whole files

The two buffers of an indexer hold back what a pass takes, and are handed over together between two files once either
has a batch, whatever their sizes. So at every point between two files the store of records, read directly, and the
search index, as it would be opened, hold what was held after some earlier file, the same one for both
(`Site.Lags`). One more file leaves that as it is or makes it what is held now (`Lags.indexRead`); hence it never goes
back (`lastKept`).
-/

namespace SymbolIndex

open Action (outcome)
open World (Unwritten)

set_option autoImplicit false

/-! ## What is kept -/

/-- An index keeps some records and entries outside of memory, whatever the marks and the time of the last build. -/
structure Site.Durable (site : Site) (h : Holdings) (w : World) : Prop where
  records : ∃ l, site.Carries l w ∧ l.records = h.ledger.records
  entries : SearchIndex.Persists site.root h.catalog w site.backend

namespace SearchIndex

variable {root : Path} {base : Address} {backend : Backend} {c c₀ : Catalog} {index : SearchIndex} {w w' : World}

/-- What an index keeps it goes on keeping while its part is left alone. -/
theorem Persists.same (persists : Persists root c₀ w backend) (stands : Stands root base c w backend index)
    (same : World.Same base .search w w') (hosts : w'.disk.Hosts root base) : Persists root c₀ w' backend := by
  cases stands with
  | file stands =>
      obtain ⟨entries, kept, lists⟩ := persists
      refine ⟨entries, ?_, lists⟩
      rw [FileIndex.loaded_congr stands.writable.hosts hosts (same.disk _ (Part.owns_of_name (by simp [Part.names])))]
      exact kept
  | table stands =>
      obtain ⟨rows, there, shown⟩ := persists
      have tables := same.tables
      simp only [Part.tables, Database.mk.injEq] at tables
      obtain ⟨-, -, -, -, -, -, -, -, search, lastSearchId, -⟩ := tables
      exact ⟨rows, search.trans there, lastSearchId ▸ shown⟩

theorem Synced.same (synced : index.Synced root w.disk) (stands : Stands root base c w backend index)
    (same : World.Same base .search w w') (hosts : w'.disk.Hosts root base) : index.Synced root w'.disk := by
  cases stands with
  | file stands =>
      show FileIndex.loaded root w'.disk = _
      rw [FileIndex.loaded_congr stands.writable.hosts hosts (same.disk _ (Part.owns_of_name (by simp [Part.names])))]
      exact synced
  | table stands => trivial

/-- An index in which nothing waits keeps the catalog that it stands for. -/
theorem Stands.persists_of_idle (stands : Stands root base c w backend index) (synced : index.Synced root w.disk)
    (idle : index.Idle) : Persists root c w backend := by
  cases stands with
  | @file i stands =>
      have lists := stands.lists
      rw [FileIndex.settle_of_empty idle] at lists
      exact ⟨i.entries, synced, lists⟩
  | @table i stands =>
      obtain ⟨c₀, holds, rfl⟩ := stands
      rw [show i.pending = [] from idle]
      exact holds

end SearchIndex

namespace Site.Durable

variable {site : Site} {h h' : Holdings} {s : IndexState} {w w' : World}

/-- The store read directly answers with what is kept. -/
theorem get_ok (durable : site.Durable h w) {key : RecordKey} (used : site.used key.identifier)
    (legible : key.Legible) : Script.outcome (site.store.get key) w = (.ok (h.ledger.get? key), w) := by
  obtain ⟨l, carries, same⟩ := durable.records
  rw [carries.get_ok used legible, Ledger.get?, Ledger.get?, same]

theorem unwritten (durable : site.Durable h w) (same : w.Unwritten w') : site.Durable h w' := by
  obtain ⟨⟨l, carries, records⟩, entries⟩ := durable
  refine ⟨⟨l, carries.unwritten same, records⟩, ?_⟩
  obtain ⟨disk, clock, database⟩ := w'
  obtain ⟨rfl, rfl⟩ := same
  obtain ⟨_ | _, root, base, S, distinct⟩ := site <;> exact entries

/-- What is kept lies in two parts of the index. -/
theorem same (durable : site.Durable h w) (stands : site.Stands h' s w) (records : World.Same site.base .records w w')
    (search : World.Same site.base .search w w') (hosts : w'.disk.Hosts site.root site.base) : site.Durable h w' := by
  obtain ⟨l, carries, same⟩ := durable.records
  exact ⟨⟨l, carries.same records hosts, same⟩, durable.entries.same stands.search search hosts⟩

end Site.Durable

/-! ## Handing over -/

/-- Nothing waits in either buffer. -/
structure IndexState.Idle (s : IndexState) : Prop where
  buffer : s.buffer.pending = .empty
  search : s.search.Idle

/-- What waits in the buffers goes on waiting while the part of the search index is left alone. -/
theorem IndexState.Withholds.same {site : Site} {h : Holdings} {s s' : IndexState} {w w' : World}
    (withholds : s.Withholds site.root w.disk) (stands : site.Stands h s w) (same : World.Same site.base .search w w')
    (hosts : w'.disk.Hosts site.root site.base) (buffer : s'.buffer.autoFlush = s.buffer.autoFlush)
    (search : s'.search = s.search) : s'.Withholds site.root w'.disk where
  buffer := buffer.trans withholds.buffer
  search := search ▸ withholds.search
  synced := search ▸ withholds.synced.same stands.search same hosts

namespace Site.Stands

variable {site : Site} {x : Indexer} {h : Holdings} {s : IndexState} {w : World}

/-- The records that wait are handed over. -/
theorem hand_records (stands : site.Stands h s w) (withholds : s.Withholds site.root w.disk) (at_ : x.At site) :
    ∃ w', outcome (Indexer.onBuffer (Buffer.flush x.store)) s w = (.ok (), { s with buffer := s.buffer.clear }, w') ∧
      site.Stands h { s with buffer := s.buffer.clear } w' ∧
      IndexState.Withholds site.root w'.disk { s with buffer := s.buffer.clear } := by
  obtain ⟨w', done, carries, touch⟩ := stands.records.flush_ok
  have records : site.Buffers h.ledger s.buffer.clear w' := .of_empty carries rfl
  rw [← at_.store] at done
  exact ⟨w', Indexer.onBuffer_ok done, stands.of_records touch records stands.uses,
    withholds.same stands (touch.same (by decide)) (touch.hosts stands.hosts) rfl rfl⟩

/-- The entries that wait are handed over. -/
theorem hand_entries (stands : site.Stands h s w) (withholds : s.Withholds site.root w.disk) :
    ∃ i w', outcome (Indexer.onSearch SearchIndex.flush) s w = (.ok (), { s with search := i }, w') ∧
      site.Stands h { s with search := i } w' ∧ IndexState.Withholds site.root w'.disk { s with search := i } ∧
      i.Idle := by
  obtain ⟨i, w', done, search, apart⟩ := stands.search.flush
  obtain ⟨synced, idle, lazy⟩ := stands.search.flush_synced withholds.synced done
  exact ⟨i, w', Indexer.onSearch_ok done, stands.of_search (.of_search apart search) search,
    ⟨withholds.buffer, lazy.trans withholds.search, synced⟩, idle⟩

end Site.Stands

/-! ## Between two files -/

/-- An indexer stands for what it holds, and other holdings are what is kept outside of memory. -/
structure Site.Lags (site : Site) (d h : Holdings) (s : IndexState) (w : World) : Prop where
  stands : site.Stands h s w
  withholds : s.Withholds site.root w.disk
  durable : site.Durable d w

namespace Site.Lags

variable {site : Site} {x : Indexer} {d h h' : Holdings} {s s' : IndexState} {w w' : World} {p : Part}

/-- What is kept is what is held when nothing waits. -/
theorem of_idle (stands : site.Stands h s w) (withholds : s.Withholds site.root w.disk) (idle : s.Idle) :
    site.Lags h h s w := by
  obtain ⟨l, carries, same⟩ := stands.records.below
  refine ⟨stands, withholds, ⟨l, carries, ?_⟩, stands.search.persists_of_idle withholds.synced idle.search⟩
  rw [same, Buffer.onto_of_empty idle.buffer]

/-- What is done to another part of the index leaves what is kept as it is. -/
theorem of_touch (lags : site.Lags d h s w) (touch : site.Touch p w w') (records : p ≠ .records) (search : p ≠ .search)
    (stands : site.Stands h' s' w') (buffer : s'.buffer = s.buffer) (index : s'.search = s.search) :
    site.Lags d h' s' w' where
  stands := stands
  withholds := lags.withholds.same lags.stands (touch.same search.symm) stands.hosts (by rw [buffer]) index
  durable := lags.durable.same lags.stands (touch.same records.symm) (touch.same search.symm) stands.hosts

/-- What waits is handed over: what is held is kept, and nothing waits any more. -/
theorem flush (lags : site.Lags d h s w) (at_ : x.At site) :
    ∃ s' w', outcome x.flush s w = (.ok (), s', w') ∧ site.Lags h h s' w' ∧ s'.Idle := by
  obtain ⟨w₁, first, stands₁, withholds₁⟩ := lags.stands.hand_records lags.withholds at_
  obtain ⟨i, w₂, second, stands₂, withholds₂, idle⟩ := stands₁.hand_entries withholds₁
  refine ⟨_, w₂, ?_, .of_idle stands₂ withholds₂ ⟨rfl, idle⟩, rfl, idle⟩
  rw [Indexer.flush, Action.outcome_bind_ok first, second]

theorem flushIfFull (lags : site.Lags d h s w) (at_ : x.At site) :
    ∃ s' w', outcome x.flushIfFull s w = (.ok (), s', w') ∧ (site.Lags d h s' w' ∨ site.Lags h h s' w') := by
  rw [Indexer.flushIfFull, Action.outcome_bind_ok (Action.outcome_get _ _)]
  split
  · obtain ⟨s', w', done, lags', -⟩ := lags.flush at_
    exact ⟨s', w', done, .inr lags'⟩
  · exact ⟨s, w, rfl, .inl lags⟩

theorem mark (lags : site.Lags d h s w) (uri : String) :
    ∃ marks s' w', outcome (Indexer.onDirty (DirtyLog.mark uri)) s w = (.ok (), s', w') ∧
      site.Lags d { h with marks := marks } s' w' := by
  obtain ⟨marks, log, w', done, listed, apart, -⟩ := lags.stands.marks.mark uri
  have touch : site.Touch .marks w w' := .of_marks apart listed
  exact ⟨marks, _, w', Indexer.onDirty_ok done,
    lags.of_touch touch (by decide) (by decide) (lags.stands.of_marks touch listed) rfl rfl⟩

theorem clear (lags : site.Lags d h s w) (uri : String) :
    ∃ s' w', outcome (Indexer.onDirty (DirtyLog.clear uri)) s w = (.ok (), s', w') ∧
      site.Lags d (h.cleared uri) s' w' := by
  obtain ⟨log, w', done, listed, apart⟩ := lags.stands.marks.clear uri
  have touch : site.Touch .marks w w' := .of_marks apart listed
  exact ⟨_, w', Indexer.onDirty_ok done,
    lags.of_touch touch (by decide) (by decide) (lags.stands.of_marks touch listed) rfl rfl⟩

/-- A document that is applied waits in the buffers. -/
theorem apply (lags : site.Lags d h s w) (at_ : x.At site) {uri : String} {records : List Record}
    (admits : site.Admits uri records) :
    ∃ n s' w', outcome (x.apply uri records) s w = (.ok n, s', w') ∧
      site.Lags d (h.applied uri records (max 0 w.clock)) s' w' := by
  obtain ⟨s', w', done, stands, -⟩ := lags.stands.apply_ok at_ admits
  have stays := lags.stands.apply_withholds at_ admits lags.withholds
  have state := stays.state
  have world := stays.world
  rw [done] at state world
  refine ⟨_, s', w', done, stands, ?_, lags.durable.unwritten world⟩
  rw [show w'.disk = w.disk from world.disk]
  exact state

end Site.Lags

/-! ## One more file -/

/-- What an index holds once a file is dealt with, but for the marks. -/
def Indexer.taken (x : Indexer) (f : Reading) (time : Int64) (h : Holdings) : Holdings :=
  match x.gained f with
  | some records => h.applied f.1.uri records time
  | none => h

/-- A point between two files of a pass, and what is held there. -/
structure Boundary where
  stats : IndexStats
  state : IndexState
  world : World
  held : Holdings

/-- A file is dealt with between two points. -/
structure Indexer.Advances (x : Indexer) (f : Reading) (a b : Boundary) : Prop where
  ran : outcome (x.indexRead a.stats f) a.state a.world = (.ok b.stats, b.state, b.world)
  held : b.held = x.taken f (max 0 a.world.clock) a.held

/-- What was read may be taken into the index at a site. -/
structure Site.Accepts (site : Site) (x : Indexer) (f : Reading) : Prop where
  own : f.Own
  admits : ∀ records, x.gained f = some records → site.Admits f.1.uri records

/-- At a point, what is kept outside of memory is what was held at another. -/
def Boundary.Keeps (site : Site) (d : Holdings) (a : Boundary) : Prop :=
  ∃ marks, site.Lags d { a.held with marks := marks } a.state a.world

namespace Site.Lags

variable {site : Site} {x : Indexer} {d h : Holdings} {s : IndexState} {w : World}

/-- Marks are not among what is kept. -/
theorem unmark {marks : List String} (lags : site.Lags { d with marks := marks } h s w) : site.Lags d h s w :=
  ⟨lags.stands, lags.withholds, ⟨lags.durable.records, lags.durable.entries⟩⟩

/-- One more file: what is kept stays what it was, or it becomes what is held now. -/
theorem indexRead (lags : site.Lags d h s w) (at_ : x.At site) {f : Reading} (accepts : site.Accepts x f)
    (stats : IndexStats) : ∃ stats' marks s' w', outcome (x.indexRead stats f) s w = (.ok stats', s', w') ∧
      (site.Lags d { x.taken f (max 0 w.clock) h with marks := marks } s' w' ∨
        site.Lags (x.taken f (max 0 w.clock) h) { x.taken f (max 0 w.clock) h with marks := marks } s' w') := by
  cases gained : x.gained f with
  | none =>
      obtain ⟨marks, s', w', marked, lags'⟩ := lags.mark f.1.uri
      have same : x.taken f (max 0 w.clock) h = h := by rw [Indexer.taken, gained]
      refine ⟨{ stats with errors := stats.errors + 1 }, marks, s', w', ?_, .inl (by rwa [same])⟩
      rw [Indexer.indexRead_none accepts.own gained, Indexer.fail, Action.outcome_bind_ok marked, Action.outcome_pure]
  | some records =>
      have same : x.taken f (max 0 w.clock) h = h.applied f.1.uri records (max 0 w.clock) := by
        rw [Indexer.taken, gained]
      obtain ⟨n, s₁, w₁, applied, lags₁⟩ := lags.apply at_ (accepts.admits records gained)
      obtain ⟨s₂, w₂, cleared, lags₂⟩ := lags₁.clear f.1.uri
      obtain ⟨s₃, w₃, flushed, lags₃⟩ := lags₂.flushIfFull at_
      refine ⟨{ stats with indexed := stats.indexed + 1, records := stats.records + n },
        ((h.applied f.1.uri records (max 0 w.clock)).cleared f.1.uri).marks, s₃, w₃, ?_, ?_⟩
      · rw [Indexer.indexRead_some accepts.own gained, Action.outcome_bind_ok applied,
          Action.outcome_bind_ok cleared, Action.outcome_bind_ok flushed, Action.outcome_pure]
      · rw [same]
        exact lags₃.imp_right unmark

end Site.Lags

/-- A file that is taken: what is kept stays what it was, or it becomes what is held now. -/
theorem Indexer.Advances.keeps {site : Site} {x : Indexer} {f : Reading} {d : Holdings} {a b : Boundary}
    (advances : x.Advances f a b) (at_ : x.At site) (accepts : site.Accepts x f) (keeps : a.Keeps site d) :
    b.Keeps site d ∨ b.Keeps site b.held := by
  obtain ⟨marks, lags⟩ := keeps
  obtain ⟨stats', marks', s', w', ran, either⟩ := lags.indexRead at_ accepts a.stats
  obtain ⟨-, rfl, rfl⟩ := History.agree advances.ran ran
  have taken : ∃ marks'', x.taken f (max 0 a.world.clock) { a.held with marks := marks } =
      { b.held with marks := marks'' } := by
    rw [advances.held, Indexer.taken, Indexer.taken]
    cases x.gained f with
    | none => exact ⟨marks, rfl⟩
    | some records => exact ⟨marks, Holdings.applied_marks _ _ _ _ _⟩
  obtain ⟨marks'', same⟩ := taken
  -- Marks come and go with every file, but what is kept does not hang on them.
  rw [same] at either
  exact either.imp (⟨marks', ·⟩) fun lags => ⟨marks', lags.unmark⟩

/-! ## One file after the other -/

/-- The step whose state is kept after each step: the one before, as long as it still is, or else the last. -/
noncomputable def lastKept (P : Nat → Nat → Prop) : Nat → Nat
  | 0 => 0
  | i + 1 =>
    have := Classical.propDecidable (P (i + 1) (lastKept P i))
    if P (i + 1) (lastKept P i) then lastKept P i else i + 1

theorem lastKept_le (P : Nat → Nat → Prop) (i : Nat) : lastKept P i ≤ i := by
  induction i with
  | zero => exact Nat.le_refl 0
  | succ i ih =>
      simp only [lastKept]
      split <;> omega

/-- What is kept never goes back. -/
theorem monotone_lastKept (P : Nat → Nat → Prop) : Monotone (lastKept P) := by
  refine monotone_nat_of_le_succ fun i => ?_
  have before := lastKept_le P i
  simp only [lastKept]
  split <;> omega

/-- If each step leaves what is kept as it is or keeps its own, something is kept after all of them. -/
theorem lastKept_keeps {P : Nat → Nat → Prop} {n : Nat} (start : P 0 0)
    (step : ∀ i < n, ∀ j, P i j → P (i + 1) j ∨ P (i + 1) (i + 1)) : ∀ i ≤ n, P i (lastKept P i) := by
  intro i within
  induction i with
  | zero => exact start
  | succ i ih =>
      simp only [lastKept]
      split
      · assumption
      next changed => exact (step i within _ (ih (by omega))).resolve_left changed

variable {x : Indexer} {site : Site} {s s' : IndexState} {w w' : World} {stats stats' : IndexStats}
  {found : List Reading}

/-- The points between the files of a pass. -/
theorem exists_boundaries (a : Boundary)
    (done : outcome (found.foldlM x.indexRead a.stats) a.state a.world = (.ok stats', s', w')) :
    ∃ m : Nat → Boundary, m 0 = a ∧ (∀ i (inside : i < found.length), x.Advances found[i] (m i) (m (i + 1))) ∧
      ∀ i ≤ found.length, outcome ((found.take i).foldlM x.indexRead a.stats) a.state a.world =
        (.ok (m i).stats, (m i).state, (m i).world) := by
  induction found generalizing a with
  | nil => exact ⟨fun _ => a, rfl, nofun, fun i _ => by rw [List.take_nil]; rfl⟩
  | cons f found ih =>
      rw [List.foldlM_cons] at done
      obtain ⟨stats₁, s₁, w₁, first, rest⟩ := Action.outcome_bind_eq_ok.1 done
      obtain ⟨m, start, advances, reached⟩ := ih ⟨stats₁, s₁, w₁, x.taken f (max 0 a.world.clock) a.held⟩ rest
      refine ⟨fun | 0 => a | i + 1 => m i, rfl, fun i inside => ?_, fun i within => ?_⟩
      · cases i with
        | zero =>
            show x.Advances f a (m 0)
            rw [start]
            exact ⟨first, rfl⟩
        | succ i => exact advances i (by simpa using inside)
      · cases i with
        | zero => rfl
        | succ i =>
            rw [List.take_succ_cons, List.foldlM_cons, Action.outcome_bind_ok first]
            exact reached i (by simpa using within)

/-- What a pass reads at a candidate it may take into the index. -/
theorem Indexer.Told.accepts {terms : Terms} {c : Candidate} (own : c = .ofPath c.path)
    (told : x.Told site terms _ (.read c.path) (w.disk.read c.path)) : site.Accepts x (c, c.documentIn w) where
  own := by
    refine ⟨?_, fun document found => ?_⟩
    · rw [own]
      exact Uri.normalize_normalize _
    · obtain ⟨bytes, text, -, -, rfl⟩ := Candidate.documentIn_eq_ok.1 found
      rfl
  admits records gained := by
    cases found : c.documentIn w with
    | error e =>
        rw [Indexer.gained, found] at gained
        cases gained
    | ok document =>
        rw [Indexer.gained, found] at gained
        obtain ⟨admits, -⟩ := told.document own found gained
        obtain ⟨bytes, text, -, -, rfl⟩ := Candidate.documentIn_eq_ok.1 found
        exact admits

/-- The files of a chunk are read before the first of them is dealt with, and that changes nothing. -/
theorem Indexer.outcome_indexChunk (x : Indexer) (stats : IndexStats) (chunk : List Candidate) (s : IndexState)
    (w : World) : outcome (x.indexChunk stats chunk) s w =
      outcome ((chunk.map fun c => (c, c.documentIn w)).foldlM x.indexRead stats) s w := by
  rw [indexChunk, Action.outcome_bind_ok (Candidate.outcome_readAll chunk s w)]

/-- What a pass reads, chunk by chunk, it deals with one by one, and each file was read in a world that the pass had
come to by then. -/
theorem exists_readings {terms : Terms} {pieces : List (List Candidate)}
    (own : ∀ c ∈ pieces.flatten, c = .ofPath c.path)
    (along : Action.Along (x.Told site terms) (pieces.foldlM x.indexChunk stats) s w)
    (done : outcome (pieces.foldlM x.indexChunk stats) s w = (.ok stats', s', w')) :
    ∃ found : List Reading, found.map Prod.fst = pieces.flatten ∧ (∀ f ∈ found, site.Accepts x f) ∧
      outcome (found.foldlM x.indexRead stats) s w = (.ok stats', s', w') ∧
      ∀ i (inside : i < found.length), ∃ k ≤ i, ∃ stats₁ s₁ w₁,
        outcome ((found.take k).foldlM x.indexRead stats) s w = (.ok stats₁, s₁, w₁) ∧
          found[i].2 = found[i].1.documentIn w₁ := by
  induction pieces generalizing stats s w with
  | nil => exact ⟨[], rfl, nofun, done, nofun⟩
  | cons chunk pieces ih =>
      rw [List.flatten_cons] at own ⊢
      rw [List.foldlM_cons] at along done
      obtain ⟨stats₁, s₁, w₁, first, rest⟩ := Action.outcome_bind_eq_ok.1 done
      obtain ⟨told, onward⟩ := (Action.along_bind first).1 along
      rw [Indexer.indexChunk] at told
      rw [x.outcome_indexChunk] at first
      obtain ⟨found, taken, accepts, ran, there⟩ :=
        ih (fun c member => own c (List.mem_append_right _ member)) onward rest
      let here : List Reading := chunk.map fun c => (c, c.documentIn w)
      refine ⟨here ++ found, ?_, fun f member => ?_, ?_, fun i inside => ?_⟩
      · rw [List.map_append, taken, List.map_map]
        exact congrArg (· ++ pieces.flatten) (List.map_id chunk)
      · rcases List.mem_append.1 member with member | member
        · obtain ⟨c, among, rfl⟩ := List.mem_map.1 member
          exact Indexer.Told.accepts (own c (List.mem_append_left _ among))
            (Candidate.along_readAll told.first c among)
        · exact accepts f member
      · rw [List.foldlM_append, Action.outcome_bind_ok first, ran]
      · rw [List.getElem_append]
        split
        next early =>
          refine ⟨0, Nat.zero_le i, stats, s, w, rfl, ?_⟩
          simp [here]
        next late =>
          -- A later chunk was read when all the files before it had been dealt with, or at a point after that.
          rw [List.length_append] at inside
          obtain ⟨k, earlier, stats₂, s₂, w₂, reached, looked⟩ := there (i - here.length) (by omega)
          refine ⟨here.length + k, by omega, stats₂, s₂, w₂, ?_, looked⟩
          rw [List.take_length_add_append, List.foldlM_append, Action.outcome_bind_ok first, reached]

end SymbolIndex
