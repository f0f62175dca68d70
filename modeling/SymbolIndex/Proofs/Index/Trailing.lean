import SymbolIndex.Proofs.Index.Lagging

/-!
# Proofs.Index.Trailing — what is kept outside of memory trails behind a pass

A pass is taken apart into its candidates, one file after the other, and the end (`Indexer.Course`). From file to file
what is kept outside of memory stays or comes to what is held, and so trails behind by whole files (`Site.Trails`).

No operation lets a buffer hand over on its own, and none leaves the store and the search index with different
holdings (`History.lags`). So this is so for every pass of an index that has been opened and used, if it begins with
empty buffers (`History.perform_trails`).
-/

namespace SymbolIndex

open Action (outcome)

set_option autoImplicit false

/-! ## The course of a pass -/

/-- How some candidates are indexed, file by file: which are chosen, what lies between one file and the next, and the
end. Each file is read at a point that is come to by then. -/
structure Indexer.Course (x : Indexer) (force : Bool) (paths : List Path) (found : List Reading) (m : Nat → Boundary)
    (s' : IndexState) (w' : World) : Prop where
  chosen : ∃ choice, outcome (paths.foldlM (x.consider force) { stats := { candidates := paths.length } }) (m 0).state
      (m 0).world = (.ok choice, (m 0).state, (m 0).world) ∧
    (m 0).stats = choice.stats ∧ found.map Prod.fst = choice.due.reverse
  advances : ∀ i (inside : i < found.length), x.Advances found[i] (m i) (m (i + 1))
  read : ∀ i (inside : i < found.length), ∃ k ≤ i, found[i].2 = found[i].1.documentIn (m k).world
  flushed : outcome x.flush (m found.length).state (m found.length).world = (.ok (), s', w')

/-- What is kept outside of memory trails behind the files that are dealt with. While a file is applied nothing is
written. Between two files the store, read directly, and the search index both keep what was held after the same
earlier file, and later files never take that back. -/
structure Site.Trails (site : Site) (x : Indexer) (found : List Reading) (m : Nat → Boundary) (kept : Nat → Nat) :
    Prop where
  withheld : ∀ i (inside : i < found.length) records, x.gained found[i] = some records →
    site.Withholds (m i).world (x.apply found[i].1.uri records) (m i).state (m i).world
  earlier : ∀ i, kept i ≤ i
  monotone : Monotone kept
  durable : ∀ i ≤ found.length, site.Durable (m (kept i)).held (m i).world
  answers : ∀ i ≤ found.length, ∀ key : RecordKey, site.used key.identifier → key.Legible →
    Script.outcome (x.store.get key) (m i).world = (.ok ((m (kept i)).held.ledger.get? key), (m i).world)

section Courses

variable {site : Site} {x : Indexer} {terms : Terms} {h : Holdings} {s s' : IndexState} {w w' : World}
  {stats : IndexStats} {force : Bool} {paths : List Path} {found : List Reading} {m : Nat → Boundary}

/-- Candidates that are indexed without an error are indexed file by file. -/
theorem Site.Stands.exists_course (stands : site.Stands h s w) (at_ : x.At site)
    (told : Action.Along (x.Told site terms) (x.indexCandidates force paths) s w)
    (done : outcome (x.indexCandidates force paths) s w = (.ok stats, s', w')) (held : Holdings) :
    ∃ found m, (m 0).state = s ∧ (m 0).world = w ∧ (m 0).held = held ∧ (m found.length).stats = stats ∧
      x.Course force paths found m s' w' ∧ ∀ f ∈ found, site.Accepts x f := by
  rw [Indexer.indexCandidates] at told done
  have chose := stands.considerAll_ok at_ told.first
  rw [Action.outcome_bind_ok chose] at done
  obtain ⟨stats', s₁, w₁, dealt, rest⟩ := Action.outcome_bind_eq_ok.1 done
  obtain ⟨_, s₂, w₂, flushed, last⟩ := Action.outcome_bind_eq_ok.1 rest
  rw [Action.outcome_pure] at last
  cases last
  have own : ∀ c ∈ (chunks x.readWidth (h.chosen w force paths).due.reverse).flatten, c = .ofPath c.path := by
    intro c member
    rw [flatten_chunks, List.mem_reverse] at member
    exact Holdings.due_considered (by simp) c member
  obtain ⟨found, among, accepts, ran, read⟩ := exists_readings own ((Action.along_bind chose).1 told).2.first dealt
  rw [flatten_chunks] at among
  obtain ⟨m, start, advances, reached⟩ := exists_boundaries ⟨(h.chosen w force paths).stats, s, w, held⟩ ran
  have final := reached found.length (Nat.le_refl _)
  rw [List.take_length] at final
  obtain ⟨same, rfl, rfl⟩ := History.agree final ran
  refine ⟨found, m, by rw [start], by rw [start], by rw [start], same, ⟨⟨h.chosen w force paths, ?_, ?_, among⟩,
    advances, fun i inside => ?_, flushed⟩, accepts⟩
  · rw [start]
    exact chose
  · rw [start]
  · obtain ⟨k, before, stats₁, s₁, w₁, came, looked⟩ := read i inside
    obtain ⟨-, -, there⟩ := History.agree (reached k (by omega)) came
    exact ⟨k, before, there ▸ looked⟩

/-- From file to file what is kept trails behind. -/
theorem Indexer.Course.trails (course : x.Course force paths found m s' w') (at_ : x.At site)
    (accepts : ∀ f ∈ found, site.Accepts x f) (keeps : (m 0).Keeps site (m 0).held) :
    ∃ kept, site.Trails x found m kept ∧ (m found.length).Keeps site (m (kept found.length)).held := by
  let P : Nat → Nat → Prop := fun i j => (m i).Keeps site (m j).held
  have keeps : ∀ i ≤ found.length, P i (lastKept P i) := lastKept_keeps keeps fun i inside j keeps =>
    (course.advances i inside).keeps at_ (accepts _ (List.getElem_mem inside)) keeps
  have durable : ∀ i ≤ found.length, site.Durable (m (lastKept P i)).held (m i).world := fun i within => by
    obtain ⟨marks, lags⟩ := keeps i within
    exact lags.durable
  refine ⟨lastKept P, ⟨fun i inside records gained => ?_, lastKept_le _, monotone_lastKept _, durable,
    fun i within key used legible => ?_⟩, keeps _ (Nat.le_refl _)⟩
  · obtain ⟨marks, lags⟩ := keeps i (Nat.le_of_lt inside)
    have admits := (accepts _ (List.getElem_mem inside)).admits records gained
    exact lags.stands.apply_withholds at_ admits lags.withholds
  · rw [at_.store]
    exact (durable i within).get_ok used legible

/-- From file to file something is kept. -/
theorem Indexer.Course.keeps {d : Holdings} (course : x.Course force paths found m s' w') (at_ : x.At site)
    (accepts : ∀ f ∈ found, site.Accepts x f) (keeps : (m 0).Keeps site d) :
    ∃ d', (m found.length).Keeps site d' := by
  have each : ∀ i ≤ found.length, ∃ d', (m i).Keeps site d' := fun i within => by
    induction i with
    | zero => exact ⟨d, keeps⟩
    | succ i ih =>
        obtain ⟨d', before⟩ := ih (by omega)
        have either := (course.advances i within).keeps at_ (accepts _ (List.getElem_mem within)) before
        exact either.elim (⟨_, ·⟩) (⟨_, ·⟩)
  exact each _ (Nat.le_refl _)

end Courses

/-! ## Passes -/

namespace Site.Lags

variable {site : Site} {x : Indexer} {c : IndexConfig} {terms : Terms} {d h : Holdings} {s s' : IndexState}
  {w w' : World} {stats stats' : IndexStats} {task : Indexer.Task}

/-- Candidates are given, and nothing but the marks changes. -/
theorem candidates (lags : site.Lags d h s w) (at_ : x.At site) {listings : List Listing} (asks : x.Asks listings)
    {task : Indexer.Task} {paths : List Path} (given : outcome (x.candidates task) s w = (.ok paths, s', w')) :
    ∃ marks, site.Lags d { h with marks := marks } s' w' := by
  obtain ⟨v, locked, stands, touch⟩ := lags.stands.lock_touches at_
  have lags₁ := lags.of_touch touch (by decide) (by decide) stands rfl rfl
  cases task with
  | file path =>
      rw [Indexer.candidates, Action.outcome_bind_ok locked, Action.outcome_pure] at given
      cases given
      exact ⟨h.marks, lags₁⟩
  | run force =>
      have provided := lags₁.stands.provide_touches asks
      rw [Indexer.candidates, Action.outcome_bind_ok locked] at given
      cases all : Listing.all v listings with
      | error e =>
          rw [all] at provided
          cases given.symm.trans provided
      | ok found =>
          rw [all] at provided
          obtain ⟨log, v', ran, stands', touch'⟩ := provided
          cases given.symm.trans ran
          exact ⟨[], lags₁.of_touch touch' (by decide) (by decide) stands' rfl rfl⟩

/-- The clock goes on. -/
theorem tick (lags : site.Lags d h s w) : site.Lags d h s { w with clock := w.clock + 1 } :=
  ⟨lags.stands.now_ok.2.1, lags.withholds, lags.durable.unwritten ⟨rfl, rfl⟩⟩

/-- When a pass is over, the time of the build is noted beside what is kept. -/
theorem close (lags : site.Lags d h s w) (at_ : x.At site) {task : Indexer.Task}
    (done : outcome (x.close stats task) s w = (.ok stats', s', w')) :
    stats' = stats ∧ s' = s ∧ ∃ h', site.Lags d h' s' w' := by
  cases task with
  | file path =>
      cases done
      exact ⟨rfl, rfl, h, lags⟩
  | run force =>
      have lags₁ := lags.tick
      obtain ⟨l, carries, same⟩ := lags₁.durable.records
      obtain ⟨w₂, noted, carries₂, touch⟩ := carries.markUpdated_ok (max 0 w.clock / 1000)
      obtain ⟨w₃, noted', stands₂, -⟩ := lags₁.stands.markUpdated_ok at_ (max 0 w.clock / 1000)
      rw [← at_.store] at noted
      obtain ⟨-, -, rfl⟩ := History.agree (Indexer.onStore_ok noted) noted'
      rw [Indexer.close, Action.outcome_bind_ok (Indexer.outcome_nowSeconds s w),
        Action.outcome_bind_ok noted', Action.outcome_pure] at done
      cases done
      have search := touch.same (show Part.search ≠ .records by decide)
      exact ⟨rfl, rfl, _, stands₂, lags₁.withholds.same lags₁.stands search stands₂.hosts rfl rfl,
        ⟨_, carries₂, same⟩, lags₁.durable.entries.same lags₁.stands.search search stands₂.hosts⟩

/-- A pass is given its candidates, takes its course over them, and is brought to its end. -/
theorem exists_pass (lags : site.Lags d h s w) (made : x.Made c site)
    (told : Action.Along (x.Told site terms) (x.perform task) s w)
    (done : outcome (x.perform task) s w = (.ok stats, s', w')) :
    ∃ paths found m s₁ w₁,
      outcome (x.candidates task) s w = (.ok paths, (m 0).state, (m 0).world) ∧ (m 0).held = h ∧
      (m 0).Keeps site d ∧ x.Course task.force paths found m s₁ w₁ ∧ (∀ f ∈ found, site.Accepts x f) ∧
      outcome (x.close (m found.length).stats task) s₁ w₁ = (.ok stats, s', w') := by
  obtain ⟨listings, asks⟩ := made.asks
  rw [x.perform_eq] at done told
  obtain ⟨paths, s₀, w₀, given, passed⟩ := Action.outcome_bind_eq_ok.1 done
  obtain ⟨stats₁, s₁, w₁, indexed, closed⟩ := Action.outcome_bind_eq_ok.1 passed
  obtain ⟨marks, lags₀⟩ := lags.candidates made.at_ asks given
  obtain ⟨found, m, rfl, rfl, rfl, rfl, course, accepts⟩ :=
    lags₀.stands.exists_course made.at_ ((Action.along_bind given).1 told).2.first indexed h
  exact ⟨paths, found, m, s₁, w₁, given, rfl, ⟨marks, lags₀⟩, course, accepts, closed⟩

/-- At the end of a pass all that is held is handed over. -/
theorem of_course {found : List Reading} {m : Nat → Boundary} {force : Bool} {paths : List Path} {s₁ : IndexState}
    {w₁ : World} (keeps : (m found.length).Keeps site d) (at_ : x.At site)
    (course : x.Course force paths found m s₁ w₁)
    (closed : outcome (x.close (m found.length).stats task) s₁ w₁ = (.ok stats, s', w')) :
    ∃ h', site.Lags (m found.length).held h' s' w' ∧ s'.Idle := by
  obtain ⟨marks, lags⟩ := keeps
  obtain ⟨s₂, w₂, flushed, lags', idle⟩ := lags.flush at_
  obtain ⟨-, rfl, rfl⟩ := History.agree course.flushed flushed
  obtain ⟨-, rfl, h', lags''⟩ := lags'.close at_ closed
  exact ⟨h', lags''.unmark, idle⟩

/-- Once a pass is over, what is held is kept. -/
theorem perform (lags : site.Lags d h s w) (made : x.Made c site) (task : Indexer.Task)
    (told : Action.Along (x.Told site terms) (x.perform task) s w)
    (done : outcome (x.perform task) s w = (.ok stats, s', w')) : ∃ d' h', site.Lags d' h' s' w' := by
  obtain ⟨paths, found, m, s₁, w₁, -, -, keeps, course, accepts, closed⟩ := lags.exists_pass made told done
  obtain ⟨d', keeps'⟩ := course.keeps made.at_ accepts keeps
  obtain ⟨h', lags', -⟩ := of_course keeps' made.at_ course closed
  exact ⟨_, h', lags'⟩

end Site.Lags

/-! ## Other operations -/

namespace Site.Stands

variable {site : Site} {x : Indexer} {h : Holdings} {s s' : IndexState} {w w' : World}

/-- To remove entries lets nothing be handed over. -/
theorem removeEntries_withholds {removed : List Record} (stands : site.Stands h s w)
    (withholds : s.Withholds site.root w.disk)
    (done : outcome (removed.forM fun r => Indexer.onSearch (SearchIndex.remove r)) s w = (.ok (), s', w')) :
    s'.Withholds site.root w'.disk := by
  induction removed generalizing h s w with
  | nil =>
      cases done
      exact withholds
  | cons r removed ih =>
      obtain ⟨i, w₁, first, search, apart⟩ := stands.search.remove r
      obtain ⟨synced, lazy⟩ := stands.search.remove_synced withholds.synced first
      have stands₁ := stands.of_search (.of_search apart search) search
      change outcome (Indexer.onSearch (SearchIndex.remove r) >>= fun _ =>
        removed.forM fun r => Indexer.onSearch (SearchIndex.remove r)) s w = _ at done
      rw [Action.outcome_bind_ok (Indexer.onSearch_ok first)] at done
      exact ih stands₁ ⟨withholds.buffer, lazy.trans withholds.search, synced⟩ done

/-- A sweep leaves nothing waiting. -/
theorem sweep_lags (stands : site.Stands h s w) (withholds : s.Withholds site.root w.disk) (at_ : x.At site) :
    ∃ removed s' w' h', outcome x.sweep s w = (.ok removed, s', w') ∧ site.Lags h' h' s' w' := by
  obtain ⟨w₁, locked, stands₁, touch₁⟩ := stands.lock_touches at_
  have withholds₁ := withholds.same stands (touch₁.same (by decide)) stands₁.hosts rfl rfl
  obtain ⟨report, w₂, swept, records₂, touch₂, -⟩ := stands₁.records.sweep_ok
  rw [← at_.store] at swept
  have stands₂ := stands₁.of_records touch₂ records₂ (stands₁.uses.without report.removed)
  have withholds₂ : IndexState.Withholds site.root w₂.disk { s with buffer := s.buffer.clear } :=
    withholds₁.same stands₁ (touch₂.same (by decide)) stands₂.hosts rfl rfl
  obtain ⟨s₃, w₃, removed, stands₃, -⟩ := stands₂.removeEntries_ok report.removed
  have withholds₃ := stands₂.removeEntries_withholds withholds₂ removed
  obtain ⟨i, w₄, flushed, stands₄, withholds₄, idle⟩ := stands₃.hand_entries withholds₃
  obtain ⟨w₅, settled, stands₅, withholds₅⟩ := stands₄.hand_records withholds₄ at_
  refine ⟨report.removed.length, _, w₅, _, ?_, .of_idle stands₅ withholds₅ ⟨rfl, idle⟩⟩
  rw [Indexer.sweep, Action.outcome_bind_ok locked, Action.outcome_bind_ok (Indexer.onBuffer_ok swept),
    Action.outcome_bind_ok removed, Action.outcome_bind_ok flushed, Action.outcome_bind_ok settled,
    Action.outcome_pure]

/-- A reset leaves nothing waiting. -/
theorem reset_lags (stands : site.Stands h s w) (withholds : s.Withholds site.root w.disk) (at_ : x.At site) :
    ∃ s' w', outcome x.reset s w = (.ok (), s', w') ∧ site.Lags h.reset h.reset s' w' := by
  obtain ⟨w₁, cleared, records₁, touch₁⟩ := stands.records.reset_ok
  rw [← at_.store] at cleared
  have stands₁ := stands.of_records touch₁ records₁ (.empty site)
  have withholds₁ : IndexState.Withholds site.root w₁.disk { s with buffer := s.buffer.clear } :=
    withholds.same stands (touch₁.same (by decide)) stands₁.hosts rfl rfl
  obtain ⟨i, w₂, dropped, search₂, apart₂⟩ := stands₁.search.reset
  obtain ⟨synced, lazy⟩ := stands₁.search.reset_synced dropped
  have stands₂ := stands₁.of_search (.of_search apart₂ search₂) search₂
  have withholds₂ : IndexState.Withholds site.root w₂.disk { s with buffer := s.buffer.clear, search := i } :=
    ⟨withholds₁.buffer, lazy.trans withholds₁.search, synced⟩
  obtain ⟨i', w₃, flushed, stands₃, withholds₃, idle⟩ := stands₂.hand_entries withholds₂
  refine ⟨_, w₃, ?_, .of_idle stands₃ withholds₃ ⟨rfl, idle⟩⟩
  rw [Indexer.reset, Action.outcome_bind_ok (Indexer.onBuffer_ok cleared),
    Action.outcome_bind_ok (Indexer.onSearch_ok dropped), flushed]

end Site.Stands

/-! ## Histories -/

/-- The buffers of a new index are empty, and do not hand over on their own. -/
theorem Site.Opened.withholds {site : Site} {batchSize : Nat} {w w' : World} {i : SearchIndex} {log : DirtyLog}
    (opened : site.Opened batchSize w i log w') (storeBatchSize : Nat) :
    let s : IndexState := ⟨(Buffer.ofBatchSize storeBatchSize).setAutoFlush false, i.setAutoFlush false, log⟩
    s.Withholds site.root w'.disk ∧ s.Idle := by
  obtain ⟨-, -, -, -, -, -, idle, synced, -⟩ := opened
  cases i <;> exact ⟨⟨rfl, rfl, synced⟩, rfl, idle⟩

/-- **A new index holds nothing, in memory or outside.** -/
theorem Site.Stands.open_idle {site : Site} {x : Indexer} {c : IndexConfig} {w : World}
    (fresh : w.Fresh site.root site.base) (made : x.Made c site) :
    ∃ s w', Script.outcome (Indexer.open c) w = (.ok s, w') ∧ site.Stands .empty s w' ∧
      s.Withholds site.root w'.disk ∧ s.Idle ∧ ∀ a, ¬ Disk.Below site.base a → w'.disk.node? a = w.disk.node? a := by
  obtain ⟨i, log, w', opened⟩ := Site.open_parts site fresh c.searchBatchSize
  obtain ⟨withholds, idle⟩ := opened.withholds c.storeBatchSize
  have done := opened.outcome_open fresh made.backend made.root made.sound made.made
  obtain ⟨s, v, done', stands, -⟩ := open_fresh fresh made.backend made.root made.sound made.made
  cases done'.symm.trans done
  exact ⟨_, w', done, stands, withholds, idle, opened.apart⟩

section Histories

variable {x : Indexer} {c : IndexConfig} {site : Site} {terms : Terms} {s s' : IndexState} {w w' : World}
  {stats : IndexStats} {task : Indexer.Task}

/-- **Whatever the history of an index, its store and its search index keep the same holdings**, and no buffer hands
over on its own. -/
theorem History.lags (history : History x c site terms s w) (made : x.Made c site) :
    ∃ d h, site.Lags d h s w := by
  have at_ := made.at_
  induction history with
  | opened fresh done =>
      obtain ⟨s, w', opened, stands, withholds, idle, -⟩ := Site.Stands.open_idle fresh made
      rw [opened] at done
      cases done
      exact ⟨_, _, .of_idle stands withholds idle⟩
  | @run _ _ _ _ force _ before done told ih =>
      obtain ⟨d, h, lags⟩ := ih
      exact lags.perform made (.run force) told done
  | @indexFile _ _ _ _ path _ before done told ih =>
      obtain ⟨d, h, lags⟩ := ih
      exact lags.perform made (.file path) told done
  | @document _ _ _ _ document records stats _ before gave admits extracted ticked done ih =>
      obtain ⟨d, h, lags⟩ := ih
      let f : Reading := (⟨Uri.toPath document.uri, document.uri⟩, .ok document)
      have accepts : site.Accepts x f := {
        own := ⟨admits.normal, fun _ same => by cases same; rfl⟩
        admits := fun records' gained => by
          obtain rfl : records = records' := Option.some.inj (gave.symm.trans gained)
          exact admits }
      obtain ⟨stats', marks, s', w', done', either⟩ := lags.indexRead at_ accepts stats
      obtain ⟨-, rfl, rfl⟩ := History.agree done done'
      exact either.elim (⟨_, _, ·⟩) (⟨_, _, ·⟩)
  | sweep before done ih =>
      obtain ⟨d, h, lags⟩ := ih
      obtain ⟨removed, s', w', h', done', lags'⟩ := lags.stands.sweep_lags lags.withholds at_
      obtain ⟨-, rfl, rfl⟩ := History.agree done done'
      exact ⟨h', h', lags'⟩
  | reset before done ih =>
      obtain ⟨d, h, lags⟩ := ih
      obtain ⟨s', w', done', lags'⟩ := lags.stands.reset_lags lags.withholds at_
      obtain ⟨-, rfl, rfl⟩ := History.agree done done'
      exact ⟨_, _, lags'⟩
  | mark before done ih =>
      obtain ⟨d, h, lags⟩ := ih
      obtain ⟨marks, s', w', done', lags'⟩ := lags.mark _
      obtain ⟨-, rfl, rfl⟩ := History.agree done done'
      exact ⟨_, _, lags'⟩
  | outside before same hosts ih =>
      obtain ⟨d, h, lags⟩ := ih
      exact ⟨d, h, lags.stands.same same hosts, lags.withholds.same lags.stands (same .search) hosts rfl rfl,
        lags.durable.same lags.stands (same .records) (same .search) hosts⟩

/-- **Files reach the store and the search index together, and as a whole.** A pass of an indexer whose buffers are
empty deals with one file after the other. What is kept outside of memory trails behind by whole files, is the same in
both, and when the pass is over it is all that was taken; nothing waits any more. -/
theorem History.perform_trails (history : History x c site terms s w) (made : x.Made c site) (idle : s.Idle)
    (told : Action.Along (x.Told site terms) (x.perform task) s w)
    (done : outcome (x.perform task) s w = (.ok stats, s', w')) :
    ∃ paths found m kept s₁ w₁, site.Stands (m 0).held s w ∧ site.Durable (m 0).held w ∧
      outcome (x.candidates task) s w = (.ok paths, (m 0).state, (m 0).world) ∧
      x.Course task.force paths found m s₁ w₁ ∧ site.Trails x found m kept ∧
      outcome (x.close (m found.length).stats task) s₁ w₁ = (.ok stats, s', w') ∧
      site.Durable (m found.length).held w' ∧ s'.Idle := by
  obtain ⟨d, h, before⟩ := history.lags made
  have lags := Site.Lags.of_idle before.stands before.withholds idle
  obtain ⟨paths, found, m, s₁, w₁, given, rfl, keeps, course, accepts, closed⟩ := lags.exists_pass made told done
  obtain ⟨kept, trails, keeps'⟩ := course.trails made.at_ accepts keeps
  obtain ⟨h', after, idle'⟩ := Site.Lags.of_course keeps' made.at_ course closed
  exact ⟨paths, found, m, kept, s₁, w₁, lags.stands, lags.durable, given, course, trails, closed, after.durable, idle'⟩

end Histories

/-! ### Poles -/

/-- The name of another file beside the small index. -/
def otherName : Name := [98, 46, 112, 104, 112]

def otherPath : Path := ⟨[47, 98, 46, 112, 104, 112]⟩

/-- The world of the small index, with an empty file `/b.php`. -/
def pairWorld : World := smallWorld.withFile otherName [] 0

theorem pairWorld_fresh : pairWorld.Fresh smallSite.root smallSite.base :=
  smallWorld_fresh.withFile (by decide) (by decide +kernel) [] 0

theorem pairWorld_hasFile : pairWorld.HasFile where
  file := by rw [pairWorld, World.withFile_node?, if_neg (by decide), smallWorld_hasFile.file]
  noProject := by rw [pairWorld, World.withFile_node?, if_neg (by decide), smallWorld_hasFile.noProject]

theorem find_other {w : World} (there : w.disk.node? [otherName] = some (.file 1 [] 0)) :
    w.disk.find true otherPath = .ok ([otherName], .file 1 [] 0) := by
  have located : w.disk.locate true otherPath = w.disk.walk true false Disk.maxLinks [] [otherName] := rfl
  rw [Disk.find, located, Disk.walk_cons (by decide) (by decide), there]
  rfl

/-- The small index is opened, and the other file is marked. -/
theorem pair_marked (extract : Extractor) : ∃ s w s₁ w₁,
    Script.outcome (Indexer.open smallConfig) pairWorld = (.ok s, w) ∧
      outcome (Indexer.onDirty (DirtyLog.mark "/b.php")) s w = (.ok (), s₁, w₁) ∧
      smallSite.Stands { Holdings.empty with marks := ["file:///b.php"] } s₁ w₁ ∧ s₁.Idle ∧ w₁.HasFile ∧
      ∀ v, smallSite.Beside w₁ v → v.disk.find true otherPath = .ok ([otherName], .file 1 [] 0) := by
  obtain ⟨s, w, opened, stands, -, idle, apart⟩ := Site.Stands.open_idle pairWorld_fresh (smallIndexer_made extract)
  obtain ⟨marks, log, w₁, marked, listed, outside, grown, there⟩ := stands.marks.mark "/b.php"
  have touch : smallSite.Touch .marks w w₁ := .of_marks outside listed
  have uri : Uri.normalize "/b.php" = "file:///b.php" := by decide +kernel
  rw [uri] at grown there
  obtain rfl : marks = ["file:///b.php"] := grown.resolve_left fun none_ => by
    rw [none_] at there
    exact absurd (there rfl) List.not_mem_nil
  refine ⟨s, w, _, w₁, opened, Indexer.onDirty_ok marked, stands.of_marks touch listed, ⟨idle.buffer, idle.search⟩,
    History.shows_of_around touch.still.toAround (History.hasFile_of_apart pairWorld_hasFile apart),
    fun v beside => find_other ?_⟩
  rw [History.node?_of_around (touch.still.toAround.trans beside.around) (by decide),
    apart _ (beside_smallSite (by decide)), pairWorld, World.withFile_node?, if_pos rfl]
  rfl

/-- A run of the small index takes its file and another one that is marked. -/
theorem sample_perform_trails : ∃ s w s₁ w₁ stats s' w' paths found m kept s₂ w₂,
    Script.outcome (Indexer.open smallConfig) pairWorld = (.ok s, w) ∧
      outcome (Indexer.onDirty (DirtyLog.mark "/b.php")) s w = (.ok (), s₁, w₁) ∧
      outcome ((smallIndexer History.sampleWhole).perform (.run true)) s₁ w₁ = (.ok stats, s', w') ∧ stats.errors = 0 ∧
      outcome ((smallIndexer History.sampleWhole).candidates (.run true)) s₁ w₁ =
        (.ok paths, (m 0).state, (m 0).world) ∧
      smallSite.Stands (m 0).held s₁ w₁ ∧ (smallIndexer History.sampleWhole).Course true paths found m s₂ w₂ ∧
      smallSite.Trails (smallIndexer History.sampleWhole) found m kept ∧ smallSite.Durable (m found.length).held w' ∧
      s'.Idle ∧ found.map Prod.fst = [.ofPath smallPath, .ofPath otherPath] := by
  obtain ⟨s, w, s₁, w₁, opened, marked, stands, idle, hasFile, other⟩ := pair_marked History.sampleWhole
  have only : (firstOccurrences ["file:///b.php"]).map Uri.toPath = [otherPath] := by decide +kernel
  have told : Action.Along ((smallIndexer History.sampleWhole).Told smallSite .any)
      ((smallIndexer History.sampleWhole).perform (.run true)) s₁ w₁ :=
    small_told (fun _ _ _ => trivial) (fun _ => trivial) _ _ _
  obtain ⟨stats, s', w', h, done, -, -, -, faultless, s₀, w₀, given⟩ :=
    History.small_run_marked (fun _ => Option.some_ne_none _) told stands hasFile fun v beside path member => by
      obtain rfl := List.mem_singleton.1 (only ▸ member)
      rw [Disk.read, Disk.stat, Disk.stat, other v beside, other w₁ (.refl _ _)]
      exact ⟨rfl, rfl⟩
  obtain ⟨paths, found, m, kept, s₂, w₂, held, -, given', course, trails, -, durable, idle'⟩ :=
    History.perform_trails (.mark (.opened pairWorld_fresh opened) marked) (smallIndexer_made History.sampleWhole) idle
      told done
  refine ⟨s, w, s₁, w₁, stats, s', w', paths, found, m, kept, s₂, w₂, opened, marked, done, faultless, given', held,
    course, trails, durable, idle', ?_⟩
  obtain ⟨rfl, -, -⟩ := History.agree given' given
  obtain ⟨choice, chose, -, among⟩ := course.chosen
  cases chose
  exact among

end SymbolIndex
