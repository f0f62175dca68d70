import SymbolIndex.Proofs.Candidate.Listing
import SymbolIndex.Proofs.Index.Pass

/-!
# Proofs.Index.Operations — what the operations of an indexer do to the holdings

Taking the lock, asking the sources, a whole run, indexing one file, sweeping and resetting, each on an
index that stands for some holdings. What a sweep removes from the records it removes from the entries
(`Holdings.swept`); a reset empties the records but of the entries only those of classes
(`Holdings.reset`).
-/

namespace SymbolIndex

open Action (outcome)
open World (Still Around)
open SymbolIndex.Text (encode)
open Disk (Hosts Fit)

set_option autoImplicit false

namespace Holdings

/-- What is left when records are swept. -/
def swept (h : Holdings) (removed : List Record) : Holdings :=
  { h with ledger := h.ledger.without removed, catalog := removed.foldl Catalog.remove h.catalog }

/-- What is left by a reset. -/
def reset (h : Holdings) : Holdings := { h with ledger := .empty, catalog := h.catalog.reset }

/-- The time of the last build is noted. -/
def builtAt (h : Holdings) (time : Int64) : Holdings := { h with ledger := h.ledger.markUpdated time }

end Holdings

namespace Indexer

theorem fit_lock : Fit ([] ++ [lockPart]) where
  proper := by
    have proper : lockPart.Proper := by decide +kernel
    simpa using proper
  some_ := by simp
  short := by decide +kernel

theorem lockPath_below (root : Path) : lockPath root = root.below ([] ++ [lockPart]) := rfl

/-- Taking the lock makes its file, if there is none, and changes nothing else. -/
theorem outcome_lock {x : Indexer} {root : Path} {base : Address} {w : World} (s : IndexState)
    (located : x.root = root) (hosts : w.disk.Hosts root base)
    (free : ∀ m, w.disk.node? (lockPart :: base) ≠ some (.directory m)) :
    ∃ id c time d, outcome x.lock s w = (.ok (), s, { w with disk := d }) ∧ d.Hosts root base ∧
      ∀ a, d.node? a = if a = lockPart :: base then some (.file id c time) else w.disk.node? a := by
  obtain ⟨m, parent⟩ := hosts.directory
  obtain ⟨id, c, time, d, opened, hosts', -, effect⟩ :=
    @Hosts.openFile_spec _ _ _ [] lockPart m hosts fit_lock w.time false parent free
  have created : outcome (Action.ask IndexError.io (.createDirectories x.root)) s w = (.ok (), s, w) := by
    rw [Action.outcome_ask, Call.perform, located, hosts.createDirectories_self]
    rfl
  have taken : outcome (Action.ask IndexError.lock (.openAppend (lockPath x.root))) s w =
      (.ok id, s, { w with disk := d }) := by
    rw [Action.outcome_ask, Call.perform, located, lockPath_below, opened]
    rfl
  refine ⟨id, c, time, d, ?_, hosts', effect⟩
  rw [lock, Action.outcome_bind_ok created, Action.outcome_bind_ok taken]
  rfl

/-- The clock is read in seconds. -/
theorem outcome_nowSeconds (s : IndexState) (w : World) :
    outcome (Action.ofPlain Freshness.nowSeconds : Indexed _) s w =
      (.ok (max 0 w.clock / 1000), s, { w with clock := w.clock + 1 }) := by
  rw [Action.outcome_ofPlain]
  rfl

end Indexer

/-- What some listings find, one after the other, if none of them fails. -/
def Listing.all (w : World) : List Listing → Except IndexError (List Path)
  | [] => .ok []
  | list :: listings =>
    match (Script.run list w).1 with
    | .error e => .error e
    | .ok found => (all w listings).map (found ++ ·)

/-- The sources of an indexer are listings that change nothing, and last the dirty log. -/
structure Indexer.Asks (x : Indexer) (listings : List Listing) : Prop where
  sources : x.sources = listings.map .listing ++ [.dirtyLog]
  quiet : ∀ list ∈ listings, Script.Quiet list

/-- The candidates that an indexer is given when a run begins. -/
def Indexer.Provides (x : Indexer) (s : IndexState) (w : World) (paths : List Path) : Prop :=
  ∃ s' w', outcome (x.lock >>= fun _ => x.provide) s w = (.ok paths, s', w')

/-- A world that operations on an index lead to: around the index everything is as it was. -/
structure Site.Beside (site : Site) (w v : World) : Prop where
  around : Around site.root site.base w v
  workingDirectory : v.disk.workingDirectory = w.disk.workingDirectory

namespace Site.Beside

variable {site : Site} {w v v' : World}

theorem refl (site : Site) (w : World) : site.Beside w w := ⟨.refl _ _ _, rfl⟩

theorem trans (first : site.Beside w v) (second : site.Beside v v') : site.Beside w v' :=
  ⟨first.around.trans second.around, second.workingDirectory.trans first.workingDirectory⟩

end Site.Beside

namespace Site.Stands

variable {site : Site} {terms : Terms} {x : Indexer} {h : Holdings} {s s' : IndexState} {w w' : World}
  {force : Bool} {path : Path} {paths : List Path} {stats : IndexStats}

/-- What is found from a world that operations have led to is found from the one before them. -/
theorem Found.before {v : World} {p : Finding} (found : Found x site v p) (beside : site.Beside w v) :
    Found x site w p := by
  obtain ⟨v', around, still, looked⟩ := found
  exact ⟨v', beside.around.trans around, still.trans beside.workingDirectory, looked⟩

/-- At the end of a run its time is noted. -/
theorem built_ok (stands : site.Stands h s w) (at_ : x.At site) (stats : IndexStats) :
    ∃ time w', outcome (do
        let now ← Action.ofPlain Freshness.nowSeconds
        Indexer.onStore (x.store.markUpdated now)
        return stats : Indexed IndexStats) s w = (.ok stats, s, w') ∧
      site.Stands (h.builtAt time) s w' ∧ Around site.root site.base w w' := by
  obtain ⟨-, stands₁, around₁⟩ := stands.now_ok
  obtain ⟨w₂, noted, stands₂, still₂⟩ := stands₁.markUpdated_ok at_ (max 0 w.clock / 1000)
  refine ⟨_, w₂, ?_, stands₂, around₁.trans still₂.toAround⟩
  rw [Action.outcome_bind_ok (Indexer.outcome_nowSeconds s w), Action.outcome_bind_ok noted,
    Action.outcome_pure]

theorem lock_touches (stands : site.Stands h s w) (at_ : x.At site) :
    ∃ w', outcome x.lock s w = (.ok (), s, w') ∧ site.Stands h s w' ∧ site.Touch .lock w w' := by
  obtain ⟨id, c, time, d, taken, hosts, effect⟩ := Indexer.outcome_lock s at_.root stands.hosts stands.lock
  have touch : site.Touch .lock w { w with disk := d } := by
    refine .of_disk hosts fun a other => (effect a).trans (if_neg ?_)
    rintro rfl
    exact other (Part.owns_of_name (by simp [Part.names]))
  refine ⟨{ w with disk := d }, taken, ?_, touch⟩
  exact {
    records := stands.records.same (touch.same (by decide)) hosts
    search := stands.search.same (touch.same (by decide)) hosts
    marks := stands.marks.same (touch.same (by decide)) hosts
    hosts := hosts
    lock := fun m directory => by
      have file := (effect (Indexer.lockPart :: site.base)).trans (if_pos rfl)
      cases directory.symm.trans file
    uses := stands.uses }

theorem lock_ok (stands : site.Stands h s w) (at_ : x.At site) :
    ∃ w', outcome x.lock s w = (.ok (), s, w') ∧ site.Stands h s w' ∧ Still site.root site.base w w' := by
  obtain ⟨w', locked, stands', touch⟩ := stands.lock_touches at_
  exact ⟨w', locked, stands', touch.still⟩

/-! ## Sources -/

/-- Asking the sources takes the marks, unless a listing fails, and does nothing else. -/
theorem provideAll_ok {listings : List Listing} {marks : List String} {log : DirtyLog}
    (stands : DirtyLog.Stands site.root site.base marks w site.backend log)
    (quiet : ∀ list ∈ listings, Script.Quiet list) :
    match Listing.all w listings with
    | .error e =>
      outcome (Source.provideAll (listings.map .listing ++ [.dirtyLog])) log w = (.error e, log, w)
    | .ok found => ∃ log' w',
      outcome (Source.provideAll (listings.map .listing ++ [.dirtyLog])) log w =
        (.ok (found ++ (firstOccurrences marks).map Uri.toPath), log', w') ∧
      DirtyLog.Stands site.root site.base [] w' site.backend log' ∧ site.Touch .marks w w' := by
  induction listings with
  | nil =>
      obtain ⟨log', w', drained, stands', apart⟩ := stands.drain
      refine ⟨log', w', ?_, stands', .of_marks apart stands'⟩
      have taken : outcome (Action.within id (fun _ log => log) IndexError.ofDirty DirtyLog.drain)
          log w = (.ok (firstOccurrences marks), log', w') := by
        have drained' : outcome DirtyLog.drain (id log) w = (.ok (firstOccurrences marks), log', w') := drained
        rw [Action.outcome_within, drained']
        rfl
      have provided : outcome Source.dirtyLog.provide log w =
          (.ok ((firstOccurrences marks).map Uri.toPath), log', w') := by
        rw [Source.provide, Action.outcome_bind_ok taken, Action.outcome_pure]
      rw [List.map_nil, List.nil_append, Source.provideAll, Action.outcome_bind_ok provided, Source.provideAll]
      refine (Action.outcome_bind_ok (Action.outcome_pure _ _ _)).trans ?_
      rw [Action.outcome_pure, List.append_nil, List.nil_append]
  | cons list listings ih =>
      have rest := ih fun list' member => quiet list' (by simp [member])
      have listed : Script.run list w = ((Script.run list w).1, w) :=
        Prod.ext rfl (quiet list (by simp) w)
      have asked : outcome (Source.listing list).provide log w = ((Script.run list w).1, log, w) := by
        rw [Source.provide, Action.outcome_ofScript, listed]
      rw [Listing.all, List.map_cons, List.cons_append, Source.provideAll]
      cases one : (Script.run list w).1 with
      | error e =>
          rw [one] at asked
          exact Action.outcome_bind_error asked
      | ok first =>
          rw [one] at asked
          simp only
          rw [Action.outcome_bind_ok asked]
          cases all : Listing.all w listings with
          | error e =>
              rw [all] at rest
              exact Action.outcome_bind_error rest
          | ok found =>
              rw [all] at rest
              obtain ⟨log', w', provided, stands', touch⟩ := rest
              refine ⟨log', w', ?_, stands', touch⟩
              rw [Action.outcome_bind_ok provided, Action.outcome_pure, List.append_assoc]

/-- The candidates of a pass are what the listings find, and the files that are marked. -/
theorem provide_touches {listings : List Listing} (stands : site.Stands h s w) (asks : x.Asks listings) :
    match Listing.all w listings with
    | .error e => outcome x.provide s w = (.error e, s, w)
    | .ok found => ∃ log w',
      outcome x.provide s w =
        (.ok (found ++ (firstOccurrences h.marks).map Uri.toPath), { s with dirty := log }, w') ∧
      site.Stands { h with marks := [] } { s with dirty := log } w' ∧ site.Touch .marks w w' := by
  have provided := provideAll_ok stands.marks asks.quiet
  rw [Indexer.provide, Action.outcome_within, asks.sources]
  cases all : Listing.all w listings with
  | error e =>
      rw [all] at provided
      simp only at provided ⊢
      rw [provided]
      rfl
  | ok found =>
      rw [all] at provided
      obtain ⟨log, w', done, stands', touch⟩ := provided
      exact ⟨log, w', by rw [done]; rfl, stands.of_marks touch stands', touch⟩

theorem provide_ok {listings : List Listing} (stands : site.Stands h s w) (asks : x.Asks listings) :
    match Listing.all w listings with
    | .error e => outcome x.provide s w = (.error e, s, w)
    | .ok found => ∃ s' w',
      outcome x.provide s w = (.ok (found ++ (firstOccurrences h.marks).map Uri.toPath), s', w') ∧
      site.Stands { h with marks := [] } s' w' ∧ Still site.root site.base w w' := by
  have provided := stands.provide_touches asks
  cases all : Listing.all w listings with
  | error e => rwa [all] at provided
  | ok found =>
      rw [all] at provided
      obtain ⟨log, w', done, stands', touch⟩ := provided
      exact ⟨_, w', done, stands', touch.still⟩

/-! ## Operations -/

/-- A run takes the lock, asks the sources, makes a pass over what they list and notes the time. It fails if a
listing does, and otherwise succeeds. -/
theorem run_ok {listings : List Listing} (stands : site.Stands h s w) (at_ : x.At site)
    (asks : x.Asks listings) (along : Action.Along (x.Told site terms) (x.run force) s w) :
    ∃ v, site.Beside w v ∧
      match Listing.all v listings with
      | .error e => (∃ s' w', outcome (x.run force) s w = (.error e, s', w')) ∧ ∀ paths, ¬ x.Provides s w paths
      | .ok found => ∃ findings b time v' s' w', outcome (x.run force) s w = (.ok b.1, s', w') ∧
        site.Beside w v' ∧ site.Stands (b.2.builtAt time) s' w' ∧ Around site.root site.base w w' ∧
        let paths := found ++ (firstOccurrences h.marks).map Uri.toPath
        x.Provides s w paths ∧
        findings.map (·.1) = ({ h with marks := [] }.chosen v' force paths).due.reverse ∧
        (∀ p ∈ findings, Found x site v' p) ∧
        Pass site terms findings (({ h with marks := [] }.chosen v' force paths).stats, { h with marks := [] })
          b := by
  rw [Indexer.run] at along ⊢
  obtain ⟨v, locked, stands₁, still₁⟩ := stands.lock_ok at_
  have beside₁ : site.Beside w v := ⟨still₁.toAround, Action.workingDirectory locked⟩
  rw [Action.along_bind locked] at along
  rw [Action.outcome_bind_ok locked]
  refine ⟨v, beside₁, ?_⟩
  have sources := stands₁.provide_ok asks
  cases all : Listing.all v listings with
  | error e =>
      rw [all] at sources
      refine ⟨⟨s, v, Action.outcome_bind_error sources⟩, ?_⟩
      rintro paths ⟨s', w', given⟩
      rw [Action.outcome_bind_ok locked, sources] at given
      cases given
  | ok found =>
      rw [all] at sources
      obtain ⟨s₂, v', provided, stands₂, still₂⟩ := sources
      have beside₂ : site.Beside w v' := ⟨(still₁.trans still₂).toAround,
        (Action.workingDirectory provided).trans beside₁.workingDirectory⟩
      have along₂ := ((Action.along_bind provided).1 along.2).2
      obtain ⟨findings, b, s₃, w₃, passed, stands₃, around₃, listed, findable, pass⟩ :=
        stands₂.indexCandidates_ok at_ along₂.first
      obtain ⟨time, w₄, noted, stands₄, around₄⟩ := stands₃.built_ok at_ b.1
      refine ⟨findings, b, time, v', s₃, w₄, ?_, beside₂, stands₄,
        (still₁.trans still₂).toAround.trans (around₃.trans around₄),
        ⟨s₂, v', (Action.outcome_bind_ok locked).trans provided⟩, listed, findable, pass⟩
      rw [Action.outcome_bind_ok provided, Action.outcome_bind_ok passed, noted]

/-- Indexing one file is a forced pass over that file. -/
theorem indexFile_ok (stands : site.Stands h s w) (at_ : x.At site)
    (along : Action.Along (x.Told site terms) (x.indexFile path) s w) :
    ∃ findings b s' w', outcome (x.indexFile path) s w = (.ok b.1, s', w') ∧ site.Stands b.2 s' w' ∧
      Around site.root site.base w w' ∧ findings.map (·.1) = [.ofPath path] ∧
      (∀ p ∈ findings, Found x site w p) ∧ Pass site terms findings ((h.chosen w true [path]).stats, h) b := by
  rw [Indexer.indexFile] at along ⊢
  obtain ⟨w₁, locked, stands₁, still₁⟩ := stands.lock_ok at_
  rw [Action.along_bind locked] at along
  have moved := Action.workingDirectory locked
  obtain ⟨findings, b, s₂, w₂, passed, stands₂, around₂, listed, found, pass⟩ :=
    stands₁.indexCandidates_ok at_ along.2
  refine ⟨findings, b, s₂, w₂, (Action.outcome_bind_ok locked).trans passed, stands₂,
    still₁.toAround.trans around₂, listed, fun p member => ?_, pass⟩
  exact (found p member).before ⟨still₁.toAround, moved⟩

theorem removeEntries_ok (stands : site.Stands h s w) (removed : List Record) :
    ∃ s' w', outcome (removed.forM fun r => Indexer.onSearch (SearchIndex.remove r)) s w =
        (.ok (), s', w') ∧
      site.Stands { h with catalog := removed.foldl Catalog.remove h.catalog } s' w' ∧
      Still site.root site.base w w' := by
  induction removed generalizing h s w with
  | nil => exact ⟨s, w, rfl, stands, .refl _ _ _⟩
  | cons r removed ih =>
      obtain ⟨s₁, w₁, first, stands₁, still₁⟩ := stands.removeEntry_ok r
      obtain ⟨s₂, w₂, second, stands₂, still₂⟩ := ih stands₁
      refine ⟨s₂, w₂, ?_, stands₂, still₁.trans still₂⟩
      show outcome (Indexer.onSearch (SearchIndex.remove r) >>= fun _ =>
        removed.forM fun r => Indexer.onSearch (SearchIndex.remove r)) s w = _
      rw [Action.outcome_bind_ok first, second]

/-- A sweep removes some stored records that hang on a URI, with their entries. -/
theorem sweep_ok (stands : site.Stands h s w) (at_ : x.At site) :
    ∃ removed s' w', outcome x.sweep s w = (.ok removed.length, s', w') ∧
      site.Stands (h.swept removed) s' w' ∧ Still site.root site.base w w' ∧
      ∀ r ∈ removed, h.ledger.get? r.key = some r ∧ r.sourceUri?.isSome = true := by
  obtain ⟨w₁, locked, stands₁, still₁⟩ := stands.lock_ok at_
  obtain ⟨report, w₂, swept, records₂, touch₂, stored⟩ := stands₁.records.sweep_ok
  rw [← at_.store] at swept
  have stands₂ := stands₁.of_records touch₂ records₂ (stands₁.uses.without report.removed)
  obtain ⟨s₃, w₃, removed, stands₃, still₃⟩ := stands₂.removeEntries_ok report.removed
  obtain ⟨s₄, w₄, flushed, stands₄, still₄⟩ := stands₃.flushEntries_ok
  obtain ⟨s₅, w₅, settled, stands₅, still₅⟩ := stands₄.flushRecords_ok at_
  refine ⟨report.removed, s₅, w₅, ?_, stands₅,
    still₁.trans (touch₂.still.trans (still₃.trans (still₄.trans still₅))), stored⟩
  rw [Indexer.sweep, Action.outcome_bind_ok locked, Action.outcome_bind_ok (Indexer.onBuffer_ok swept),
    Action.outcome_bind_ok removed, Action.outcome_bind_ok flushed, Action.outcome_bind_ok settled,
    Action.outcome_pure]

/-- A reset removes every record and the entries of classes. -/
theorem reset_ok (stands : site.Stands h s w) (at_ : x.At site) :
    ∃ s' w', outcome x.reset s w = (.ok (), s', w') ∧ site.Stands h.reset s' w' ∧
      Still site.root site.base w w' := by
  obtain ⟨w₁, cleared, records₁, touch₁⟩ := stands.records.reset_ok
  rw [← at_.store] at cleared
  have stands₁ := stands.of_records touch₁ records₁ (.empty site)
  obtain ⟨i, w₂, dropped, search₂, apart₂⟩ := stands₁.search.reset
  have touch₂ : site.Touch .search w₁ w₂ := .of_search apart₂ search₂
  obtain ⟨s₃, w₃, flushed, stands₃, still₃⟩ := (stands₁.of_search touch₂ search₂).flushEntries_ok
  refine ⟨s₃, w₃, ?_, stands₃, touch₁.still.trans (touch₂.still.trans still₃)⟩
  rw [Indexer.reset, Action.outcome_bind_ok (Indexer.onBuffer_ok cleared),
    Action.outcome_bind_ok (Indexer.onSearch_ok dropped), flushed]

end Site.Stands

end SymbolIndex
