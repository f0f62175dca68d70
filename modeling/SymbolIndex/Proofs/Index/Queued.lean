import SymbolIndex.Proofs.Index.Failing

/-!
# Proofs.Index.Queued — files that a pass could not index wait for the next one

A pass that succeeds counts an error for each file that it could not look at, could not read or got no records from
(`Indexer.Sorts`). Those that it could not read or got nothing from it marks, and those that gave records it clears
(`Indexer.Queues`, `Requeues.goes_indexRead`). So when it ends the log lists the former and not the latter
(`Indexer.failed_queued`), whatever lay aside when it began.

A file that it could not look at is not marked. Its mark is gone with the drain that gave the candidate
(`unseen_mark_lost`).
-/

namespace SymbolIndex

open Action (outcome)
open Candidate (firsts)
open DirtyLog (Command Enlists Logged added remembering)
open World (MarksOf)

set_option autoImplicit false

variable {root : Path} {base : Address} {backend : Backend} {x : Indexer} {s s' : IndexState} {w w' : World}
  {t : List Answered}

/-! ## What a handle remembers -/

namespace DirtyLog

/-- What a handle remembers to have marked. -/
def known : DirtyLog → SortedSet String
  | .file log => log.pending
  | .table log => log.pending

@[simp] theorem known_remembering (backend : Backend) (root : Path) (known : SortedSet String) :
    (remembering backend root known).known = known := by
  cases backend <;> rfl

/-- A handle remembers a mark that the log does not list: it was drained through another handle, or moved aside. -/
def Stale (base : Address) (backend : Backend) (log : DirtyLog) (w : World) (uri : String) : Prop :=
  log.known.contains uri = true ∧ ¬ Logged base backend w uri

/-- What a handle remembers is listed, but for some URIs. -/
def InStep (root : Path) (base : Address) (backend : Backend) (stale : String → Prop) (log : DirtyLog) (w : World) :
    Prop :=
  ∃ marks known, log = remembering backend root known ∧ Enlists root base marks w backend ∧
    ∀ uri, known.contains uri = true → uri ∈ marks ∨ stale uri

end DirtyLog

open DirtyLog (InStep Stale)

theorem World.MarksOf.lists {marks : List String} (left : MarksOf root base w w')
    (lists : Enlists root base marks w backend) : Enlists root base marks w' backend := by
  cases lists with
  | file filed listed => exact .file (left.filed filed) listed
  | table hosts holds => exact .table left.hosts (left.holds holds)

namespace Source

variable {stale : String → Prop} {log log' : DirtyLog} {source : Source} {sources : List Source} {found : List Path}

/-- A source that gives candidates leaves a handle in step: what a drain forgets is what it takes. -/
theorem goes_provide_inStep (leave : ∀ list, source = .listing list → Script.LeavesMarks root base list)
    (inStep : InStep root base backend stale log w) (goes : source.provide.Goes log w t (.ok found) log' w') :
    InStep root base backend stale log' w' := by
  obtain ⟨marks, known, rfl, lists, remembered⟩ := inStep
  cases source with
  | listing list =>
      obtain ⟨rfl, ran⟩ := Action.goes_ofScript.1 goes
      have left := leave list rfl w (.refl lists.stocked.hosts) ran
      exact ⟨marks, known, rfl, left.lists lists, remembered⟩
  | dirtyLog =>
      obtain ⟨r', ran, same⟩ := goes_dirtyLog goes
      rcases lists.stocked.goes_drain ran with ⟨e, rfl, -⟩ | ⟨uris, known', -, rfl, tidy, answers, which⟩
      · cases same
      refine ⟨[], known', rfl, tidy.lists, fun uri member => ?_⟩
      rcases which with rfl | ⟨rfl, rfl⟩
      · exact absurd (Candidate.contains_iff.1 member) (SortedSet.not_mem_empty uri)
      · refine .inr ((remembered uri member).resolve_left fun listed => ?_)
        exact absurd (answers uri (DirtyLog.Logged.listed (lists.logged_iff.2 listed))) List.not_mem_nil

theorem goes_provideAll_inStep (leave : ∀ list, .listing list ∈ sources → Script.LeavesMarks root base list)
    (inStep : InStep root base backend stale log w) (goes : (provideAll sources).Goes log w t (.ok found) log' w') :
    InStep root base backend stale log' w' := by
  induction sources generalizing log w t found with
  | nil =>
      obtain ⟨-, -, rfl, rfl⟩ := Action.goes_pure.1 goes
      exact inStep
  | cons source sources ih =>
      rcases goes_cons goes with ⟨e, same, -⟩ | ⟨front, log₁, w₁, t₁, t₂, r', -, first, rest, same⟩
      · cases same
      have inStep' := goes_provide_inStep (fun list same => leave list (by simp [same])) inStep first
      cases r' with
      | error e => cases same
      | ok back => exact ih (fun list member => leave list (by simp [member])) inStep' rest

end Source

/-! ## The account of the errors -/

/-- A log lists the files that a pass dealt with in vain, and none that gave records, but for URIs that are no line of
a file; those are listed as the lines that they are made of. What its handle remembers it lists, but for some URIs. -/
structure Indexer.Queues (x : Indexer) (backend : Backend) (stale : String → Prop) (handled : List Reading)
    (marks : List String) (known : SortedSet String) : Prop where
  known : ∀ uri, known.contains uri = true → added backend uri = [uri] → uri ∈ marks ∨ stale uri
  vain : ∀ h ∈ handled, x.Vain h → added backend h.1.uri = [h.1.uri] → h.1.uri ∈ marks ∨ stale h.1.uri
  gave : ∀ h ∈ handled, ¬ x.Vain h → h.1.uri ∈ marks → ∃ h' ∈ handled, x.Vain h' ∧ h.1.uri ∈ added backend h'.1.uri

namespace Indexer.Queues

variable {stale : String → Prop} {handled : List Reading} {marks : List String} {known : SortedSet String}
  {h : Reading} {uri : String}

/-- A file that was dealt with in vain is marked, unless the handle remembers that it has marked it. -/
theorem marked (queues : x.Queues backend stale handled marks known) (vain : x.Vain h)
    (normal : Uri.normalize h.1.uri = h.1.uri) :
    x.Queues backend stale (handled ++ [h]) ((Command.mark h.1.uri).leaves backend known marks)
      ((Command.mark h.1.uri).recalls backend known marks) := by
  have grown : ∀ uri, uri ∈ (Command.mark h.1.uri).leaves backend known marks ↔
      uri ∈ marks ∨ (known.contains h.1.uri ≠ true ∧ uri ∈ added backend h.1.uri) := fun uri => by
    rw [Command.leaves, normal]
    split <;> simp [*]
  have recalled : ∀ uri, ((Command.mark h.1.uri).recalls backend known marks).contains uri = true →
      known.contains uri = true ∨ (known.contains h.1.uri ≠ true ∧ uri = h.1.uri) := fun uri member => by
    rw [Command.recalls, normal] at member
    split at member
    · exact .inl member
    next unknown =>
      rcases SortedSet.mem_insert.1 (Candidate.contains_iff.1 member) with rfl | member
      · exact .inr ⟨unknown, rfl⟩
      · exact .inl (Candidate.contains_iff.2 member)
  have listed : added backend h.1.uri = [h.1.uri] →
      h.1.uri ∈ (Command.mark h.1.uri).leaves backend known marks ∨ stale h.1.uri := fun own => by
    by_cases remembered : known.contains h.1.uri = true
    · exact (queues.known _ remembered own).imp_left fun member => (grown _).2 (.inl member)
    · exact .inl ((grown _).2 (.inr ⟨remembered, by simp [own]⟩))
  refine ⟨fun uri member own => ?_, fun h' member vain' own => ?_, fun h' member gave' there => ?_⟩
  · rcases recalled uri member with member | ⟨-, rfl⟩
    · exact (queues.known uri member own).imp_left fun member => (grown _).2 (.inl member)
    · exact listed own
  · rcases List.mem_append.1 member with member | member
    · exact (queues.vain h' member vain' own).imp_left fun member => (grown _).2 (.inl member)
    · obtain rfl := List.mem_singleton.1 member
      exact listed own
  · rcases (grown _).1 there with there | ⟨-, line⟩
    · have before : h' ∈ handled := (List.mem_append.1 member).resolve_right fun same =>
        gave' (List.mem_singleton.1 same ▸ vain)
      obtain ⟨h'', member', rest⟩ := queues.gave h' before gave' there
      exact ⟨h'', by simp [member'], rest⟩
    · exact ⟨h, by simp, vain, line⟩

/-- A file that gave records is cleared. -/
theorem gained (queues : x.Queues backend stale handled marks known) (gave : ¬ x.Vain h)
    (fresh : h.1.uri ∉ handled.map (·.1.uri)) :
    x.Queues backend stale (handled ++ [h]) (marks.filter (· ≠ h.1.uri)) (known.erase h.1.uri) where
  known uri member own := by
    obtain ⟨there, other⟩ := SortedSet.mem_erase.1 (Candidate.contains_iff.1 member)
    exact (queues.known uri (Candidate.contains_iff.2 there) own).imp_left fun listed =>
      List.mem_filter.2 ⟨listed, decide_eq_true other⟩
  vain h' member vain' own := by
    have before : h' ∈ handled := (List.mem_append.1 member).resolve_right fun same =>
      gave (List.mem_singleton.1 same ▸ vain')
    refine (queues.vain h' before vain' own).imp_left fun listed => List.mem_filter.2 ⟨listed, decide_eq_true ?_⟩
    exact fun same => fresh (List.mem_map.2 ⟨h', before, same⟩)
  gave h' member gave' there := by
    obtain ⟨listed, other⟩ := List.mem_filter.1 there
    have before : h' ∈ handled := (List.mem_append.1 member).resolve_right fun same =>
      of_decide_eq_true other (congrArg (·.1.uri) (List.mem_singleton.1 same))
    obtain ⟨h'', member', rest⟩ := queues.gave h' before gave' listed
    exact ⟨h'', by simp [member'], rest⟩

end Indexer.Queues

/-- The log of an indexer lists what a pass dealt with in vain, and the pass has counted it. Some errors were counted
before the first file was dealt with. -/
structure Indexer.Requeues (x : Indexer) (root : Path) (base : Address) (backend : Backend) (stale : String → Prop)
    (before : Nat) (handled : List Reading) (stats : IndexStats) (s : IndexState) (w : World) : Prop where
  search : s.search.Under root
  log : ∃ marks known, s.dirty = remembering backend root known ∧ Enlists root base marks w backend ∧
    x.Queues backend stale handled marks known
  errors : stats.errors = before + handled.countP (!x.gives ·)
  indexed : stats.indexed = handled.countP x.gives

namespace Indexer.Requeues

variable {stale : String → Prop} {before : Nat} {handled : List Reading} {h : Reading} {stats stats' : IndexStats}
  {r : Except IndexError IndexStats}

theorem aside {α : Type} {a : Indexed α} {r : Except IndexError α}
    (requeues : x.Requeues root base backend stale before handled stats s w) (kept : KeepsAside root base a)
    (goes : a.Goes s w t r s' w') : x.Requeues root base backend stale before handled stats s' w' := by
  obtain ⟨search, ⟨marks, known, dirty, lists, queues⟩, errors, indexed⟩ := requeues
  obtain ⟨search', dirty', left⟩ := kept s.dirty w ⟨search, rfl, .refl lists.stocked.hosts⟩ goes
  exact ⟨search', ⟨marks, known, dirty'.trans dirty, left.lists lists, queues⟩, errors, indexed⟩

/-- A file that was dealt with in vain is marked and counted. -/
theorem goes_fail (requeues : x.Requeues root base backend stale before handled stats s w) (vain : x.Vain h)
    (normal : Uri.normalize h.1.uri = h.1.uri)
    (goes : (Indexer.fail stats h.1.uri).Goes s w t (.ok stats') s' w') :
    x.Requeues root base backend stale before (handled ++ [h]) stats' s' w' := by
  obtain ⟨search, ⟨marks, known, dirty, lists, queues⟩, errors, indexed⟩ := requeues
  rcases Action.goes_bind.1 goes with ⟨e, same, -⟩ | ⟨_, s₁, w₁, t₁, t₂, -, first, rest⟩
  · cases same
  obtain ⟨-, same, rfl, rfl⟩ := Action.goes_pure.1 rest
  cases same
  obtain ⟨r', log', ran, told, rfl⟩ := Action.goes_within.1 first
  rw [dirty] at ran
  obtain ⟨-, ⟨e, rfl, -⟩ | ⟨-, rfl, lists'⟩⟩ := lists.goes_mark ran
  · cases told
  · have nothing := vain_iff.1 vain
    refine ⟨search, ⟨_, _, rfl, lists', queues.marked vain normal⟩, ?_, ?_⟩
    · simp [errors, nothing, Nat.add_assoc]
    · simp [indexed, nothing]

/-- A file that gave records is applied, cleared and counted. -/
theorem goes_gained (requeues : x.Requeues root base backend stale before handled stats s w)
    (leaves : x.store.LeavesMarks root base) (gave : ¬ x.Vain h) (normal : Uri.normalize h.1.uri = h.1.uri)
    (fresh : h.1.uri ∉ handled.map (·.1.uri)) {records : List Record}
    (goes : Action.Goes (do
      let written ← x.apply h.1.uri records
      onDirty (DirtyLog.clear h.1.uri)
      x.flushIfFull
      return { stats with indexed := stats.indexed + 1, records := stats.records + written })
        s w t (.ok stats') s' w') :
    x.Requeues root base backend stale before (handled ++ [h]) stats' s' w' := by
  rcases Action.goes_bind.1 goes with ⟨e, same, -⟩ | ⟨written, s₁, w₁, t₁, t₂, -, first, rest⟩
  · cases same
  rcases Action.goes_bind.1 rest with ⟨e, same, -⟩ | ⟨_, s₂, w₂, t₃, t₄, -, second, third⟩
  · cases same
  rcases Action.goes_bind.1 third with ⟨e, same, -⟩ | ⟨_, s₃, w₃, t₅, t₆, -, last, done⟩
  · cases same
  obtain ⟨-, same, rfl, rfl⟩ := Action.goes_pure.1 done
  cases same
  obtain ⟨search, ⟨marks, known, dirty, lists, queues⟩, errors, indexed⟩ :=
    requeues.aside (keeps_apply leaves _ _) first
  obtain ⟨r', log', ran, told, rfl⟩ := Action.goes_within.1 second
  rw [dirty] at ran
  obtain ⟨-, rfl, ⟨e, rfl, -⟩ | ⟨-, lists'⟩⟩ := lists.goes_clear ran
  · cases told
  rw [normal] at lists' last
  have some_ : x.gives h = true := by simpa [vain_iff] using gave
  have cleared : x.Requeues root base backend stale before (handled ++ [h])
      { stats with indexed := stats.indexed + 1, records := stats.records + written }
      { s₁ with dirty := remembering backend root (known.erase h.1.uri) } w₂ := by
    refine ⟨search, ⟨_, _, rfl, lists', queues.gained gave fresh⟩, ?_, ?_⟩
    · simp [errors, some_]
    · simp [indexed, some_]
  exact cleared.aside (keeps_flushIfFull leaves) last

/-- **One more file**: it is marked or cleared, and counted. -/
theorem goes_indexRead (requeues : x.Requeues root base backend stale before handled stats s w)
    (leaves : x.store.LeavesMarks root base) (own : h.Own) (fresh : h.1.uri ∉ handled.map (·.1.uri))
    (goes : (x.indexRead stats h).Goes s w t (.ok stats') s' w') :
    x.Requeues root base backend stale before (handled ++ [h]) stats' s' w' := by
  rcases Indexer.goes_indexRead own goes with ⟨vain, failed⟩ | ⟨gave, records, done⟩
  · exact requeues.goes_fail vain own.normal failed
  · exact requeues.goes_gained leaves gave own.normal fresh done

/-- The account of the errors, file by file. -/
def account (x : Indexer) (root : Path) (base : Address) (backend : Backend) (leaves : x.store.LeavesMarks root base)
    (stale : String → Prop) (before : Nat) : x.Account where
  on := x.Requeues root base backend stale before
  off _ _ _ := True
  step {_ _ _ _ _ _ _ _ r} requeues own fresh goes := by
    cases r with
    | error e => exact .inr ⟨e, rfl, trivial⟩
    | ok stats => exact .inl ⟨stats, rfl, requeues.goes_indexRead leaves own fresh goes⟩

end Indexer.Requeues

/-! ## Passes -/

/-- A pass: a run over what the sources list, forced or not, or the indexing of one file. -/
inductive Indexer.Task where
  | run (force : Bool)
  | file (path : Path)

namespace Indexer

/-- One file is indexed whether or not it has changed. -/
def Task.force : Task → Bool
  | .run force => force
  | .file _ => true

/-- A pass as an operation of an indexer. -/
def perform (x : Indexer) : Task → Indexed IndexStats
  | .run force => x.run force
  | .file path => x.indexFile path

/-- The candidates of a pass. -/
def candidates (x : Indexer) : Task → Indexed (List Path)
  | .run _ => do
    x.lock
    x.provide
  | .file path => do
    x.lock
    return [path]

/-- What a pass does when its candidates are indexed. -/
def close (x : Indexer) (stats : IndexStats) : Task → Indexed IndexStats
  | .run _ => do
    let now ← Action.ofPlain Freshness.nowSeconds
    onStore (x.store.markUpdated now)
    return stats
  | .file _ => return stats

theorem perform_eq (x : Indexer) (task : Task) :
    x.perform task = x.candidates task >>= fun paths =>
      x.indexCandidates task.force paths >>= fun stats => x.close stats task := by
  cases task with
  | run force => simp only [perform, run, candidates, close, Task.force, bind_assoc]
  | file path => simp only [perform, indexFile, candidates, close, Task.force, bind_assoc, pure_bind, bind_pure]

/-- What becomes of the candidates at some paths: each first one of a URI gets a verdict, and each that is due is dealt
with. The errors are those that could not be looked at and those that were dealt with in vain. -/
structure Sorts (x : Indexer) (force : Bool) (paths : List Path) (t : List Answered) (stats : IndexStats)
    (judged : List (Candidate × Verdict)) (handled : List Reading) : Prop where
  all : judged.map (·.1) = firsts .empty paths
  unseen : ∀ c ∈ Candidate.given .failed judged, force = false ∧ c.Unseen t
  dealt : handled.map (·.1) = Candidate.given .due judged
  read : ∀ h ∈ handled, h.In t
  errors : stats.errors = (Candidate.given .failed judged).length + handled.countP (!x.gives ·)
  indexed : stats.indexed = handled.countP x.gives

/-- The log itself lists each file that was dealt with in vain, unless it was stale, and none that gave records, unless
it is a line of a URI that is none. -/
structure Queued (x : Indexer) (base : Address) (backend : Backend) (stale : String → Prop) (handled : List Reading)
    (w : World) : Prop where
  vain : ∀ h ∈ handled, x.Vain h → added backend h.1.uri = [h.1.uri] →
    Logged base backend w h.1.uri ∨ stale h.1.uri
  gave : ∀ h ∈ handled, ¬ x.Vain h → Logged base backend w h.1.uri →
    ∃ h' ∈ handled, x.Vain h' ∧ added backend h'.1.uri ≠ [h'.1.uri] ∧ h.1.uri ∈ added backend h'.1.uri

namespace Sorts

variable {force : Bool} {paths : List Path} {stats : IndexStats} {judged : List (Candidate × Verdict)}
  {handled : List Reading}

/-- No URI is dealt with twice. -/
theorem nodup (sorts : x.Sorts force paths t stats judged handled) : (handled.map (·.1.uri)).Nodup := by
  have taken : (handled.map (·.1)).Sublist (firsts .empty paths) := by
    rw [sorts.dealt, ← sorts.all]
    exact Candidate.given_sublist .due judged
  have distinct := (Candidate.nodup_firsts .empty paths).sublist (taken.map (·.uri))
  rwa [List.map_map] at distinct

theorem append (sorts : x.Sorts force paths t stats judged handled) (before after : List Answered) :
    x.Sorts force paths (before ++ t ++ after) stats judged handled where
  all := sorts.all
  unseen c member := (sorts.unseen c member).imp_right (·.mono (by simp +contextual))
  dealt := sorts.dealt
  read h member := (sorts.read h member).mono (by simp +contextual)
  errors := sorts.errors
  indexed := sorts.indexed

end Sorts

/-- What is accounted for at the end of a pass is queued. -/
theorem Requeues.queued {stale : String → Prop} {before : Nat} {handled : List Reading} {stats : IndexStats}
    (requeues : x.Requeues root base backend stale before handled stats s w)
    (distinct : (handled.map (·.1.uri)).Nodup) : x.Queued base backend stale handled w := by
  obtain ⟨-, ⟨marks, known, -, lists, queues⟩, -, -⟩ := requeues
  refine ⟨fun h member vain own => ?_, fun h member gave listed => ?_⟩
  · exact (queues.vain h member vain own).imp_left lists.logged_iff.2
  · obtain ⟨h', member', vain, line⟩ := queues.gave h member gave (lists.logged_iff.1 listed)
    refine ⟨h', member', vain, fun own => gave ?_, line⟩
    rw [own, List.mem_singleton] at line
    rwa [List.inj_on_of_nodup_map distinct member member' line]

/-- The candidates of a pass are given while its handle stays in step. -/
theorem goes_candidates (works : x.Works root base backend) (ready : Ready root base backend s w) {task : Task}
    {paths : List Path} (goes : (x.candidates task).Goes s w t (.ok paths) s' w') :
    s'.search.Under root ∧ InStep root base backend (Stale base backend s.dirty w) s'.dirty w' := by
  obtain ⟨search, ⟨known, dirty⟩, stocked⟩ := ready
  obtain ⟨marks, lists⟩ := stocked.lists
  have inStep : InStep root base backend (Stale base backend s.dirty w) s.dirty w := by
    refine ⟨marks, known, dirty, lists, fun uri member => ?_⟩
    by_cases listed : uri ∈ marks
    · exact .inl listed
    · exact .inr ⟨by rwa [dirty, DirtyLog.known_remembering], fun logged => listed (lists.logged_iff.1 logged)⟩
  have locked : ∀ {t s₁ w₁}, x.lock.Goes s w t (.ok ()) s₁ w₁ →
      s₁.search.Under root ∧ InStep root base backend (Stale base backend s.dirty w) s₁.dirty w₁ := fun goes => by
    obtain ⟨search₁, dirty₁, left⟩ := keeps_lock works.located s.dirty w ⟨search, rfl, .refl stocked.hosts⟩ goes
    obtain ⟨marks, known, same, lists, remembered⟩ := inStep
    exact ⟨search₁, marks, known, dirty₁.trans same, left.lists lists, remembered⟩
  cases task with
  | run force =>
      rcases Action.goes_bind.1 goes with ⟨e, same, -⟩ | ⟨_, s₁, w₁, t₁, t₂, -, first, rest⟩
      · cases same
      obtain ⟨search₁, inStep₁⟩ := locked first
      obtain ⟨r', log', ran, told, rfl⟩ := Action.goes_within.1 rest
      cases r' with
      | error e => cases told
      | ok found => exact ⟨search₁, Source.goes_provideAll_inStep works.listings inStep₁ ran⟩
  | file path =>
      rcases Action.goes_bind.1 goes with ⟨e, same, -⟩ | ⟨_, s₁, w₁, t₁, t₂, -, first, rest⟩
      · cases same
      obtain ⟨-, -, rfl, rfl⟩ := Action.goes_pure.1 rest
      exact locked first

/-- **A pass over any candidates** queues what it dealt with in vain, and nothing that gave records. -/
theorem goes_indexCandidates {stale : String → Prop} (works : x.Works root base backend)
    (search : s.search.Under root) (inStep : InStep root base backend stale s.dirty w) {force : Bool}
    {paths : List Path} {stats : IndexStats}
    (goes : (x.indexCandidates force paths).Goes s w t (.ok stats) s' w') :
    ∃ judged handled, x.Sorts force paths t stats judged handled ∧
      x.Requeues root base backend stale (Candidate.given .failed judged).length handled stats s' w' := by
  rcases Action.goes_bind.1 goes with ⟨e, same, -⟩ | ⟨choice, s₁, w₁, t₁, t₂, rfl, first, rest⟩
  · cases same
  rcases Action.goes_bind.1 rest with ⟨e, same, -⟩ | ⟨stats', s₂, w₂, t₃, t₄, rfl, second, third⟩
  · cases same
  rcases Action.goes_bind.1 third with ⟨e, same, -⟩ | ⟨_, s₃, w₃, t₅, t₆, rfl, last, done⟩
  · cases same
  obtain ⟨rfl, same, rfl, rfl⟩ := Action.goes_pure.1 done
  cases same
  obtain ⟨judged, all, verdicts⟩ := goes_considerAll first
  have due : choice.due.reverse = Candidate.given .due judged := by simp [verdicts.due]
  have among : (Candidate.given .due judged).Sublist (firsts .empty paths) := all ▸ Candidate.given_sublist .due judged
  have start : x.Requeues root base backend stale (Candidate.given .failed judged).length [] choice.stats s₁ w₁ := by
    obtain ⟨marks, known, dirty, lists, remembered⟩ := inStep
    have here : x.Requeues root base backend stale (Candidate.given .failed judged).length [] choice.stats s w :=
      ⟨search, ⟨marks, known, dirty, lists, fun uri member _ => remembered uri member, nofun, nofun⟩,
        by simpa using verdicts.errors, verdicts.indexed⟩
    exact here.aside
      (fun log w₀ => .foldlM (fun choice path => keeps_consider works.leaves force choice path log w₀) _ _) first
  have flat := flatten_chunks x.readWidth choice.due.reverse
  have own : ∀ c ∈ (chunks x.readWidth choice.due.reverse).flatten, c = .ofPath c.path := fun c member =>
    (Candidate.mem_firsts (among.subset (due ▸ flat ▸ member))).1
  have distinct : ((chunks x.readWidth choice.due.reverse).flatten.map (·.uri)).Nodup := by
    rw [flat, due]
    exact (Candidate.nodup_firsts .empty paths).sublist (among.map _)
  cases Account.goes_indexChunks (a := Requeues.account x root base backend works.leaves stale _) start own distinct
    second with
  | all taken read requeues =>
      rw [flat, due] at taken
      rw [List.nil_append] at requeues
      refine ⟨judged, _, ?_, requeues.aside (keeps_flush works.leaves) last⟩
      exact {
        all := all
        unseen := fun c member => (verdicts.failed c member).imp_right (·.mono (by simp +contextual))
        dealt := taken.symm
        read := fun h member => (read h member).mono (by simp +contextual)
        errors := requeues.errors
        indexed := requeues.indexed }

/-- **Files that a pass could not read or got nothing from are marked when it ends, and files that gave records are
not.** They are all the errors of the pass, but for the files that it could not look at. -/
theorem failed_queued (works : x.Works root base backend) (ready : Ready root base backend s w) {task : Task}
    {stats : IndexStats} (goes : (x.perform task).Goes s w t (.ok stats) s' w') :
    ∃ paths judged handled,
      (∃ s₁ w₁ t₁ t₂, t = t₁ ++ t₂ ∧ (x.candidates task).Goes s w t₁ (.ok paths) s₁ w₁) ∧
      x.Sorts task.force paths t stats judged handled ∧
      x.Queued base backend (Stale base backend s.dirty w) handled w' := by
  rw [perform_eq] at goes
  rcases Action.goes_bind.1 goes with ⟨e, same, -⟩ | ⟨paths, s₁, w₁, t₁, t₂, rfl, first, rest⟩
  · cases same
  rcases Action.goes_bind.1 rest with ⟨e, same, -⟩ | ⟨stats', s₂, w₂, t₃, t₄, rfl, second, third⟩
  · cases same
  obtain ⟨search, inStep⟩ := goes_candidates works ready first
  obtain ⟨judged, handled, sorts, requeues⟩ := goes_indexCandidates works search inStep second
  have closed : stats = stats' ∧
      x.Requeues root base backend (Stale base backend s.dirty w) (Candidate.given .failed judged).length handled
        stats' s' w' := by
    cases task with
    | run force =>
        have told : stats = stats' := by
          rcases Action.goes_bind.1 third with ⟨e, same, -⟩ | ⟨now, s₃, w₃, t₅, t₆, -, -, noting⟩
          · cases same
          rcases Action.goes_bind.1 noting with ⟨e, same, -⟩ | ⟨_, s₄, w₄, t₇, t₈, -, -, done⟩
          · cases same
          exact Except.ok.inj (Action.goes_pure.1 done).2.1
        refine ⟨told, requeues.aside (fun log w₀ => ?_) third⟩
        exact .bind (keeps_nowSeconds log w₀) fun _ => .bind (keeps_markUpdated works.leaves _ log w₀) fun _ => .pure _
    | file path =>
        obtain ⟨-, same, rfl, rfl⟩ := Action.goes_pure.1 third
        exact ⟨Except.ok.inj same, requeues⟩
  obtain ⟨rfl, requeues'⟩ := closed
  refine ⟨paths, judged, handled, ⟨s₁, w₁, t₁, t₃ ++ t₄, rfl, first⟩, ?_, requeues'.queued sorts.nodup⟩
  simpa using sorts.append t₁ t₄

end Indexer

/-! ## A mark that is not made again -/

/-- A path through the file beside the small index, as if that were a directory. -/
def lostPath : Path := ⟨[47, 97, 46, 112, 104, 112, 47, 98]⟩

/-- Nothing is found below a file. -/
theorem World.Shows.mtime_lost {w : World} {content : Text.Bytes} {modified : Int} (shown : w.Shows content modified) :
    w.mtime lostPath = .error .notDirectory := by
  have located : w.disk.locate true lostPath = w.disk.walk true false Disk.maxLinks [] [smallName, [98]] := rfl
  have missing : w.disk.find true lostPath = .error .notDirectory := by
    rw [Disk.find, located, Disk.walk_cons (by decide) (by decide), shown.file]
    rfl
  rw [World.mtime, Disk.stat, missing]
  rfl

/-- A run of the small index cannot look at a file that was marked, and the log lists nothing afterwards. -/
theorem small_run_unseen (extract : Extractor) (total : ∀ document, extract document ≠ none) : ∃ s w stats s' w',
    History (smallIndexer extract) smallConfig smallSite .any s w ∧
      Indexer.Ready smallSite.root smallSite.base .sqlite s w ∧
      Logged smallSite.base .sqlite w "file:///a.php/b" ∧ w.mtime lostPath = .error .notDirectory ∧
      outcome ((smallIndexer extract).run false) s w = (.ok stats, s', w') ∧ stats.errors ≠ 0 ∧
      ∀ uri, ¬ Logged smallSite.base .sqlite w' uri := by
  obtain ⟨s₀, w₀, history, stands₀, hasFile⟩ := History.Comes.start extract .any
  obtain ⟨marks, s, w, marked, stands, still, grown, member⟩ := stands₀.mark_ok "/a.php/b"
  have normal : Uri.normalize "/a.php/b" = "file:///a.php/b" := by decide +kernel
  rw [normal] at grown member
  have listed : "file:///a.php/b" ∈ marks := member rfl
  obtain rfl : marks = ["file:///a.php/b"] := grown.resolve_left fun nothing => by
    rw [nothing] at listed
    cases listed
  have shown := History.shows_of_around still.toAround hasFile
  obtain ⟨ready, there⟩ := ready_of_stands stands
  obtain ⟨selection, root, asks⟩ := small_asks extract
  have told : Action.Along ((smallIndexer extract).Told smallSite .any) ((smallIndexer extract).run false) s w :=
    small_told (fun _ _ _ => trivial) (fun _ => trivial) _ s w
  obtain ⟨v, beside, ran⟩ := stands.run_ok (smallIndexer_made extract).at_ asks told
  have shown₁ := History.shows_of_around beside.around shown
  have all : Listing.all v [.project selection, .stub false smallPath] = .ok [smallPath] := by
    rw [Listing.all, shown₁.run_project root, Listing.all, shown₁.run_stub]
    rfl
  rw [all] at ran
  obtain ⟨findings, b, time, v', s', w', done, beside', stands', around, given, taken, found, pass⟩ := ran
  have shown₂ := History.shows_of_around beside'.around shown
  have listing : [smallPath] ++ (firstOccurrences ["file:///a.php/b"]).map Uri.toPath = [smallPath, lostPath] := by
    decide +kernel
  have firsts_eq : firsts .empty [smallPath, lostPath] = [.ofPath smallPath, .ofPath lostPath] :=
    Candidate.firsts_of_nodup (by decide +kernel) fun _ _ => SortedSet.not_mem_empty _
  rw [listing] at taken pass
  have failed : ∀ h : Holdings, h.verdict v' false (.ofPath lostPath) = .failed := fun h => by
    rw [Holdings.verdict, Holdings.judged, show (Candidate.ofPath lostPath).path = lostPath from rfl,
      shown₂.mtime_lost]
    rfl
  have whole : ∀ p ∈ findings, p.2 ≠ none := fun p member => by
    have due := taken ▸ List.mem_map_of_mem member
    rw [Holdings.due_chosen, firsts_eq, List.mem_filter, decide_eq_true_iff] at due
    have path : p.1 = .ofPath smallPath := by
      rcases List.mem_pair.1 due.1 with same | same
      · exact same
      · rw [same, failed] at due
        cases due.2
    obtain ⟨v'', around'', -, same⟩ := found p member
    rw [same, path, Indexer.look, Candidate.documentIn, show (Candidate.ofPath smallPath).path = smallPath from rfl,
      (History.shows_of_around around'' shown₂).read]
    exact total _
  have errors : b.1.errors ≠ 0 := fun none_ => by
    have verdicts := (Holdings.errors_considered _ _ _ _ _).1 (pass.errors.1 none_).1
    exact verdicts.2 (.ofPath lostPath) (by rw [firsts_eq]; simp) (failed _)
  have bare : b.2.marks = [] := pass.unmarked whole rfl
  refine ⟨s, w, b.1, s', w', history.mark marked, ready, (there _).2 listed, shown.mtime_lost, done, errors,
    fun uri logged => ?_⟩
  have still' := ((ready_of_stands stands').2 uri).1 logged
  rw [show (b.2.builtAt time).marks = b.2.marks from rfl, bare] at still'
  cases still'

/-- A run in which one file could not be looked at, another gave records, and neither is listed. -/
theorem sample_failed_queued : ∃ s w t stats s' w' paths judged handled,
    ((smallIndexer fun _ => some []).perform (.run false)).Goes s w t (.ok stats) s' w' ∧
      (∃ s₁ w₁ t₁ t₂, t = t₁ ++ t₂ ∧
        ((smallIndexer fun _ => some []).candidates (.run false)).Goes s w t₁ (.ok paths) s₁ w₁) ∧
      (smallIndexer fun _ => some []).Sorts false paths t stats judged handled ∧
      (smallIndexer fun _ => some []).Queued smallSite.base .sqlite (Stale smallSite.base .sqlite s.dirty w) handled
        w' := by
  obtain ⟨s, w, stats, s', w', -, ready, -, -, done, -⟩ := small_run_unseen (fun _ => some []) nofun
  obtain ⟨t, goes⟩ := Action.goes_of_outcome done
  replace goes : ((smallIndexer fun _ => some []).perform (.run false)).Goes s w t (.ok stats) s' w' := goes
  obtain ⟨works, -⟩ := Indexer.works_ofConfig smallSite.base (smallIndexer_made fun _ => some []).made
  obtain ⟨paths, judged, handled, given, sorts, queued⟩ := Indexer.failed_queued works ready goes
  exact ⟨s, w, t, stats, s', w', paths, judged, handled, goes, given, sorts, queued⟩

/-- **A file that cannot be looked at loses its mark**: the run succeeds and counts an error, and the log lists
nothing afterwards. -/
theorem unseen_mark_lost : ∃ s w stats s' w',
    History (smallIndexer fun _ => some []) smallConfig smallSite .any s w ∧
      Logged smallSite.base .sqlite w "file:///a.php/b" ∧ w.mtime lostPath = .error .notDirectory ∧
      outcome ((smallIndexer fun _ => some []).run false) s w = (.ok stats, s', w') ∧ stats.errors ≠ 0 ∧
      ∀ uri, ¬ Logged smallSite.base .sqlite w' uri := by
  obtain ⟨s, w, stats, s', w', history, -, lost⟩ := small_run_unseen (fun _ => some []) nofun
  exact ⟨s, w, stats, s', w', history, lost⟩

end SymbolIndex
