import SymbolIndex.Proofs.Index.Taking

/-!
# Proofs.Index.Failing — the marks of a pass that fails

A pass drains the log before it looks at the first file, so the marks that it has drained are gone when it fails later
on. What the log lists then are the files that the pass marked itself, because it could not read them or they gave no
records (`Indexer.Tallies`). One more file that is dealt with keeps that account (`Relists.goes_indexRead`), so a pass
keeps it up to the file at which it fails, or to its end (`Relists.goes_indexChunks`).

So what awaited a drain when a run began is listed when it fails, unless a drain of that run answered it
(`Indexer.awaiting_listed_or_drained`); that is so of every state that an index comes to (`Indexer.Comes.ready`). A
mark that was drained may be lost with its file neither read nor written (`drained_mark_lost`).
-/

namespace SymbolIndex

open Candidate (firsts)
open DirtyLog (Awaits Drained Listed Stocked Tidy added remembering)

set_option autoImplicit false

variable {root : Path} {base : Address} {backend : Backend} {x : Indexer} {s s' : IndexState} {w w' : World}
  {t : List Answered}

/-! ## The account of the marks -/

/-- The entries of a log are the files that a pass dealt with in vain. All that its handle remembers are files that
the pass dealt with. -/
structure Indexer.Tallies (x : Indexer) (backend : Backend) (handled : List Reading) (marks : List String)
    (known : SortedSet String) : Prop where
  only : ∀ uri ∈ marks, ∃ h ∈ handled, x.Vain h ∧ uri ∈ added backend h.1.uri
  all : ∀ h ∈ handled, x.Vain h → added backend h.1.uri = [h.1.uri] → h.1.uri ∈ marks
  known : ∀ uri, known.contains uri = true → uri ∈ handled.map (·.1.uri)

namespace Indexer.Tallies

variable {handled : List Reading} {marks : List String} {known : SortedSet String} {h : Reading} {uri : String}

theorem nil (x : Indexer) (backend : Backend) : x.Tallies backend [] [] .empty where
  only := by simp
  all := by simp
  known uri member := absurd (Candidate.contains_iff.1 member) (SortedSet.not_mem_empty uri)

/-- A file that was dealt with in vain is marked. -/
theorem marked (tallies : x.Tallies backend handled marks known) (vain : x.Vain h) :
    x.Tallies backend (handled ++ [h]) (marks ++ added backend h.1.uri) (known.insert h.1.uri) where
  only uri member := by
    rcases List.mem_append.1 member with member | member
    · obtain ⟨h', there, rest⟩ := tallies.only uri member
      exact ⟨h', by simp [there], rest⟩
    · exact ⟨h, by simp, vain, member⟩
  all h' member vain' own := by
    rcases List.mem_append.1 member with member | member
    · exact List.mem_append_left _ (tallies.all h' member vain' own)
    · obtain rfl := List.mem_singleton.1 member
      rw [own]
      simp
  known uri member := by
    rcases SortedSet.mem_insert.1 (Candidate.contains_iff.1 member) with rfl | member
    · simp
    · have := tallies.known uri (Candidate.contains_iff.2 member)
      simp [List.map_append] at this ⊢
      exact .inl this

/-- What a pass has not dealt with may be cleared. -/
theorem cleared (tallies : x.Tallies backend handled marks known) (fresh : uri ∉ handled.map (·.1.uri)) :
    x.Tallies backend handled (marks.filter (· ≠ uri)) (known.erase uri) where
  only uri' member := tallies.only uri' (List.mem_filter.1 member).1
  all h member vain own := by
    refine List.mem_filter.2 ⟨tallies.all h member vain own, decide_eq_true ?_⟩
    rintro rfl
    exact fresh (List.mem_map.2 ⟨h, member, rfl⟩)
  known uri' member := by
    have there := SortedSet.mem_erase.1 (Candidate.contains_iff.1 member)
    exact tallies.known uri' (Candidate.contains_iff.2 there.1)

/-- A file that gave records needs no mark. -/
theorem gained (tallies : x.Tallies backend handled marks known) (gave : ¬ x.Vain h) :
    x.Tallies backend (handled ++ [h]) marks known where
  only uri member := by
    obtain ⟨h', there, rest⟩ := tallies.only uri member
    exact ⟨h', by simp [there], rest⟩
  all h' member vain own := by
    rcases List.mem_append.1 member with member | member
    · exact tallies.all h' member vain own
    · exact absurd (List.mem_singleton.1 member ▸ vain) gave
  known uri member := by
    rw [List.map_append]
    exact List.mem_append_left _ (tallies.known uri member)

end Indexer.Tallies

/-- The log of an indexer lists the files that a pass dealt with in vain, and nothing else. -/
structure Indexer.Relists (x : Indexer) (root : Path) (base : Address) (backend : Backend) (handled : List Reading)
    (s : IndexState) (w : World) : Prop where
  search : s.search.Under root
  log : ∃ marks known, s.dirty = remembering backend root known ∧ Tidy root base marks w backend ∧
    x.Tallies backend handled marks known

/-- A pass that has dealt with some files takes up others: it deals with all of them, or ends with an error at one. -/
inductive Indexer.Deals (x : Indexer) (root : Path) (base : Address) (backend : Backend) (handled : List Reading)
    (due : List Candidate) (t : List Answered) : Except IndexError IndexStats → IndexState → World → Prop where
  | all {stats : IndexStats} {s' : IndexState} {w' : World} {found : List Reading} (taken : due = found.map Prod.fst)
      (read : ∀ h ∈ found, h.In t) (relists : x.Relists root base backend (handled ++ found) s' w') :
      Deals x root base backend handled due t (.ok stats) s' w'
  | halted {e : IndexError} {s' : IndexState} {w' : World} {found : List Reading} {next : Reading}
      {rest : List Candidate} (taken : due = found.map Prod.fst ++ next.1 :: rest) (read : ∀ h ∈ found, h.In t)
      (relists : x.Relists root base backend (handled ++ found) s' w') (halts : x.Halts e next t s' w') :
      Deals x root base backend handled due t (.error e) s' w'

namespace Indexer.Relists

variable {handled found : List Reading} {h : Reading} {stats : IndexStats} {r : Except IndexError IndexStats}

theorem aside {α : Type} {a : Indexed α} {r : Except IndexError α} (relists : x.Relists root base backend handled s w)
    (kept : KeepsAside root base a) (goes : a.Goes s w t r s' w') : x.Relists root base backend handled s' w' := by
  obtain ⟨search, marks, known, dirty, tidy, tallies⟩ := relists
  obtain ⟨search', dirty', left⟩ := kept s.dirty w ⟨search, rfl, .refl tidy.stocked.hosts⟩ goes
  exact ⟨search', marks, known, dirty'.trans dirty, left.tidy tidy, tallies⟩

theorem goes_mark (relists : x.Relists root base backend handled s w) (vain : x.Vain h)
    (normal : Uri.normalize h.1.uri = h.1.uri) (fresh : h.1.uri ∉ handled.map (·.1.uri)) {r : Except IndexError Unit}
    (goes : (onDirty (DirtyLog.mark h.1.uri)).Goes s w t r s' w') :
    (r = .ok () ∧ x.Relists root base backend (handled ++ [h]) s' w') ∨
      (∃ e, r = .error e ∧ x.Relists root base backend handled s' w') := by
  obtain ⟨search, marks, known, dirty, tidy, tallies⟩ := relists
  have unknown : ¬ known.contains h.1.uri = true := fun member => fresh (tallies.known _ member)
  obtain ⟨r', log', ran, rfl, rfl⟩ := Action.goes_within.1 goes
  rw [dirty] at ran
  rcases tidy.goes_mark ran with ⟨e, rfl, rfl, tidy'⟩ | ⟨rfl, rfl, tidy'⟩
  · exact .inr ⟨_, rfl, search, marks, known, rfl, tidy', tallies⟩
  · rw [DirtyLog.Command.leaves, normal, if_neg unknown] at tidy'
    refine .inl ⟨rfl, search, _, _, rfl, tidy', ?_⟩
    rw [DirtyLog.Command.recalls, normal, if_neg unknown]
    exact tallies.marked vain

/-- A file that was dealt with in vain is marked, or the mark fails. -/
theorem goes_fail (relists : x.Relists root base backend handled s w) (vain : x.Vain h)
    (normal : Uri.normalize h.1.uri = h.1.uri) (fresh : h.1.uri ∉ handled.map (·.1.uri))
    (goes : (Indexer.fail stats h.1.uri).Goes s w t r s' w') :
    (∃ stats', r = .ok stats' ∧ x.Relists root base backend (handled ++ [h]) s' w') ∨
      (∃ e, r = .error e ∧ x.Relists root base backend handled s' w') := by
  rcases Action.goes_bind.1 goes with ⟨e, rfl, first⟩ | ⟨_, s₁, w₁, t₁, t₂, rfl, first, rest⟩
  · rcases relists.goes_mark vain normal fresh first with ⟨same, -⟩ | ⟨_, -, relists'⟩
    · cases same
    · exact .inr ⟨e, rfl, relists'⟩
  · obtain ⟨-, rfl, rfl, rfl⟩ := Action.goes_pure.1 rest
    rcases relists.goes_mark vain normal fresh first with ⟨-, relists'⟩ | ⟨_, same, -⟩
    · exact .inl ⟨_, rfl, relists'⟩
    · cases same

/-- A clear of a file that a pass has not dealt with keeps the account, also if it fails. -/
theorem goes_clear (relists : x.Relists root base backend handled s w) {uri : String}
    (normal : Uri.normalize uri = uri) (fresh : uri ∉ handled.map (·.1.uri)) {r : Except IndexError Unit}
    (goes : (onDirty (DirtyLog.clear uri)).Goes s w t r s' w') : x.Relists root base backend handled s' w' := by
  obtain ⟨search, marks, known, dirty, tidy, tallies⟩ := relists
  obtain ⟨r', log', ran, rfl, rfl⟩ := Action.goes_within.1 goes
  rw [dirty] at ran
  have cleared := tallies.cleared fresh
  obtain ⟨rfl, ⟨e, rfl, tidy'⟩ | ⟨rfl, tidy'⟩⟩ := tidy.goes_clear ran
  · rw [normal]
    exact ⟨search, _, _, rfl, tidy', tallies.only, tallies.all, cleared.known⟩
  · rw [normal] at tidy' ⊢
    exact ⟨search, _, _, rfl, tidy', cleared⟩

/-- What is listed are files that were dealt with in vain. -/
theorem listed (relists : x.Relists root base backend handled s w) {uri : String} (listed : Listed base backend w uri) :
    ∃ h ∈ handled, x.Vain h ∧ uri ∈ added backend h.1.uri := by
  obtain ⟨-, marks, known, -, tidy, tallies⟩ := relists
  exact tallies.only uri (tidy.listed_iff.1 listed)

/-- A file that was dealt with in vain is listed. -/
theorem vain (relists : x.Relists root base backend handled s w) (member : h ∈ handled) (vain : x.Vain h)
    (own : added backend h.1.uri = [h.1.uri]) : Listed base backend w h.1.uri := by
  obtain ⟨-, marks, known, -, tidy, tallies⟩ := relists
  exact tidy.listed_iff.2 (tallies.all h member vain own)

theorem gained (relists : x.Relists root base backend handled s w) (gave : ¬ x.Vain h) :
    x.Relists root base backend (handled ++ [h]) s w := by
  obtain ⟨search, marks, known, dirty, tidy, tallies⟩ := relists
  exact ⟨search, marks, known, dirty, tidy, tallies.gained gave⟩

/-- **One more file**: it is dealt with, or the pass ends at it. -/
theorem goes_indexRead (relists : x.Relists root base backend handled s w) (leaves : x.store.LeavesMarks root base)
    (own : h.Own) (fresh : h.1.uri ∉ handled.map (·.1.uri)) (goes : (x.indexRead stats h).Goes s w t r s' w') :
    (∃ stats', r = .ok stats' ∧ x.Relists root base backend (handled ++ [h]) s' w') ∨
      (∃ e, r = .error e ∧ x.Relists root base backend handled s' w') := by
  rcases Indexer.goes_indexRead own goes with ⟨vain, failed⟩ | ⟨gave, records, goes⟩
  · exact relists.goes_fail vain own.normal fresh failed
  rcases Action.goes_bind.1 goes with ⟨e, rfl, first⟩ | ⟨written, s₁, w₁, t₁, t₂, -, first, rest⟩
  · exact .inr ⟨e, rfl, relists.aside (keeps_apply leaves _ _) first⟩
  have applied := relists.aside (keeps_apply leaves _ _) first
  rcases Action.goes_bind.1 rest with ⟨e, rfl, second⟩ | ⟨_, s₂, w₂, t₃, t₄, -, second, third⟩
  · exact .inr ⟨e, rfl, applied.goes_clear own.normal fresh second⟩
  have cleared := applied.goes_clear own.normal fresh second
  rcases Action.goes_bind.1 third with ⟨e, rfl, last⟩ | ⟨_, s₃, w₃, t₅, t₆, -, last, done⟩
  · exact .inr ⟨e, rfl, cleared.aside (keeps_flushIfFull leaves) last⟩
  obtain ⟨-, rfl, rfl, rfl⟩ := Action.goes_pure.1 done
  exact .inl ⟨_, rfl, (cleared.aside (keeps_flushIfFull leaves) last).gained gave⟩

/-- The account of the marks, file by file. -/
def account (x : Indexer) (root : Path) (base : Address) (backend : Backend) (leaves : x.store.LeavesMarks root base) :
    x.Account where
  on handled _ s w := x.Relists root base backend handled s w
  off handled s w := x.Relists root base backend handled s w
  step relists own fresh goes := relists.goes_indexRead leaves own fresh goes

/-- **A pass deals with candidates chunk by chunk**, up to a file at which it ends. -/
theorem goes_indexChunks {pieces : List (List Candidate)} (relists : x.Relists root base backend handled s w)
    (leaves : x.store.LeavesMarks root base) (own : ∀ c ∈ pieces.flatten, c = .ofPath c.path)
    (distinct : ((handled.map Prod.fst ++ pieces.flatten).map (·.uri)).Nodup)
    (goes : (pieces.foldlM x.indexChunk stats).Goes s w t r s' w') :
    x.Deals root base backend handled pieces.flatten t r s' w' := by
  cases Account.goes_indexChunks (a := account x root base backend leaves) relists own distinct goes with
  | all taken read relists' => exact .all taken read relists'
  | halted taken read relists' halts => exact .halted taken read relists' halts

end Indexer.Relists

/-! ## Choosing -/

theorem Indexer.Relists.ready {handled : List Reading} (relists : x.Relists root base backend handled s w) :
    Indexer.Ready root base backend s w := by
  obtain ⟨search, marks, known, dirty, tidy, -⟩ := relists
  exact ⟨search, ⟨known, dirty⟩, tidy.stocked⟩

/-- What a run does before it reads the first file. -/
def Indexer.choose (x : Indexer) (force : Bool) : Indexed Choice := do
  x.lock
  let paths ← x.provide
  paths.foldlM (x.consider force) { stats := { candidates := paths.length } }

/-- What a run does with the files that it chose. -/
def Indexer.takeUp (x : Indexer) (choice : Choice) : Indexed IndexStats := do
  let stats ← (chunks x.readWidth choice.due.reverse).foldlM x.indexChunk choice.stats
  x.flush
  let now ← Action.ofPlain Freshness.nowSeconds
  onStore (x.store.markUpdated now)
  return stats

theorem Indexer.run_eq (x : Indexer) (force : Bool) : x.run force = x.choose force >>= x.takeUp := by
  simp only [run, indexCandidates, choose, bind_assoc, pure_bind]
  rfl

namespace Indexer

variable {force : Bool} {choice choice' : Choice} {paths : List Path}

theorem due_goes_choose (goes : (x.choose force).Goes s w t (.ok choice) s' w') :
    (∀ c ∈ choice.due.reverse, c = .ofPath c.path) ∧ (choice.due.reverse.map (·.uri)).Nodup := by
  rcases Action.goes_bind.1 goes with ⟨e, same, -⟩ | ⟨_, s₁, w₁, t₁, t₂, -, -, rest⟩
  · cases same
  rcases Action.goes_bind.1 rest with ⟨e, same, -⟩ | ⟨paths, s₂, w₂, t₃, t₄, -, -, last⟩
  · cases same
  obtain ⟨judged, all, verdicts⟩ := goes_considerAll last
  have among : (Candidate.given .due judged).Sublist (firsts .empty paths) := all ▸ Candidate.given_sublist .due judged
  have picked : choice.due.reverse = Candidate.given .due judged := by simp [verdicts.due]
  rw [picked]
  exact ⟨fun c member => (Candidate.mem_firsts (among.subset member)).1,
    (Candidate.nodup_firsts .empty paths).sublist (among.map _)⟩

/-- **Choosing drains the log or leaves it alone**: what awaits a drain is listed, or it was answered and nothing is
listed any more. -/
theorem goes_choose (works : x.Works root base backend) (drains : .dirtyLog ∈ x.sources)
    (ready : Ready root base backend s w) {uri : String} (awaits : Awaits base backend w uri)
    {r : Except IndexError Choice} (goes : (x.choose force).Goes s w t r s' w') :
    (Listed base backend w' uri ∧ ∃ e, r = .error e) ∨
      (Drained uri t ∧ ((∃ e, r = .error e ∧ ∀ uri, ¬ Listed base backend w' uri) ∨
        (∃ choice, r = .ok choice ∧ x.Relists root base backend [] s' w'))) := by
  obtain ⟨search, ⟨known, dirty⟩, stocked⟩ := ready
  have locked : ∀ {t r s₁ w₁}, x.lock.Goes s w t r s₁ w₁ → Aside root base s.dirty w s₁ w₁ := fun goes =>
    keeps_lock works.located s.dirty w ⟨search, rfl, .refl stocked.hosts⟩ goes
  rcases Action.goes_bind.1 goes with ⟨e, rfl, first⟩ | ⟨_, s₁, w₁, t₁, t₂, rfl, first, rest⟩
  · exact .inl ⟨(locked first).marks.listed_iff.2 awaits.listed, e, rfl⟩
  obtain ⟨search₁, dirty₁, left⟩ := locked first
  -- The sources are asked in the world that the lock has left.
  have provided : ∀ {t r s₂ w₂}, x.provide.Goes s₁ w₁ t r s₂ w₂ → s₂.search = s₁.search ∧
      ((Listed base backend w₂ uri ∧ ∃ e, r = .error e) ∨
        (Drained uri t ∧ s₂.dirty = remembering backend root .empty ∧ Source.Emptied root base backend r w₂)) := by
    intro t r s₂ w₂ goes
    obtain ⟨r', log', ran, rfl, rfl⟩ := Action.goes_within.1 goes
    rw [dirty₁, dirty] at ran
    have same : r'.mapError id = r' := by cases r' <;> rfl
    rw [same]
    refine ⟨rfl, ?_⟩
    rcases Source.goes_provideAll works.listings (left.stocked stocked) (left.awaits_iff.2 awaits) ran with
      ⟨-, -, listed, failed | none_⟩ | emptied
    · exact .inl ⟨listed, failed⟩
    · exact absurd drains none_
    · exact .inr emptied
  rcases Action.goes_bind.1 rest with ⟨e, rfl, second⟩ | ⟨paths, s₂, w₂, t₃, t₄, rfl, second, third⟩
  · obtain ⟨-, ⟨listed, -⟩ | ⟨drained, -, emptied⟩⟩ := provided second
    · exact .inl ⟨listed, e, rfl⟩
    · cases emptied with
      | error _ bare => exact .inr ⟨by simpa using drained.append t₁ [], .inl ⟨e, rfl, bare⟩⟩
  · obtain ⟨same, ⟨-, e, failed⟩ | ⟨drained, dirty₂, emptied⟩⟩ := provided second
    · cases failed
    cases emptied with
    | ok tidy =>
        have start : x.Relists root base backend [] s₂ w₂ :=
          ⟨same ▸ search₁, [], .empty, dirty₂, tidy, .nil x backend⟩
        have relists : x.Relists root base backend [] s' w' :=
          start.aside
            (fun log w₀ => .foldlM (fun choice path => keeps_consider works.leaves force choice path log w₀) _ _) third
        refine .inr ⟨by simpa using drained.append t₁ t₄, ?_⟩
        cases r with
        | ok choice => exact .inr ⟨choice, rfl, relists⟩
        | error e => exact .inl ⟨e, rfl, fun uri listed => by simpa using relists.listed listed⟩

/-! ## A run that fails -/

/-- The files that a run has dealt with when it ends with an error: none while it chooses, those before the one at
which it ends, or all that it chose. -/
inductive Ends (x : Indexer) (force : Bool) (s : IndexState) (w : World) (e : IndexError) (t : List Answered)
    (s' : IndexState) (w' : World) : List Reading → Prop where
  | choosing (goes : (x.choose force).Goes s w t (.error e) s' w') : Ends x force s w e t s' w' []
  | indexing {choice : Choice} {s₁ : IndexState} {w₁ : World} {t₁ t₂ : List Answered} {handled : List Reading}
      {next : Reading} {rest : List Candidate} (trace : t = t₁ ++ t₂)
      (chose : (x.choose force).Goes s w t₁ (.ok choice) s₁ w₁)
      (due : choice.due.reverse = handled.map Prod.fst ++ next.1 :: rest) (halts : x.Halts e next t₂ s' w') :
      Ends x force s w e t s' w' handled
  | closing {choice : Choice} {s₁ : IndexState} {w₁ : World} {t₁ t₂ : List Answered} {handled : List Reading}
      (trace : t = t₁ ++ t₂) (chose : (x.choose force).Goes s w t₁ (.ok choice) s₁ w₁)
      (due : choice.due.reverse = handled.map Prod.fst) : Ends x force s w e t s' w' handled

/-- The log lists the files that could not be read or gave no records, among those that a run has dealt with, and
nothing else. (A URI that is no line of a file is listed as the lines that it is made of.) -/
structure ListsVain (x : Indexer) (base : Address) (backend : Backend) (t : List Answered) (w : World)
    (handled : List Reading) : Prop where
  read : ∀ h ∈ handled, h.In t
  only : ∀ uri, Listed base backend w uri → ∃ h ∈ handled, x.Vain h ∧ uri ∈ added backend h.1.uri
  all : ∀ h ∈ handled, x.Vain h → added backend h.1.uri = [h.1.uri] → Listed base backend w h.1.uri

/-- What a run does after its last file keeps the account. -/
theorem goes_takeUp (works : x.Works root base backend) (relists : x.Relists root base backend [] s w)
    (own : ∀ c ∈ choice.due.reverse, c = .ofPath c.path) (distinct : (choice.due.reverse.map (·.uri)).Nodup)
    {e : IndexError} (goes : (x.takeUp choice).Goes s w t (.error e) s' w') :
    ∃ handled, (∀ h ∈ handled, h.In t) ∧ x.Relists root base backend handled s' w' ∧
      (choice.due.reverse = handled.map Prod.fst ∨
        ∃ next rest, choice.due.reverse = handled.map Prod.fst ++ next.1 :: rest ∧ x.Halts e next t s' w') := by
  have dealt : ∀ {t r s₁ w₁}, ((chunks x.readWidth choice.due.reverse).foldlM x.indexChunk choice.stats).Goes
      s w t r s₁ w₁ → x.Deals root base backend [] choice.due.reverse t r s₁ w₁ := by
    intro t r s₁ w₁ goes
    have all := flatten_chunks x.readWidth choice.due.reverse
    have deals := relists.goes_indexChunks works.leaves (by rwa [all]) (by rwa [all]) goes
    rwa [all] at deals
  rcases Action.goes_bind.1 goes with ⟨e', same, first⟩ | ⟨stats, s₁, w₁, t₁, t₂, rfl, first, rest⟩
  · cases same
    cases dealt first with
    | halted due read relists' halts => exact ⟨_, read, relists', .inr ⟨_, _, due, halts⟩⟩
  · cases dealt first with
    | all due read relists' =>
        refine ⟨_, fun h member => (read h member).mono (by simp +contextual), relists'.aside ?_ rest, .inl due⟩
        exact fun log w₀ => .bind (keeps_flush works.leaves log w₀) fun _ => .bind (keeps_nowSeconds log w₀) fun _ =>
          .bind (keeps_markUpdated works.leaves _ log w₀) fun _ => .pure _

/-- **What awaits a drain when a run begins is listed when the run fails, unless a drain of the run answered it.** Then
the log lists the files that the run itself dealt with in vain before it failed, and no others. -/
theorem awaiting_listed_or_drained (works : x.Works root base backend) (drains : .dirtyLog ∈ x.sources)
    (ready : Ready root base backend s w) {uri : String} (awaits : Awaits base backend w uri) {e : IndexError}
    (goes : (x.run force).Goes s w t (.error e) s' w') :
    Listed base backend w' uri ∨
      (Drained uri t ∧ ∃ handled, x.Ends force s w e t s' w' handled ∧ x.ListsVain base backend t w' handled) := by
  rw [run_eq] at goes
  rcases Action.goes_bind.1 goes with ⟨e', same, first⟩ | ⟨choice, s₁, w₁, t₁, t₂, rfl, first, rest⟩
  · cases same
    rcases goes_choose works drains ready awaits first with ⟨listed, -⟩ | ⟨drained, ⟨_, -, bare⟩ | ⟨_, same, -⟩⟩
    · exact .inl listed
    · exact .inr ⟨drained, [], .choosing first, by simp, fun uri listed => absurd listed (bare uri), by simp⟩
    · cases same
  · rcases goes_choose works drains ready awaits first with
      ⟨-, _, same⟩ | ⟨drained, ⟨_, same, -⟩ | ⟨_, -, relists⟩⟩
    · cases same
    · cases same
    obtain ⟨own, distinct⟩ := due_goes_choose first
    obtain ⟨handled, read, relists', stop⟩ := goes_takeUp works relists own distinct rest
    refine .inr ⟨by simpa using drained.append [] t₂, handled, ?_, fun h member => ?_, fun uri => relists'.listed,
      fun h => relists'.vain⟩
    · rcases stop with due | ⟨next, others, due, halts⟩
      · exact .closing rfl first due
      · exact .indexing rfl first due halts
    · exact (read h member).mono (by simp +contextual)

end Indexer

/-! ## A mark that is lost -/

/-- An index of the small site is ready, and its log lists the marks that it stands for. -/
theorem ready_of_stands {h : Holdings} (stands : smallSite.Stands h s w) :
    Indexer.Ready smallSite.root smallSite.base .sqlite s w ∧
      ∀ uri, Listed smallSite.base .sqlite w uri ↔ uri ∈ h.marks := by
  obtain ⟨buffer, search, dirty⟩ := s
  obtain ⟨-, found, marked, hosts, -, -⟩ := stands
  cases found with
  | table =>
      cases marked with
      | @table l marked =>
        exact ⟨⟨trivial, ⟨l.pending, rfl⟩, .table hosts marked.holds⟩, fun uri => marked.holds.hasRow_iff⟩

/-- The database fails when it is asked whether a file has changed that the index does not know. -/
theorem goes_judge_failed (extract : Extractor) {h : Holdings} (stands : smallSite.Stands h s w) {path : Path}
    (unknown : h.ledger.get? (.ofFile (Candidate.ofPath path).uri) = none) {time : Int64}
    (there : w.mtime path = .ok time) :
    ∃ t, ((smallIndexer extract).judge (.ofPath path)).Goes s w t (.error (.store (.database .statement))) s w := by
  have waits : s.buffer.pending.get? (.ofFile (Candidate.ofPath path).uri) = none := by
    obtain ⟨l₀, -, same⟩ := stands.records.below
    rw [same, Buffer.get?_onto stands.records.formed] at unknown
    exact (Option.or_eq_none_iff.1 unknown).1
  have looked :
      Action.outcome (Action.ofPlain (Freshness.mtime path) : Indexed _) s w = (.ok (w.mtime path), s, w) := by
    rw [Action.outcome_ofPlain, Freshness.run_mtime]
  obtain ⟨t, first⟩ := Action.goes_of_outcome looked
  let request := Call.transact (TableStore.isFresh (Candidate.ofPath path).uri time)
  have asked : Script.Goes (s.buffer.isFresh (smallIndexer extract).store (Candidate.ofPath path).uri time).run w
      [⟨request, .error .statement⟩] (.error (.database .statement)) w := by
    rw [Buffer.isFresh, waits]
    exact .call (.failed ⟨_, rfl⟩) (.done _ _)
  have told : (Indexer.onStore
      (s.buffer.isFresh (smallIndexer extract).store (Candidate.ofPath path).uri time)).Goes s w
      [⟨request, .error .statement⟩] (.error (.store (.database .statement))) s w :=
    Action.goes_ofScript.2 ⟨rfl, Script.goes_bind.2 ⟨_, [], _, w, rfl, asked, .done _ _⟩⟩
  refine ⟨t ++ [⟨request, .error .statement⟩], Action.goes_bind.2 (.inr ⟨w.mtime path, s, w, t, _, rfl, first, ?_⟩)⟩
  rw [there]
  exact Action.goes_get_bind.2 (Action.goes_bind.2 (.inl ⟨_, rfl, told⟩))

/-- The small index fails in a run at the first file that it considers, when it has drained the mark of that file. -/
theorem small_run_failed (extract : Extractor) : ∃ s w t s' w',
    History (smallIndexer extract) smallConfig smallSite .any s w ∧
      Indexer.Ready smallSite.root smallSite.base .sqlite s w ∧ Listed smallSite.base .sqlite w "file:///a.php" ∧
      ((smallIndexer extract).run false).Goes s w t (.error (.store (.database .statement))) s' w' ∧
      smallSite.Stands .empty s' w' := by
  obtain ⟨s₀, w₀, history, stands₀, hasFile⟩ := History.Comes.start extract .any
  obtain ⟨marks, s, w, marked, stands, still, -, member⟩ := stands₀.mark_ok "/a.php"
  have normal : Uri.normalize "/a.php" = "file:///a.php" := by decide +kernel
  obtain ⟨ready, listed⟩ := ready_of_stands stands
  obtain ⟨w₁, locked, stands₁, still₁⟩ := stands.lock_ok (smallIndexer_made extract).at_
  have shown : w₁.HasFile := History.shows_of_around (still.trans still₁).toAround hasFile
  obtain ⟨chosen, root, asks⟩ := small_asks extract
  have lists : Listing.all w₁ [.project chosen, .stub false smallPath] = .ok [smallPath] := by
    rw [Listing.all, shown.run_project root, Listing.all, shown.run_stub]
    rfl
  have provided := stands₁.provide_ok asks
  rw [lists] at provided
  obtain ⟨s₂, w₂, gave, stands₂, still₂⟩ := provided
  have shown₂ : w₂.HasFile := History.shows_of_around still₂.toAround shown
  have there : w₂.mtime smallPath = .ok 0 := by
    rw [World.mtime, shown₂.stat]
    rfl
  obtain ⟨t₁, lock⟩ := Action.goes_of_outcome locked
  obtain ⟨t₂, provide⟩ := Action.goes_of_outcome gave
  obtain ⟨t₃, judge⟩ := goes_judge_failed extract stands₂ rfl there
  refine ⟨s, w, t₁ ++ (t₂ ++ t₃), s₂, w₂, history.mark marked, ready, ?_, ?_, stands₂⟩
  · exact (listed _).2 (normal ▸ member (by decide +kernel))
  · rw [Indexer.run_eq]
    refine Action.goes_bind.2 (.inl ⟨_, rfl, Action.goes_bind.2 (.inr ⟨_, _, _, _, _, rfl, lock, ?_⟩)⟩)
    refine Action.goes_bind.2 (.inr ⟨_, _, _, _, _, rfl, provide, ?_⟩)
    exact Action.goes_bind.2 (.inl ⟨_, rfl, Action.goes_bind.2 (.inl ⟨_, rfl, judge⟩)⟩)

/-- The mark of the file is listed, or a drain of the run answered it, and the log lists what the run marked. -/
theorem sample_awaiting_listed_or_drained : ∃ s w t s' w',
    ((smallIndexer fun _ => none).run false).Goes s w t (.error (.store (.database .statement))) s' w' ∧
      (Listed smallSite.base .sqlite w' "file:///a.php" ∨
        (Drained "file:///a.php" t ∧ ∃ handled,
          (smallIndexer fun _ => none).Ends false s w (.store (.database .statement)) t s' w' handled ∧
          (smallIndexer fun _ => none).ListsVain smallSite.base .sqlite t w' handled)) := by
  obtain ⟨s, w, t, s', w', -, ready, listed, goes, -⟩ := small_run_failed fun _ => none
  obtain ⟨works, drains⟩ := Indexer.works_ofConfig smallSite.base (smallIndexer_made fun _ => none).made
  exact ⟨s, w, t, s', w', goes, Indexer.awaiting_listed_or_drained works drains ready listed goes⟩

/-- **A drained mark is lost when the run fails at its file**: no run of the index has failed before, the file is
marked, and after the run the log does not list it, while no record of it is stored or waits to be. -/
theorem drained_mark_lost : ∃ s w t s' w',
    History (smallIndexer fun _ => some []) smallConfig smallSite .any s w ∧
      Listed smallSite.base .sqlite w "file:///a.php" ∧
      ((smallIndexer fun _ => some []).run false).Goes s w t (.error (.store (.database .statement))) s' w' ∧
      ¬ Listed smallSite.base .sqlite w' "file:///a.php" ∧ smallSite.Stands .empty s' w' := by
  obtain ⟨s, w, t, s', w', history, -, listed, goes, stands⟩ := small_run_failed fun _ => some []
  refine ⟨s, w, t, s', w', history, listed, goes, fun still => ?_, stands⟩
  exact absurd (((ready_of_stands stands).2 _).1 still) List.not_mem_nil

end SymbolIndex
