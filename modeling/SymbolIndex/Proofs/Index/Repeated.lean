import SymbolIndex.Proofs.Index.Choice
import SymbolIndex.Proofs.Index.Replay

/-!
# Proofs.Index.Repeated — what is indexed again

A forced pass over files that have not changed finds in them what the pass before it found, so it changes nothing
but stamps (`Stands.indexCandidates_again`). A run that is not forced leaves them alone altogether: after a run
without a failure every file that the sources list has a stamp no earlier than its last change
(`Stands.current_run`), and so a second one finds nothing due (`Stands.run_idle`).

Files have not changed when they read the same, and so they do whatever operations on the index do in between
(`Site.SameFiles`).
-/

namespace SymbolIndex

open Action (outcome)
open World (Still Around)
open Candidate (firsts)
open Site.Stands (Found)

set_option autoImplicit false

/-- The files at some paths are what they were in another world, whatever operations on the index do. -/
def Site.SameFiles (site : Site) (w w' : World) (paths : List Path) : Prop :=
  ∀ v, site.Beside w' v → ∀ path ∈ paths,
    v.disk.read path = w.disk.read path ∧ v.disk.stat path = w.disk.stat path

/-- The sources of an indexer list what they listed in another world, and the files that they list are what they
were. -/
structure Indexer.SameTree (x : Indexer) (site : Site) (w w' : World) : Prop where
  listed : ∀ v, site.Beside w' v → ∀ list, .listing list ∈ x.sources →
    (Script.run list v).1 = (Script.run list w).1
  files : ∀ list found, .listing list ∈ x.sources → (Script.run list w).1 = .ok found →
    site.SameFiles w w' found

/-- A path is listed by a source. -/
def Indexer.Lists (x : Indexer) (w : World) (path : Path) : Prop :=
  ∃ list found, .listing list ∈ x.sources ∧ (Script.run list w).1 = .ok found ∧ path ∈ found

theorem Site.SameFiles.beside {site : Site} {w w' v : World} {paths : List Path}
    (files : site.SameFiles w w' paths) (beside : site.Beside w' v) : site.SameFiles w v paths :=
  fun v' later => files v' (beside.trans later)

/-! ## Findings -/

theorem Candidate.documentIn_congr {c : Candidate} {w v : World}
    (same : v.disk.read c.path = w.disk.read c.path) : c.documentIn v = c.documentIn w := by
  rw [documentIn, documentIn, same]

theorem Indexer.look_eq {x : Indexer} {w v : World} {c : Candidate}
    (same : v.disk.read c.path = w.disk.read c.path) : x.look v c = x.look w c := by
  rw [look, look, Candidate.documentIn_congr same]

/-- In files that have not changed the same is found. -/
theorem findings_eq {x : Indexer} {site : Site} {w w' : World} {paths : List Path} {findings : List Finding}
    {cs : List Candidate} (same : site.SameFiles w w' paths) (listed : findings.map (·.1) = cs)
    (inside : ∀ c ∈ cs, c.path ∈ paths) (found : ∀ p ∈ findings, Found x site w' p) :
    findings = cs.map (x.look w) := by
  rw [← listed, List.map_map]
  refine (List.map_id findings).symm.trans (List.map_congr_left fun p member => ?_)
  obtain ⟨v, around, still, looked⟩ := found p member
  have there := inside p.1 (listed ▸ List.mem_map_of_mem member)
  exact looked.trans (Indexer.look_eq (same v ⟨around, still⟩ _ there).1)

theorem findings_of_same {x : Indexer} {site : Site} {w w' : World} {paths : List Path} {findings : List Finding}
    (same : site.SameFiles w w' paths) (listed : findings.map (·.1) = firsts .empty paths)
    (found : ∀ p ∈ findings, Found x site w' p) : findings = (firsts .empty paths).map (x.look w) :=
  findings_eq same listed (fun _ first => (Candidate.mem_firsts first).2.1) found

theorem mem_documents {findings : List Finding} {d : String × List Record} :
    d ∈ documents findings ↔ ∃ c, (c, some d.2) ∈ findings ∧ c.uri = d.1 := by
  rw [documents, List.mem_filterMap]
  constructor
  · rintro ⟨⟨c, records⟩, member, gave⟩
    obtain ⟨records, rfl, rfl⟩ := Option.map_eq_some_iff.1 gave
    exact ⟨c, member, rfl⟩
  · rintro ⟨c, member, uri⟩
    exact ⟨_, member, by rw [Option.map_some, uri]⟩

theorem uris_documents (findings : List Finding) :
    ((documents findings).map (·.1)).Sublist (findings.map (·.1.uri)) := by
  induction findings with
  | nil => exact .slnil
  | cons p findings ih =>
      obtain ⟨c, _ | records⟩ := p
      · exact ih.cons _
      · exact ih.cons_cons _

/-- A pass over candidates with distinct URIs takes each document once. -/
theorem nodup_documents {findings : List Finding} {seen : SortedSet String} {paths : List Path}
    (taken : (findings.map (·.1)).Sublist (firsts seen paths)) :
    ((documents findings).map (·.1)).Nodup := by
  refine (uris_documents findings).nodup ?_
  have mapped : (findings.map (·.1.uri)) = (findings.map (·.1)).map (·.uri) := by rw [List.map_map]; rfl
  rw [mapped]
  exact (taken.map _).nodup (Candidate.nodup_firsts seen paths)

/-- An error is a file that gave no records. -/
theorem Pass.errors {site : Site} {terms : Terms} {findings : List Finding} {a b : IndexStats × Holdings}
    (pass : Pass site terms findings a b) : b.1.errors = 0 ↔ a.1.errors = 0 ∧ ∀ p ∈ findings, p.2 ≠ none := by
  induction pass with
  | done => exact (and_iff_left nofun).symm
  | failed grown onward ih => simp [ih]
  | applied admits extracted ticked onward ih => simp [ih]

/-- A pass that meets no file without records sets no mark. -/
theorem Pass.unmarked {site : Site} {terms : Terms} {findings : List Finding} {a b : IndexStats × Holdings}
    (pass : Pass site terms findings a b) (whole : ∀ p ∈ findings, p.2 ≠ none) (none_ : a.2.marks = []) :
    b.2.marks = [] := by
  induction pass with
  | done => exact none_
  | failed grown onward ih => exact absurd rfl (whole _ List.mem_cons_self)
  | applied admits extracted ticked onward ih =>
      refine ih (fun p member => whole p (by simp [member])) ?_
      rw [Holdings.cleared, Holdings.marks_applied, none_, List.filter_nil]

/-! ## The same again -/

/-- The URIs of the documents that a forced pass over some paths takes. -/
def Indexer.reindexed (x : Indexer) (w : World) (paths : List Path) : List String :=
  (documents ((firsts .empty paths).map (x.look w))).map (·.1)

/-- Two states of an index hold the same but for the stamps of some files, and answer so. -/
structure Site.Alike (site : Site) (x : Indexer) (uris : List String) (s : IndexState) (w : World)
    (s' : IndexState) (w' : World) : Prop where
  held : ∃ h h', site.Stands h s w ∧ site.Stands h' s' w' ∧ h.Restamped uris h'
  answered : ∀ key : RecordKey, site.used key.identifier → key.Legible → ∃ r r',
    outcome (x.find? key) s w = (.ok r, s, w) ∧ outcome (x.find? key) s' w' = (.ok r', s', w') ∧
      (r' = r ∨ key.recordType = .file ∧ key.identifier ∈ uris ∧ ∃ (f : FileRecord) (stamp : Option Int64),
        r = some (.file f) ∧ r' = some (.file { f with lastIndexed := stamp }))

namespace Site.Stands

variable {site : Site} {terms : Terms} {x : Indexer} {h h' : Holdings} {s s₁ s' : IndexState}
  {w w₁ w₁' w' : World} {force : Bool} {paths : List Path} {stats : IndexStats} {uris : List String}

theorem alike (stands : site.Stands h s w) (at_ : x.At site) (stands' : site.Stands h' s' w')
    (restamped : h.Restamped uris h') : site.Alike x uris s w s' w' where
  held := ⟨h, h', stands, stands', restamped⟩
  answered key used legible := by
    refine ⟨_, _, stands.find?_ok at_ key used legible, stands'.find?_ok at_ key used legible, ?_⟩
    by_cases others : key.recordType = .file → key.identifier ∉ uris
    · exact .inl (restamped.records key others)
    · rw [Classical.not_imp, not_not] at others
      obtain ⟨isFile, listed⟩ := others
      obtain ⟨f, stamp, stored, stored'⟩ := restamped.files key.identifier listed
      obtain ⟨kind, u⟩ := key
      obtain rfl : kind = .file := isFile
      exact .inr ⟨rfl, listed, f, stamp, stored, stored'⟩

/-- What two forced passes over the same files find is the same, and the second one changes nothing but the
stamps of the documents. -/
theorem restamped_again {findings findings' : List Finding} {b b' : IndexStats × Holdings} {v v' : World}
    {h₁ : Holdings} (reached : Holdings.Reached site terms h)
    (bare : ∀ uri records, terms.extracted uri records → Bare uri records)
    (listed : findings.map (·.1) = (h.chosen v true paths).due.reverse)
    (found : ∀ p ∈ findings, Found x site v p) (files : site.SameFiles w v paths)
    (pass : Pass site terms findings (stats, h) b)
    (same : b.2.Same h₁) (reached₁ : Holdings.Reached site terms h₁)
    (listed' : findings'.map (·.1) = (h₁.chosen v' true paths).due.reverse)
    (found' : ∀ p ∈ findings', Found x site v' p) (files' : site.SameFiles w v' paths)
    (pass' : Pass site terms findings' ((h₁.chosen v' true paths).stats, h₁) b') :
    b.2.Restamped (x.reindexed w paths) b'.2 := by
  rw [Holdings.due_forced] at listed listed'
  obtain rfl : findings = _ := findings_of_same files listed found
  obtain rfl : findings' = _ := findings_of_same files' listed' found'
  exact pass.again bare reached (nodup_documents (by rw [listed])) same reached₁ pass'

/-- A second forced pass over files that have not changed changes nothing but the stamps of the documents. -/
theorem indexCandidates_again (stands : site.Stands h s w) (at_ : x.At site)
    (reached : Holdings.Reached site terms h)
    (bare : ∀ uri records, terms.extracted uri records → Bare uri records)
    (done : outcome (x.indexCandidates true paths) s w = (.ok stats, s₁, w₁))
    (told : Action.Along (x.Told site terms) (x.indexCandidates true paths) s w)
    (files : site.SameFiles w w paths) (outside : ∀ p, World.Same site.base p w₁ w₁')
    (hosts : w₁'.disk.Hosts site.root site.base) (files' : site.SameFiles w w₁' paths)
    (told' : Action.Along (x.Told site terms) (x.indexCandidates true paths) s₁ w₁') :
    ∃ stats₂ s₂ w₂, outcome (x.indexCandidates true paths) s₁ w₁' = (.ok stats₂, s₂, w₂) ∧
      site.Alike x (x.reindexed w paths) s₁ w₁ s₂ w₂ := by
  obtain ⟨findings, b, s₁', w₁'', done', stands₁, -, listed, found, pass⟩ := stands.indexCandidates_ok at_ told
  obtain ⟨-, rfl, rfl⟩ := History.agree done done'
  obtain ⟨findings', b', s₂, w₂, done₂, stands₂, -, listed', found', pass'⟩ :=
    (stands₁.same outside hosts).indexCandidates_ok at_ told'
  exact ⟨b'.1, s₂, w₂, done₂, stands₁.alike at_ stands₂ (restamped_again reached bare listed found files pass
    ⟨rfl, rfl⟩ (reached.pass pass) listed' found' files' pass')⟩

/-- A run is a pass over the candidates that it is given. -/
theorem run_given {listings : List Listing} (stands : site.Stands h s w) (at_ : x.At site)
    (asks : x.Asks listings) (given : x.Provides s w paths)
    (told : Action.Along (x.Told site terms) (x.run force) s w) :
    ∃ findings b time v s' w', outcome (x.run force) s w = (.ok b.1, s', w') ∧ site.Beside w v ∧
      site.Stands (b.2.builtAt time) s' w' ∧ Around site.root site.base w w' ∧
      findings.map (·.1) = ({ h with marks := [] }.chosen v force paths).due.reverse ∧
      (∀ p ∈ findings, Found x site v p) ∧
      Pass site terms findings (({ h with marks := [] }.chosen v force paths).stats, { h with marks := [] }) b := by
  obtain ⟨v, -, ran⟩ := stands.run_ok at_ asks told
  cases all : Listing.all v listings with
  | error e =>
      rw [all] at ran
      exact absurd given (ran.2 paths)
  | ok found =>
      rw [all] at ran
      obtain ⟨findings, b, time, v', s', w', done, beside, stands', around, given', listed, looked, pass⟩ := ran
      obtain ⟨_, _, one⟩ := given
      obtain ⟨_, _, two⟩ := given'
      obtain ⟨rfl, -⟩ := History.agree one two
      exact ⟨findings, b, time, v', s', w', done, beside, stands', around, listed, looked, pass⟩

/-- A second forced run that is given the same candidates changes nothing but the stamps of the documents, and
notes another time. -/
theorem run_again {listings : List Listing} (stands : site.Stands h s w) (at_ : x.At site)
    (asks : x.Asks listings) (reached : Holdings.Reached site terms h)
    (bare : ∀ uri records, terms.extracted uri records → Bare uri records)
    (given : x.Provides s w paths) (done : outcome (x.run true) s w = (.ok stats, s₁, w₁))
    (told : Action.Along (x.Told site terms) (x.run true) s w)
    (files : site.SameFiles w w paths) (outside : ∀ p, World.Same site.base p w₁ w₁')
    (hosts : w₁'.disk.Hosts site.root site.base) (files' : site.SameFiles w w₁' paths)
    (given' : x.Provides s₁ w₁' paths)
    (told' : Action.Along (x.Told site terms) (x.run true) s₁ w₁') :
    ∃ stats₂ s₂ w₂, outcome (x.run true) s₁ w₁' = (.ok stats₂, s₂, w₂) ∧
      site.Alike x (x.reindexed w paths) s₁ w₁ s₂ w₂ := by
  obtain ⟨findings, b, time, v, s₁', w₁'', done₁, beside, stands₁, -, listed, found, pass⟩ :=
    stands.run_given at_ asks given told
  obtain ⟨-, rfl, rfl⟩ := History.agree done done₁
  obtain ⟨findings', b', time', v', s₂, w₂, done₂, beside', stands₂, -, listed', found', pass'⟩ :=
    (stands₁.same outside hosts).run_given at_ asks given' told'
  have same : b.2.Same { b.2.builtAt time with marks := [] } := ⟨rfl, rfl⟩
  have restamped := restamped_again (reached.marked []) bare listed found (files.beside beside) pass
    same ((((reached.marked []).pass pass).built time).marked []) listed' found' (files'.beside beside') pass'
  exact ⟨b'.1, s₂, w₂, done₂, stands₁.alike at_ stands₂
    ⟨restamped.records, restamped.files, restamped.entries⟩⟩

end Site.Stands

/-! ## Nothing due -/

namespace Listing

variable {w v : World} {listings : List Listing} {found : List Path}

theorem all_congr (same : ∀ list ∈ listings, (Script.run list v).1 = (Script.run list w).1) :
    all v listings = all w listings := by
  induction listings with
  | nil => rfl
  | cons list listings ih =>
      rw [all, all, same list (by simp), ih fun list' member => same list' (by simp [member])]

/-- What is found by all is found by one of them. -/
theorem mem_all (every : all w listings = .ok found) {path : Path} (member : path ∈ found) :
    ∃ list ∈ listings, ∃ part, (Script.run list w).1 = .ok part ∧ path ∈ part := by
  induction listings generalizing found with
  | nil =>
      cases every
      cases member
  | cons list listings ih =>
      rw [all] at every
      cases one : (Script.run list w).1 with
      | error e =>
          rw [one] at every
          cases every
      | ok part =>
          rw [one] at every
          cases others : all w listings with
          | error e =>
              rw [others] at every
              cases every
          | ok more =>
              rw [others] at every
              obtain rfl : part ++ more = found := Except.ok.inj every
              rcases List.mem_append.1 member with member | member
              · exact ⟨list, by simp, part, one, member⟩
              · obtain ⟨list', there, part', gave, inside⟩ := ih others member
                exact ⟨list', by simp [there], part', gave, inside⟩

end Listing

/-- The files that the sources list are what they were. -/
theorem Indexer.SameTree.mtime {x : Indexer} {site : Site} {w w' v : World} {path : Path}
    (tree : x.SameTree site w w') (beside : site.Beside w' v) (lists : x.Lists w path) :
    v.mtime path = w.mtime path := by
  obtain ⟨list, found, source, gave, member⟩ := lists
  rw [World.mtime, World.mtime, (tree.files list found source gave v beside path member).2]

theorem Indexer.SameTree.all {x : Indexer} {site : Site} {w w' v : World} {listings : List Listing}
    (tree : x.SameTree site w w') (beside : site.Beside w' v) (asks : x.Asks listings) :
    Listing.all v listings = Listing.all w listings := by
  refine Listing.all_congr fun list member => tree.listed v beside list ?_
  rw [asks.sources]
  exact List.mem_append_left _ (List.mem_map_of_mem member)

theorem Ledger.isFresh_iff {l : Ledger} {uri : String} {changed : Int64} (normal : Uri.normalize uri = uri) :
    l.isFresh uri changed = true ↔ ∃ f stamp, l.get? ⟨.file, uri⟩ = some (.file f) ∧
      f.lastIndexed = some stamp ∧ changed ≤ stamp := by
  rw [isFresh, RecordKey.ofFile, normal]
  constructor
  · intro fresh
    split at fresh
    next f stored =>
      rw [FileRecord.isFreshAt] at fresh
      split at fresh
      next stamp stamped => exact ⟨f, stamp, stored, stamped, of_decide_eq_true fresh⟩
      · cases fresh
    · cases fresh
  · rintro ⟨f, stamp, stored, stamped, late⟩
    simp only [stored, FileRecord.isFreshAt, stamped]
    exact decide_eq_true late

/-- A candidate whose file is there and that is not due is fresh. -/
theorem Holdings.judged_of_mtime {h : Holdings} {w : World} {c : Candidate} {changed : Int64}
    (there : w.mtime c.path = .ok changed) :
    h.judged w c = if h.ledger.isFresh c.uri changed then .fresh else .due := by
  rw [judged, there]

theorem Candidate.normal_firsts {seen : SortedSet String} {paths : List Path} {c : Candidate}
    (first : c ∈ firsts seen paths) : Uri.normalize c.uri = c.uri := by
  rw [(mem_firsts first).1]
  exact Uri.normalize_normalize _

/-- After a pass that met no file without records, a candidate that it considered is fresh: it was before and
was passed over, or it has a stamp from the clock of the pass. -/
theorem Pass.fresh {site : Site} {terms : Terms} {h : Holdings} {v : World} {force : Bool} {paths : List Path}
    {findings : List Finding} {stats : IndexStats} {b : IndexStats × Holdings} {c : Candidate} {changed : Int64}
    (bare : ∀ uri records, terms.extracted uri records → Bare uri records)
    (pass : Pass site terms findings (stats, h) b) (keyed : h.ledger.Keyed)
    (listed : findings.map (·.1) = (h.chosen v force paths).due.reverse) (whole : ∀ p ∈ findings, p.2 ≠ none)
    (first : c ∈ firsts .empty paths) (there : v.mtime c.path = .ok changed)
    (past : ∀ time, terms.clock time → changed ≤ max 0 time) : b.2.ledger.isFresh c.uri changed = true := by
  have normal := Candidate.normal_firsts first
  rw [Holdings.due_chosen] at listed
  have distinct : ((documents findings).map (·.1)).Nodup := nodup_documents (by rw [listed]; exact List.filter_sublist)
  by_cases due : h.verdict v force c = .due
  · have taken : c ∈ findings.map (·.1) := by
      rw [listed, List.mem_filter]
      exact ⟨first, decide_eq_true due⟩
    obtain ⟨⟨c', found⟩, member, rfl⟩ := List.mem_map.1 taken
    obtain ⟨records, rfl⟩ := Option.ne_none_iff_exists'.1 (whole _ member)
    obtain ⟨time, stamp, ticked, late, stored⟩ :=
      pass.stored bare keyed distinct (c'.uri, records) (mem_documents.2 ⟨c', member, rfl⟩)
    exact (Ledger.isFresh_iff normal).2 ⟨_, stamp, stored, rfl, Int64.le_trans (past time ticked) late⟩
  · have fresh : h.ledger.isFresh c.uri changed = true := by
      rw [Holdings.verdict, Holdings.judged_of_mtime there] at due
      cases force with
      | true => exact absurd rfl due
      | false =>
          by_contra stale
          exact due (by simp [stale])
    have passed : c.uri ∉ (documents findings).map (·.1) := by
      intro member
      obtain ⟨d, document, same⟩ := List.mem_map.1 member
      obtain ⟨c', found, uri⟩ := mem_documents.1 document
      have taken : c' ∈ findings.map (·.1) := List.mem_map.2 ⟨_, found, rfl⟩
      rw [listed, List.mem_filter] at taken
      obtain rfl : c' = c := List.inj_on_of_nodup_map (Candidate.nodup_firsts _ _) taken.1 first
        (uri.trans same)
      exact due (of_decide_eq_true taken.2)
    rw [Ledger.isFresh_iff normal] at fresh ⊢
    rw [pass.get?_otherFile bare keyed passed]
    exact fresh

namespace Site.Stands

variable {site : Site} {terms : Terms} {x : Indexer} {h : Holdings} {s s₁ s' : IndexState}
  {w w₁ w' : World} {force : Bool} {stats : IndexStats} {listings : List Listing} {found : List Path}

/-- After a run without a failure, each file that the sources list is stored with a stamp no earlier than its
last change, and no mark is left. -/
theorem current_run (stands : site.Stands h s w) (at_ : x.At site)
    (asks : x.Asks listings)
    (bare : ∀ uri records, terms.extracted uri records → Bare uri records)
    (past : ∀ time, terms.clock time → ∀ path, x.Lists w path → ∀ changed, w.mtime path = .ok changed →
      changed ≤ max 0 time)
    (done : outcome (x.run force) s w = (.ok stats, s₁, w₁))
    (told : Action.Along (x.Told site terms) (x.run force) s w) (faultless : stats.errors = 0)
    (tree : x.SameTree site w w) :
    ∃ h₁ found, site.Stands h₁ s₁ w₁ ∧ h₁.marks = [] ∧ Listing.all w listings = .ok found ∧
      ∀ c ∈ firsts .empty found, x.Lists w c.path ∧ ∀ changed, w.mtime c.path = .ok changed →
        h₁.ledger.isFresh c.uri changed = true := by
  obtain ⟨v, beside, ran⟩ := stands.run_ok at_ asks told
  rw [tree.all beside asks] at ran
  cases all : Listing.all w listings with
  | error e =>
      rw [all] at ran
      obtain ⟨⟨_, _, failed⟩, -⟩ := ran
      cases done.symm.trans failed
  | ok found => ?_
  rw [all] at ran
  obtain ⟨findings, b, time, v', s', w', done', beside', stands₁, -, -, listed, looked, pass⟩ := ran
  obtain ⟨rfl, rfl, rfl⟩ := History.agree done done'
  have whole := (pass.errors.1 faultless).2
  refine ⟨b.2.builtAt time, found, stands₁, pass.unmarked whole rfl, rfl, fun c first => ?_⟩
  obtain ⟨-, there, -⟩ := Candidate.mem_firsts first
  have lists : x.Lists w c.path := by
    obtain ⟨list, member, part, gave, inside⟩ := Listing.mem_all all there
    refine ⟨list, part, ?_, gave, inside⟩
    rw [asks.sources]
    exact List.mem_append_left _ (List.mem_map_of_mem member)
  refine ⟨lists, fun changed last => ?_⟩
  obtain ⟨rest, appended⟩ :=
    Candidate.firsts_append .empty found ((firstOccurrences h.marks).map Uri.toPath)
  have first' : c ∈ firsts .empty (found ++ (firstOccurrences h.marks).map Uri.toPath) := by
    rw [appended]
    exact List.mem_append_left _ first
  exact pass.fresh bare stands.records.keyed listed whole first' ((tree.mtime beside' lists).trans last)
    fun time ticked => past time ticked c.path lists changed last

/-- A run over files that are all fresh does nothing but note the time. -/
theorem run_idle (stands : site.Stands h s w) (at_ : x.At site)
    (asks : x.Asks listings) (unmarked : h.marks = [])
    (listed : ∀ v, site.Beside w v → Listing.all v listings = .ok found)
    (fresh : ∀ v, site.Beside w v → ∀ c ∈ firsts .empty found, ∀ changed, v.mtime c.path = .ok changed →
      h.ledger.isFresh c.uri changed = true) :
    ∃ stats s' w' time, outcome (x.run false) s w = (.ok stats, s', w') ∧ stats.indexed = 0 ∧
      site.Stands (h.builtAt time) s' w' := by
  obtain ⟨w₁, locked, stands₁, still₁⟩ := stands.lock_ok at_
  have beside₁ : site.Beside w w₁ := ⟨still₁.toAround, Action.workingDirectory locked⟩
  have provided := stands₁.provide_ok asks
  rw [listed w₁ beside₁] at provided
  obtain ⟨s₂, w₂, provided, stands₂, still₂⟩ := provided
  have beside₂ : site.Beside w w₂ := beside₁.trans ⟨still₂.toAround, Action.workingDirectory provided⟩
  have same : ({ h with marks := [] } : Holdings) = h := by rw [← unmarked]
  rw [same] at stands₂
  have nothing : (firstOccurrences h.marks).map Uri.toPath = [] := by rw [unmarked]; rfl
  rw [nothing, List.append_nil] at provided
  have considered : outcome (found.foldlM (x.consider false) { stats := { candidates := found.length } }) s₂ w₂ =
      (.ok (h.chosen w₂ false found), s₂, w₂) := by
    refine stands₂.considerAll_used at_ fun c first changed there => ?_
    obtain ⟨f, stamp, stored, -⟩ := (Ledger.isFresh_iff (Candidate.normal_firsts first)).1
      (fresh w₂ beside₂ c first changed there)
    have path : f.path = c.uri := congrArg RecordKey.identifier (stands.records.keyed _ _ stored)
    exact path ▸ stands.uses _ _ stored f.path (by simp [Record.identifiers])
  have due : (h.chosen w₂ false found).due = [] := by
    refine List.reverse_eq_nil_iff.1 ?_
    rw [Holdings.due_chosen, List.filter_eq_nil_iff]
    intro c first due
    have judged : h.judged w₂ c = .due := of_decide_eq_true due
    cases there : w₂.mtime c.path with
    | ok changed =>
        rw [Holdings.judged_of_mtime there, fresh w₂ beside₂ c first changed there] at judged
        cases judged
    | error e =>
        rw [Holdings.judged, there] at judged
        cases e <;> cases judged
  obtain ⟨s₃, w₃, flushed, stands₃, still₃⟩ := stands₂.flush_ok at_
  have passed : outcome (x.indexCandidates false found) s₂ w₂ = (.ok (h.chosen w₂ false found).stats, s₃, w₃) := by
    rw [Indexer.indexCandidates, Action.outcome_bind_ok considered]
    show outcome ((chunks x.readWidth (h.chosen w₂ false found).due.reverse).foldlM x.indexChunk
      (h.chosen w₂ false found).stats >>= _) s₂ w₂ = _
    rw [due, List.reverse_nil, chunks, List.foldlM_nil, Action.outcome_bind_ok (Action.outcome_pure _ _ _),
      Action.outcome_bind_ok flushed, Action.outcome_pure]
  obtain ⟨time, w₄, noted, stands₄, -⟩ := stands₃.built_ok at_ (h.chosen w₂ false found).stats
  have none_ : (h.chosen w₂ false found).stats.indexed = 0 := Holdings.indexed_considered h w₂ false _ found
  refine ⟨_, s₃, w₄, time, ?_, none_, stands₄⟩
  rw [Indexer.run, Action.outcome_bind_ok locked, Action.outcome_bind_ok provided, Action.outcome_bind_ok passed,
    noted]

end Site.Stands

/-! ## In every history -/

/-- Documents have no records of other files, and their members list no files. -/
def Terms.bare : Terms where
  extracted := Bare
  clock _ := True

/-- The clock is not behind the last change of a file that the sources list. -/
def Terms.bareAfter (x : Indexer) (w : World) : Terms where
  extracted := Bare
  clock time := ∀ path, x.Lists w path → ∀ changed, w.mtime path = .ok changed → changed ≤ max 0 time

namespace History

variable {x : Indexer} {c : IndexConfig} {site : Site} {s : IndexState} {w : World}

/-- **A pass over what was indexed changes nothing.** A second forced pass over the same candidates and the same
files leaves every record and every entry as the first one left it, but for the stamps of the files that are
indexed. After a run without a failure and with no file changed later than its clock, a run that is not forced
indexes nothing, leaves every record as it is, stamps included, and no mark. -/
theorem indexed_again (history : History x c site .bare s w) (made : x.Made c site) :
    (∀ (paths : List Path) (stats : IndexStats) (s₁ : IndexState) (w₁ w₁' : World),
      outcome (x.indexCandidates true paths) s w = (.ok stats, s₁, w₁) →
      Action.Along (x.Told site .bare) (x.indexCandidates true paths) s w →
      site.SameFiles w w paths →
      (∀ p, World.Same site.base p w₁ w₁') → w₁'.disk.Hosts site.root site.base →
      site.SameFiles w w₁' paths →
      Action.Along (x.Told site .bare) (x.indexCandidates true paths) s₁ w₁' →
      ∃ stats₂ s₂ w₂, outcome (x.indexCandidates true paths) s₁ w₁' = (.ok stats₂, s₂, w₂) ∧
        site.Alike x (x.reindexed w paths) s₁ w₁ s₂ w₂) ∧
    (∀ (paths : List Path) (stats : IndexStats) (s₁ : IndexState) (w₁ w₁' : World),
      x.Provides s w paths →
      outcome (x.run true) s w = (.ok stats, s₁, w₁) →
      Action.Along (x.Told site .bare) (x.run true) s w →
      site.SameFiles w w paths →
      (∀ p, World.Same site.base p w₁ w₁') → w₁'.disk.Hosts site.root site.base →
      site.SameFiles w w₁' paths →
      x.Provides s₁ w₁' paths →
      Action.Along (x.Told site .bare) (x.run true) s₁ w₁' →
      ∃ stats₂ s₂ w₂, outcome (x.run true) s₁ w₁' = (.ok stats₂, s₂, w₂) ∧
        site.Alike x (x.reindexed w paths) s₁ w₁ s₂ w₂) ∧
    ∀ (force : Bool) (stats : IndexStats) (s₁ : IndexState) (w₁ w₁' : World),
      outcome (x.run force) s w = (.ok stats, s₁, w₁) →
      Action.Along (x.Told site (.bareAfter x w)) (x.run force) s w →
      stats.errors = 0 →
      x.SameTree site w w →
      (∀ p, World.Same site.base p w₁ w₁') → w₁'.disk.Hosts site.root site.base →
      x.SameTree site w w₁' →
      ∃ stats₂ s₂ w₂, outcome (x.run false) s₁ w₁' = (.ok stats₂, s₂, w₂) ∧ stats₂.indexed = 0 ∧
        site.Alike x [] s₁ w₁ s₂ w₂ ∧
        ∃ s₃ w₃, outcome (Indexer.onDirty DirtyLog.drain) s₂ w₂ = (.ok [], s₃, w₃) := by
  obtain ⟨h, stands, reached⟩ := history.stands made
  have at_ := made.at_
  obtain ⟨listings, asks⟩ := made.asks
  refine ⟨?_, ?_, ?_⟩
  · intro paths stats s₁ w₁ w₁' done told files outside hosts files' told'
    exact stands.indexCandidates_again at_ reached (fun _ _ bare => bare) done told files outside hosts files' told'
  · intro paths stats s₁ w₁ w₁' given done told files outside hosts files' given' told'
    exact stands.run_again at_ asks reached (fun _ _ bare => bare) given done told files outside hosts files' given'
      told'
  · intro force stats s₁ w₁ w₁' done told faultless tree outside hosts tree'
    obtain ⟨h₁, found, stands₁, unmarked, all, fresh⟩ := stands.current_run at_ asks (fun _ _ bare => bare)
      (fun _ ticked => ticked) done told faultless tree
    obtain ⟨stats₂, s₂, w₂, time, done₂, none_, stands₂⟩ := (stands₁.same outside hosts).run_idle at_ asks
      unmarked (fun v beside => (tree'.all beside asks).trans all) fun v beside c first changed last => by
        obtain ⟨lists, late⟩ := fresh c first
        exact late changed ((tree'.mtime beside lists).symm.trans last)
    have same : h₁.Restamped [] (h₁.builtAt time) := ⟨fun _ _ => rfl, nofun, fun _ => rfl⟩
    obtain ⟨log, w₃, drained, -⟩ := stands₂.marks.drain
    rw [show firstOccurrences (h₁.builtAt time).marks = [] by
      rw [show (h₁.builtAt time).marks = [] from unmarked]; rfl] at drained
    exact ⟨stats₂, s₂, w₂, done₂, none_, stands₁.alike at_ stands₂ same, _, w₃, Indexer.onDirty_ok drained⟩

end History

/-! ### Poles -/

section Small

variable {extract : Extractor} {terms : Terms} {w w' v : World} {paths : List Path}

/-- The file beside the small index. -/
def smallPath : Path := ⟨[47, 97, 46, 112, 104, 112]⟩

namespace World.Shows

variable {content : Text.Bytes} {modified : Int}

theorem find (shown : w.Shows content modified) :
    w.disk.find true smallPath = .ok ([smallName], .file 0 content modified) := by
  have located : w.disk.locate true smallPath = w.disk.walk true false Disk.maxLinks [] [smallName] := rfl
  rw [Disk.find, located, Disk.walk_cons (by decide) (by decide), shown.file]
  rfl

theorem find_project (shown : w.Shows content modified) : w.disk.find true ⟨[47, 112]⟩ = .error .notFound := by
  have located : w.disk.locate true ⟨[47, 112]⟩ = w.disk.walk true false Disk.maxLinks [] [[112]] := rfl
  rw [Disk.find, located, Disk.walk_cons (by decide) (by decide), shown.noProject]
  rfl

theorem stat (shown : w.Shows content modified) :
    w.disk.stat smallPath = .ok ⟨[smallName], .file, content.length, modified⟩ := by
  rw [Disk.stat, shown.find]

theorem read (shown : w.Shows content modified) : w.disk.read smallPath = .ok content := by
  rw [Disk.read, shown.find]

/-- No project, no files. -/
theorem run_project (shown : w.Shows content modified) {s : Selection} (root : s.root = ⟨[47, 112]⟩) :
    (Script.run (Listing.project s) w).1 = .ok [] := by
  have missing : (Script.ask (.stat s.root)).run w = (.error .notFound, w) := by
    rw [Script.run_ask, Call.perform, root, Disk.stat, shown.find_project]
  have unread : (Script.ask (.readDirectory s.root)).run w = (.error .notFound, w) := by
    rw [Script.run_ask, Call.perform, root, Disk.readDirectory, shown.find_project]
  have addressed : (Selection.addressed s.root []).run w = ([], w) := by
    rw [Selection.addressed, Script.run_bind_of missing]
    rfl
  have entries : (Script.entries s.root).run w = ([], w) := by
    rw [Script.entries, Script.run_bind_of unread]
    rfl
  have files : s.files.run w = ([], w) := by
    rw [Selection.files, Selection.below, Script.run_bind_of addressed, Script.run_bind_of entries]
    rfl
  rw [Listing.project, Script.run_bind_of files]
  rfl

theorem run_stub (shown : w.Shows content modified) :
    (Script.run (Listing.stub false smallPath) w).1 = .ok [smallPath] := by
  have there : (Script.ask (.stat smallPath)).run w =
      (.ok ⟨[smallName], .file, content.length, modified⟩, w) := by
    rw [Script.run_ask, Call.perform, shown.stat]
  rw [Listing.stub, Script.run_bind_of there]
  rfl

end World.Shows

theorem small_asks (extract : Extractor) : ∃ s : Selection, s.root = ⟨[47, 112]⟩ ∧
    (smallIndexer extract).Asks [.project s, .stub false smallPath] := by
  obtain ⟨s, read, root⟩ : ∃ s, Selection.ofConfig smallConfig = .ok s ∧ s.root = ⟨[47, 112]⟩ := by
    cases read : Selection.ofConfig smallConfig with
    | error e =>
        have sources := smallSources_ok
        rw [Source.ofConfig, read] at sources
        cases sources
    | ok s =>
        refine ⟨s, rfl, ?_⟩
        rw [Selection.ofConfig, Selection.ofPatterns] at read
        split at read
        · cases read
          rfl
        · cases read
  refine ⟨s, root, ?_, fun list member => ?_⟩
  · have sources : Source.ofConfig smallConfig =
        .ok [.listing (.project s), .listing (.stub false smallPath), .dirtyLog] := by
      rw [Source.ofConfig, read]
      rfl
    simp only [smallIndexer, sources]
    rfl
  · rcases List.mem_cons.1 member with rfl | member
    · exact Listing.quiet_project s
    · rw [List.mem_singleton.1 member]
      exact Listing.quiet_stub _ _

/-- What the sources of the small index list hangs on the file and the project alone. -/
theorem small_lists {list : Listing} (source : .listing list ∈ (smallIndexer extract).sources) :
    ∃ found, (∀ path ∈ found, path = smallPath) ∧ ∀ w : World, w.HasFile → (Script.run list w).1 = .ok found := by
  obtain ⟨s, root, asks⟩ := small_asks extract
  rw [asks.sources] at source
  obtain rfl | rfl : list = .project s ∨ list = .stub false smallPath := by simpa using source
  · exact ⟨[], nofun, fun w hasFile => hasFile.run_project root⟩
  · exact ⟨[smallPath], by simp, fun w hasFile => hasFile.run_stub⟩

theorem small_sameFiles {content : Text.Bytes} {modified : Int} (shown : w.Shows content modified)
    (shown' : w'.Shows content modified) (only : ∀ path ∈ paths, path = smallPath) :
    smallSite.SameFiles w w' paths := by
  intro v beside path member
  have later := History.shows_of_around beside.around shown'
  rw [only path member, later.read, later.stat, shown.read, shown.stat]
  exact ⟨rfl, rfl⟩

theorem small_sameTree (hasFile : w.HasFile) (hasFile' : w'.HasFile) :
    (smallIndexer extract).SameTree smallSite w w' where
  listed v beside list source := by
    obtain ⟨found, -, gives⟩ := small_lists source
    rw [gives v (History.shows_of_around beside.around hasFile'), gives w hasFile]
  files list found source gave := by
    obtain ⟨found', only, gives⟩ := small_lists source
    rw [gives w hasFile] at gave
    cases gave
    exact small_sameFiles hasFile hasFile' only

/-- The small indexer is told of nothing that is not on the terms, whatever it asks and reads. -/
theorem small_told_of_read {α : Type} (extracted : ∀ path text records,
      extract ⟨(Candidate.ofPath path).uri, path, text⟩ = some records →
        terms.extracted (Candidate.ofPath path).uri records) (clock : ∀ time, terms.clock time)
    (action : Indexed α) (s : IndexState) (w : World) :
    Action.Along ((smallIndexer extract).Told smallSite terms) action s w := by
  refine Script.along_of_all (fun γ request answer => ?_) _ _
  cases request with
  | read path =>
      cases answer with
      | error e => trivial
      | ok bytes =>
          exact fun text records _ gave =>
            ⟨smallSite_admits (Uri.normalize_normalize _) records, extracted path text records gave⟩
  | now => exact clock answer
  | stat path => trivial
  | create path => trivial
  | openAppend path => trivial
  | append file bytes => trivial
  | rename source target => trivial
  | removeFile path => trivial
  | removeTree path => trivial
  | createDirectories path => trivial
  | readDirectory path => trivial
  | connect path => trivial
  | transact action => trivial

/-- The small indexer is told of nothing that is not on the terms, whatever it asks. -/
theorem small_told {α : Type} (extracted : ∀ document records, extract document = some records →
      terms.extracted document.uri records) (clock : ∀ time, terms.clock time) (action : Indexed α) (s : IndexState)
    (w : World) : Action.Along ((smallIndexer extract).Told smallSite terms) action s w :=
  small_told_of_read (fun path text => extracted ⟨_, path, text⟩) clock action s w

/-- The file beside the small index is as old as time. -/
theorem small_clock (hasFile : w.HasFile) (time : Int64) : (Terms.bareAfter (smallIndexer extract) w).clock time := by
  rintro path ⟨list, found, source, gave, member⟩ changed last
  obtain ⟨found', only, gives⟩ := small_lists source
  rw [gives w hasFile] at gave
  cases gave
  rw [only path member, World.mtime, hasFile.stat] at last
  cases last
  show (0 : Int64) ≤ if 0 ≤ time then time else 0
  split
  · assumption
  · exact Int64.le_refl 0

end Small

namespace History

/-- Whatever the document, it declares an interface and a method and refers to the method. -/
def sampleWhole : Extractor := fun document =>
  some [sampleInterface, .member { memberType := .method, memberName := "m", containerType := some "A" },
    .file { sampleFile with path := document.uri }]

theorem sampleWhole_bare : ∀ document records, sampleWhole document = some records →
    Bare document.uri records := by
  rintro document records ⟨⟩
  exact ⟨by simp [sampleInterface], by simp [sampleInterface]⟩

/-- A forced run of the small index takes the file and those that are marked. It meets no error if there is something
in every file and those that are marked are empty. -/
theorem small_run_marked {extract : Extractor} {terms : Terms} {h : Holdings} {s : IndexState} {w : World}
    (total : ∀ document, extract document ≠ none)
    (told : Action.Along ((smallIndexer extract).Told smallSite terms) ((smallIndexer extract).run true) s w)
    (stands : smallSite.Stands h s w) (hasFile : w.HasFile)
    (blank : ∀ v, smallSite.Beside w v → ∀ path ∈ (firstOccurrences h.marks).map Uri.toPath,
      v.disk.read path = .ok [] ∧ v.disk.stat path = w.disk.stat path) :
    ∃ stats s₁ w₁ h₁, outcome ((smallIndexer extract).run true) s w = (.ok stats, s₁, w₁) ∧
      smallSite.Stands h₁ s₁ w₁ ∧ h₁.marks = [] ∧ w₁.HasFile ∧ stats.errors = 0 ∧
      (smallIndexer extract).Provides s w (smallPath :: (firstOccurrences h.marks).map Uri.toPath) := by
  obtain ⟨selection, root, asks⟩ := small_asks extract
  obtain ⟨v, beside, ran⟩ := stands.run_ok (smallIndexer_made extract).at_ asks told
  have hasFile' := shows_of_around beside.around hasFile
  have all : Listing.all v [.project selection, .stub false smallPath] = .ok [smallPath] := by
    rw [Listing.all, hasFile'.run_project root, Listing.all, hasFile'.run_stub]
    rfl
  rw [all] at ran
  obtain ⟨findings, b, time, v', s₁, w₁, done, beside', stands₁, around, given, listed, found, pass⟩ := ran
  rw [Holdings.due_forced] at listed
  have read : ∀ path ∈ smallPath :: (firstOccurrences h.marks).map Uri.toPath, w.disk.read path = .ok [] := by
    intro path member
    rcases List.mem_cons.1 member with rfl | marked
    · exact hasFile.read
    · exact (blank w (.refl _ _) path marked).1
  have files : smallSite.SameFiles w v' (smallPath :: (firstOccurrences h.marks).map Uri.toPath) := by
    intro u later path member
    rcases List.mem_cons.1 member with rfl | marked
    · have only : ∀ p ∈ [smallPath], p = smallPath := by simp
      exact small_sameFiles hasFile (shows_of_around beside'.around hasFile) only u later _ List.mem_cons_self
    · obtain ⟨empty, still⟩ := blank u (beside'.trans later) path marked
      exact ⟨empty.trans (read path member).symm, still⟩
  have whole : ∀ p ∈ findings, p.2 ≠ none := by
    intro p member
    rw [findings_of_same files listed found] at member
    obtain ⟨c, first, rfl⟩ := List.mem_map.1 member
    rw [Indexer.look, Candidate.documentIn, read c.path (Candidate.mem_firsts first).2.1]
    exact total _
  refine ⟨b.1, s₁, w₁, _, done, stands₁, pass.unmarked whole rfl, shows_of_around around hasFile,
    pass.errors.2 ⟨(Holdings.errors_considered _ _ _ _ _).2 ⟨rfl, fun _ _ => ?_⟩, whole⟩, given⟩
  exact fun failed => by cases failed

/-- A forced run of the small index takes the file, and meets no error if there is something in every file. -/
theorem small_run {extract : Extractor} {terms : Terms} {h : Holdings} {s : IndexState} {w : World}
    (total : ∀ document, extract document ≠ none)
    (told : Action.Along ((smallIndexer extract).Told smallSite terms) ((smallIndexer extract).run true) s w)
    (stands : smallSite.Stands h s w) (hasFile : w.HasFile) (unmarked : h.marks = []) :
    ∃ stats s₁ w₁ h₁, outcome ((smallIndexer extract).run true) s w = (.ok stats, s₁, w₁) ∧
      smallSite.Stands h₁ s₁ w₁ ∧ h₁.marks = [] ∧ w₁.HasFile ∧ stats.errors = 0 ∧
      (smallIndexer extract).Provides s w [smallPath] := by
  have none_ : (firstOccurrences h.marks).map Uri.toPath = [] := by rw [unmarked]; rfl
  have ran := small_run_marked total told stands hasFile
  rw [none_] at ran
  exact ran fun _ _ path member => absurd member List.not_mem_nil

/-- A forced run of the small index takes the file and meets no error. -/
theorem sampleWhole_run {h : Holdings} {s : IndexState} {w : World} (stands : smallSite.Stands h s w)
    (hasFile : w.HasFile) (unmarked : h.marks = []) :
    ∃ stats s₁ w₁ h₁, outcome ((smallIndexer sampleWhole).run true) s w = (.ok stats, s₁, w₁) ∧
      smallSite.Stands h₁ s₁ w₁ ∧ h₁.marks = [] ∧ w₁.HasFile ∧ stats.errors = 0 ∧
      (smallIndexer sampleWhole).Provides s w [smallPath] :=
  small_run (fun _ => Option.some_ne_none _)
    (@small_told sampleWhole .bare _ sampleWhole_bare (fun _ => trivial) _ s w) stands hasFile unmarked

/-- The file is listed and taken up, twice in a row in each of three ways. -/
theorem sample_indexed_again :
    ∃ s w, History (smallIndexer sampleWhole) smallConfig smallSite .bare s w ∧
      (∃ stats₁ s₁ w₁ stats₂ s₂ w₂,
        outcome ((smallIndexer sampleWhole).indexCandidates true [smallPath, smallPath]) s w =
          (.ok stats₁, s₁, w₁) ∧
        outcome ((smallIndexer sampleWhole).indexCandidates true [smallPath, smallPath]) s₁ w₁ =
          (.ok stats₂, s₂, w₂) ∧
        smallSite.Alike (smallIndexer sampleWhole) ((smallIndexer sampleWhole).reindexed w [smallPath, smallPath])
          s₁ w₁ s₂ w₂) ∧
      (∃ stats₁ s₁ w₁ stats₂ s₂ w₂,
        outcome ((smallIndexer sampleWhole).run true) s w = (.ok stats₁, s₁, w₁) ∧
        outcome ((smallIndexer sampleWhole).run true) s₁ w₁ = (.ok stats₂, s₂, w₂) ∧
        smallSite.Alike (smallIndexer sampleWhole) ((smallIndexer sampleWhole).reindexed w [smallPath])
          s₁ w₁ s₂ w₂) ∧
      ∃ stats₁ s₁ w₁ stats₂ s₂ w₂,
        outcome ((smallIndexer sampleWhole).run true) s w = (.ok stats₁, s₁, w₁) ∧ stats₁.errors = 0 ∧
        outcome ((smallIndexer sampleWhole).run false) s₁ w₁ = (.ok stats₂, s₂, w₂) ∧ stats₂.indexed = 0 ∧
        smallSite.Alike (smallIndexer sampleWhole) [] s₁ w₁ s₂ w₂ ∧
        ∃ s₃ w₃, outcome (Indexer.onDirty DirtyLog.drain) s₂ w₂ = (.ok [], s₃, w₃) := by
  have made := smallIndexer_made sampleWhole
  obtain ⟨s, w, history, stands, hasFile⟩ := Comes.start sampleWhole .bare
  obtain ⟨listed, run, idle⟩ := indexed_again history made
  have told := fun {α : Type} => @small_told sampleWhole .bare α sampleWhole_bare fun _ => trivial
  refine ⟨s, w, history, ?_, ?_, ?_⟩
  · have only : ∀ path ∈ [smallPath, smallPath], path = smallPath := by simp
    obtain ⟨-, b, s₁, w₁, done, stands₁, around, -⟩ :=
      stands.indexCandidates_ok made.at_ (told ((smallIndexer sampleWhole).indexCandidates true _) s w)
    have hasFile₁ := shows_of_around around hasFile
    obtain ⟨stats₂, s₂, w₂, done₂, alike⟩ := listed [smallPath, smallPath] b.1 s₁ w₁ w₁ done (told _ _ _)
      (small_sameFiles hasFile hasFile only) (fun p => ⟨fun _ _ => rfl, rfl⟩) stands₁.hosts
      (small_sameFiles hasFile hasFile₁ only) (told _ _ _)
    exact ⟨b.1, s₁, w₁, stats₂, s₂, w₂, done, done₂, alike⟩
  · obtain ⟨stats, s₁, w₁, h₁, done, stands₁, unmarked, hasFile₁, -, given⟩ := sampleWhole_run stands hasFile rfl
    obtain ⟨-, -, -, -, -, -, -, -, -, given₁⟩ := sampleWhole_run stands₁ hasFile₁ unmarked
    have only : ∀ path ∈ [smallPath], path = smallPath := by simp
    obtain ⟨stats₂, s₂, w₂, done₂, alike⟩ := run [smallPath] stats s₁ w₁ w₁ given done (told _ _ _)
      (small_sameFiles hasFile hasFile only) (fun p => ⟨fun _ _ => rfl, rfl⟩) stands₁.hosts
      (small_sameFiles hasFile hasFile₁ only) given₁ (told _ _ _)
    exact ⟨stats, s₁, w₁, stats₂, s₂, w₂, done, done₂, alike⟩
  · obtain ⟨stats, s₁, w₁, h₁, done, stands₁, unmarked, hasFile₁, faultless, -⟩ :=
      sampleWhole_run stands hasFile rfl
    obtain ⟨stats₂, s₂, w₂, done₂, none_, alike, drained⟩ := idle true stats s₁ w₁ w₁ done
      (small_told sampleWhole_bare (small_clock hasFile) _ _ _) faultless (small_sameTree hasFile hasFile)
      (fun p => ⟨fun _ _ => rfl, rfl⟩) stands₁.hosts (small_sameTree hasFile hasFile₁)
    exact ⟨stats, s₁, w₁, stats₂, s₂, w₂, done, faultless, done₂, none_, alike, drained⟩

end History

end SymbolIndex
