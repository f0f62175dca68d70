import SymbolIndex.Proofs.Index.Replay
import SymbolIndex.Proofs.Index.Repeated

/-!
# Proofs.Index.Definitions — a definition is not lost to a placeholder

A record defines a symbol when it has a location, and a class a type besides (`Record.Defines`). What one record
does to the record and the entry of a symbol is `Holdings.overlaid`, and where a definition is in sight it does
nothing unless the record defines the symbol itself (`overlaid_of_firm`). So whatever a file emits, in any order, and
whatever waits to be written meanwhile:

* what is defined stays defined (`Pass.keeps_firm`);
* what no document of a pass defines keeps its record and its entry (`Pass.keeps_sight`).

`History.definition_kept` says both of a run and of the indexing of one file, in terms of lookups and searches.
-/

namespace SymbolIndex

open Action (outcome)
open Holdings (sight isFirm overlaid isOffered)
open SearchEntry (ofRecord?)

set_option autoImplicit false

/-! ## One record -/

namespace Holdings

variable {key : RecordKey} {a : Option Record × Option SearchEntry} {r : Record} {records : List Record}

/-- A definition is replaced by definitions only. -/
theorem isFirm_overlaid (firm : isFirm a = true) (r : Record) : isFirm (overlaid key a r) = true := by
  rw [overlaid]
  split
  · exact firm
  · split
    · exact firm
    next untaken =>
      have located : r.isPlaceholder = false := by simpa [firm] using untaken
      simp [isFirm, located]

/-- Where a definition is in sight, a record that does not define the symbol does nothing. -/
theorem overlaid_of_firm (firm : isFirm a = true) (other : ¬ r.Defines key) : overlaid key a r = a := by
  rw [overlaid]
  split
  · rfl
  next own =>
    rw [not_or, not_not, Bool.not_eq_true] at own
    have placeholder : r.isPlaceholder = true := by
      by_contra located
      exact other ⟨own.1, by simpa using located, own.2⟩
    rw [placeholder, firm]
    rfl

theorem isFirm_foldl (firm : isFirm a = true) (records : List Record) :
    isFirm (records.foldl (overlaid key) a) = true := by
  induction records generalizing a with
  | nil => exact firm
  | cons r records ih => exact ih (isFirm_overlaid firm r)

theorem foldl_overlaid_of_firm (firm : isFirm a = true) (others : ∀ r ∈ records, ¬ r.Defines key) :
    records.foldl (overlaid key) a = a := by
  induction records with
  | nil => rfl
  | cons r records ih =>
      rw [List.foldl_cons, overlaid_of_firm firm (others r (by simp))]
      exact ih fun r' member => others r' (by simp [member])

/-- What is in sight when a definition is. -/
theorem isFirm_iff {h : Holdings} :
    isFirm (sight key h) = true ↔ ∃ r, h.ledger.get? key = some r ∧ r.isPlaceholder = false := by
  rw [isFirm, sight, Option.any_eq_true]
  simp

end Holdings

/-! ## Passes -/

section Passes

variable {site : Site} {terms terms' : Terms} {findings : List Finding} {a b : IndexStats × Holdings} {h h' : Holdings}
  {key : RecordKey} {s s' : IndexState} {w w' : World} {x : Indexer} {stats : IndexStats}

/-- What is defined before a pass is defined after it. -/
theorem Pass.keeps_firm (pass : Pass site terms findings a b) (keyed : a.2.ledger.Keyed)
    (searchable : key.recordType.isSearchable = true) (firm : isFirm (sight key a.2) = true) :
    isFirm (sight key b.2) = true := by
  induction pass with
  | done => exact firm
  | failed grown onward ih => exact ih keyed firm
  | @applied c records rest stats h b time admits extracted ticked onward ih =>
      refine ih (Holdings.keyed_applied keyed _ _ _) ?_
      have applied := Holdings.sight_applied searchable admits.normal keyed records (max 0 time)
      show isFirm (sight key (h.applied c.uri records (max 0 time))) = true
      rw [applied]
      exact Holdings.isFirm_foldl firm _

/-- What is defined, and is not defined by a document of a pass, keeps its record and its entry. -/
theorem Pass.keeps_sight (pass : Pass site terms findings a b) (keyed : a.2.ledger.Keyed)
    (searchable : key.recordType.isSearchable = true) (firm : isFirm (sight key a.2) = true)
    (others : ∀ uri records, terms.extracted uri records → ∀ r ∈ records, ¬ r.Defines key) :
    sight key b.2 = sight key a.2 := by
  induction pass with
  | done => rfl
  | failed grown onward ih => exact ih keyed firm
  | @applied c records rest stats h b time admits extracted ticked onward ih =>
      have kept : sight key (h.applied c.uri records (max 0 time)) = sight key h := by
        rw [Holdings.sight_applied searchable admits.normal keyed]
        refine Holdings.foldl_overlaid_of_firm firm fun r member => ?_
        exact others _ _ extracted r (List.mem_filter.1 member).1
      have onward' := ih (Holdings.keyed_applied keyed _ _ _) (by rw [← kept] at firm; exact firm)
      exact onward'.trans kept

/-- From some holdings to others by a pass, whatever becomes of the marks and of the time of the last build. -/
def Site.Passes (site : Site) (terms : Terms) (h h' : Holdings) : Prop :=
  ∃ (findings : List Finding) (stats : IndexStats) (marks : List String) (b : IndexStats × Holdings),
    Pass site terms findings (stats, { h with marks := marks }) b ∧ (h' = b.2 ∨ ∃ time, h' = b.2.builtAt time)

namespace Site.Passes

theorem mono (passes : site.Passes terms h h')
    (extracted : ∀ uri records, terms.extracted uri records → terms'.extracted uri records)
    (clock : ∀ time, terms.clock time → terms'.clock time) : site.Passes terms' h h' := by
  obtain ⟨findings, stats, marks, b, pass, last⟩ := passes
  exact ⟨findings, stats, marks, b, pass.mono extracted clock, last⟩

theorem reached (passes : site.Passes terms h h') (before : Holdings.Reached site terms h) :
    Holdings.Reached site terms h' := by
  obtain ⟨findings, stats, marks, b, pass, rfl | ⟨time, rfl⟩⟩ := passes
  · exact (before.marked marks).pass pass
  · exact ((before.marked marks).pass pass).built time

theorem keeps_firm (passes : site.Passes terms h h') (keyed : h.ledger.Keyed)
    (searchable : key.recordType.isSearchable = true) (firm : isFirm (sight key h) = true) :
    isFirm (sight key h') = true := by
  obtain ⟨findings, stats, marks, b, pass, rfl | ⟨time, rfl⟩⟩ := passes
  · exact pass.keeps_firm keyed searchable firm
  · exact pass.keeps_firm keyed searchable firm

theorem keeps_sight (passes : site.Passes terms h h') (keyed : h.ledger.Keyed)
    (searchable : key.recordType.isSearchable = true) (firm : isFirm (sight key h) = true)
    (others : ∀ uri records, terms.extracted uri records → ∀ r ∈ records, ¬ r.Defines key) :
    sight key h' = sight key h := by
  obtain ⟨findings, stats, marks, b, pass, rfl | ⟨time, rfl⟩⟩ := passes
  · exact pass.keeps_sight keyed searchable firm others
  · exact pass.keeps_sight keyed searchable firm others

end Site.Passes

namespace Site.Stands

/-- A run that succeeds is a pass. -/
theorem run_passes {listings : List Listing} {force : Bool} (stands : site.Stands h s w) (at_ : x.At site)
    (asks : x.Asks listings) (told : Action.Along (x.Told site terms) (x.run force) s w)
    (done : outcome (x.run force) s w = (.ok stats, s', w')) :
    ∃ h', site.Stands h' s' w' ∧ site.Passes terms h h' := by
  obtain ⟨v, -, ran⟩ := stands.run_ok at_ asks told
  cases all : Listing.all v listings with
  | error e =>
      rw [all] at ran
      obtain ⟨⟨_, _, failed⟩, -⟩ := ran
      cases done.symm.trans failed
  | ok found =>
      rw [all] at ran
      obtain ⟨findings, b, time, v', s₁, w₁, done', -, stands', -, -, -, -, pass⟩ := ran
      obtain ⟨-, rfl, rfl⟩ := History.agree done done'
      exact ⟨_, stands', findings, _, [], b, pass, .inr ⟨time, rfl⟩⟩

/-- Indexing one file is a pass. -/
theorem indexFile_passes {path : Path} (stands : site.Stands h s w) (at_ : x.At site)
    (told : Action.Along (x.Told site terms) (x.indexFile path) s w)
    (done : outcome (x.indexFile path) s w = (.ok stats, s', w')) :
    ∃ h', site.Stands h' s' w' ∧ site.Passes terms h h' := by
  obtain ⟨findings, b, s₁, w₁, done', stands', -, -, -, pass⟩ := stands.indexFile_ok at_ told
  obtain ⟨-, rfl, rfl⟩ := History.agree done done'
  exact ⟨_, stands', findings, _, h.marks, b, pass, .inl rfl⟩

end Site.Stands

end Passes

/-! ## Lookups and searches -/

/-- No document defines the symbol of a key. -/
def Terms.undefined (key : RecordKey) : Terms where
  extracted _ records := ∀ r ∈ records, ¬ r.Defines key
  clock _ := True

/-- What is on two terms. -/
def Terms.both (terms terms' : Terms) : Terms where
  extracted uri records := terms.extracted uri records ∧ terms'.extracted uri records
  clock time := terms.clock time ∧ terms'.clock time

theorem Indexer.Told.both {x : Indexer} {site : Site} {terms terms' : Terms} (γ : Type) (request : Call γ) (answer : γ)
    (told : x.Told site terms γ request answer ∧ x.Told site terms' γ request answer) :
    x.Told site (terms.both terms') γ request answer := by
  cases request with
  | read path =>
      cases answer with
      | error e => trivial
      | ok bytes =>
          intro text records decoded gave
          obtain ⟨admits, one⟩ := told.1 text records decoded gave
          exact ⟨admits, one, (told.2 text records decoded gave).2⟩
  | now => exact told
  | stat path => exact told.1
  | create | openAppend | append | rename | removeFile | removeTree | createDirectories | readDirectory | connect
  | transact => trivial

/-- A search with some criteria finds an entry. -/
def SearchIndex.Finds (criteria : Criteria) (s : IndexState) (w : World) (e : SearchEntry) : Prop :=
  ∃ found i w', outcome (SearchIndex.search criteria) s.search w = (.ok found, i, w') ∧ .ok e ∈ found

theorem Site.Stands.finds_iff {site : Site} {h : Holdings} {s : IndexState} {w : World} {criteria : Criteria}
    {e : SearchEntry} (stands : site.Stands h s w) (readable : h.catalog.Readable) (clean : criteria.Clean)
    (takes : site.backend.takes criteria = true) :
    SearchIndex.Finds criteria s w e ↔ h.catalog.get? e.key = some e ∧ criteria.accepts e = true := by
  obtain ⟨found, hits, i, w', done, -, exact_, -, listed, -⟩ := stands.search_ok readable clean
  obtain rfl := exact_ takes
  rw [← listed]
  constructor
  · rintro ⟨found', i', w'', done', member⟩
    rw [done] at done'
    cases done'
    obtain ⟨e', inside, same⟩ := List.mem_map.1 member
    exact Except.ok.inj same ▸ inside
  · exact fun inside => ⟨_, i, w', done, List.mem_map.2 ⟨e, inside, rfl⟩⟩

/-- The symbol of a key has a record, and the entry that the record projects to. Searches that the index takes find
this entry and no other of the key, as far as the identifiers on the terms can be searched for. -/
structure Site.Presents (site : Site) (x : Indexer) (terms : Terms) (key : RecordKey) (r : Record) (s : IndexState)
    (w : World) : Prop where
  stored : outcome (x.find? key) s w = (.ok (some r), s, w)
  listed : ∃ h, site.Stands h s w ∧ h.catalog.get? key = ofRecord? r
  found : (∀ uri records, terms.extracted uri records → ∀ r ∈ records, Clean r.identifier) →
    ∀ criteria e, criteria.Clean → site.backend.takes criteria = true → e.key = key →
      (SearchIndex.Finds criteria s w e ↔ ofRecord? r = some e ∧ criteria.accepts e = true)

theorem Site.Stands.presents {site : Site} {x : Indexer} {terms : Terms} {h : Holdings} {key : RecordKey} {r : Record}
    {s : IndexState} {w : World} (stands : site.Stands h s w) (at_ : x.At site)
    (reached : Holdings.Reached site terms h) (searchable : key.recordType.isSearchable = true)
    (used : site.used key.identifier) (there : h.ledger.get? key = some r) : site.Presents x terms key r s w := by
  have inStep : h.InStep site := reached.inStep
  obtain ⟨e, projected, entry⟩ := inStep.stored key r there searchable
  refine ⟨?_, ⟨h, stands, entry.trans projected.symm⟩, fun clean criteria e' searched takes own => ?_⟩
  · rw [stands.find?_ok at_ key used (.of_searchable searchable), there]
  · rw [stands.finds_iff (reached.readable clean) searched takes, own, entry, projected]

namespace History

variable {x : Indexer} {c : IndexConfig} {site : Site} {terms : Terms} {s s' : IndexState} {w w' : World}
  {key : RecordKey} {r : Record}

/-- A pass by an operation that succeeds, whatever else it is told. -/
theorem definition_kept_of_passes {α : Type} {operation : Indexed α} {h : Holdings} (at_ : x.At site)
    (reached : Holdings.Reached site terms h)
    (passes : ∀ {terms : Terms}, Action.Along (x.Told site terms) operation s w →
      ∃ h', site.Stands h' s' w' ∧ site.Passes terms h h')
    (told : Action.Along (x.Told site terms) operation s w) (searchable : key.recordType.isSearchable = true)
    (used : site.used key.identifier) (there : h.ledger.get? key = some r) (defined : r.isPlaceholder = false) :
    (∃ r', outcome (x.find? key) s' w' = (.ok (some r'), s', w') ∧ r'.isPlaceholder = false) ∧
      (Action.Along (x.Told site (.undefined key)) operation s w → site.Presents x terms key r s' w') := by
  have firm : isFirm (sight key h) = true := Holdings.isFirm_iff.2 ⟨r, there, defined⟩
  constructor
  · obtain ⟨h', stands', passed⟩ := passes told
    obtain ⟨r', there', defined'⟩ := Holdings.isFirm_iff.1 (passed.keeps_firm reached.keyed searchable firm)
    refine ⟨r', ?_, defined'⟩
    rw [stands'.find?_ok at_ key used (.of_searchable searchable), there']
  · intro undefined
    have both : Action.Along (x.Told site (terms.both (.undefined key))) operation s w :=
      (Script.Along.and told undefined).mono Indexer.Told.both
    obtain ⟨h', stands', passed⟩ := passes both
    have kept := passed.keeps_sight reached.keyed searchable firm fun _ _ gave => gave.2
    have reached' := (passed.mono (fun _ _ gave => gave.1) fun _ ticked => ticked.1).reached reached
    exact stands'.presents at_ reached' searchable used ((congrArg Prod.fst kept).trans there)

/-- **A definition is never lost to a placeholder.** Let the definition of a class, a function or a constant be
stored. After a run or the indexing of one file a definition of it is stored; and if no document of the operation
defines it, the record and its entry are what they were. -/
theorem definition_kept (history : History x c site terms s w) (made : x.Made c site)
    (searchable : key.recordType.isSearchable = true) (used : site.used key.identifier)
    (stored : outcome (x.find? key) s w = (.ok (some r), s, w)) (defined : r.isPlaceholder = false) :
    site.Presents x terms key r s w ∧
    (∀ force stats s' w', outcome (x.run force) s w = (.ok stats, s', w') →
      Action.Along (x.Told site terms) (x.run force) s w →
        (∃ r', outcome (x.find? key) s' w' = (.ok (some r'), s', w') ∧ r'.isPlaceholder = false) ∧
        (Action.Along (x.Told site (.undefined key)) (x.run force) s w → site.Presents x terms key r s' w')) ∧
    (∀ path stats s' w', outcome (x.indexFile path) s w = (.ok stats, s', w') →
      Action.Along (x.Told site terms) (x.indexFile path) s w →
        (∃ r', outcome (x.find? key) s' w' = (.ok (some r'), s', w') ∧ r'.isPlaceholder = false) ∧
        (Action.Along (x.Told site (.undefined key)) (x.indexFile path) s w →
          site.Presents x terms key r s' w')) := by
  obtain ⟨h, stands, reached⟩ := history.stands made
  have at_ := made.at_
  obtain ⟨listings, asks⟩ := made.asks
  have there : h.ledger.get? key = some r := by
    rw [stands.find?_ok at_ key used (.of_searchable searchable)] at stored
    exact Except.ok.inj (Prod.ext_iff.1 stored).1
  refine ⟨stands.presents at_ reached searchable used there, ?_, ?_⟩
  · intro force stats s' w' done told
    exact definition_kept_of_passes at_ reached (fun told => stands.run_passes at_ asks told done) told
      searchable used there defined
  · intro path stats s' w' done told
    exact definition_kept_of_passes at_ reached (fun told => stands.indexFile_passes at_ told done) told
      searchable used there defined

/-! ### Poles -/

/-- A document that is handed over declares an interface. What is read from a file mentions the interface only: as
a trait without a location, and as a class without a type. -/
def sampleMentions : Extractor := fun document =>
  if document.uri = "file:///a" ∧ document.path = ⟨[]⟩ then some [sampleInterface]
  else some [.klass ⟨"A", some .trait, none, 0⟩, .klass ⟨"A", none, some ⟨document.uri, 0, 1⟩, 0⟩]

theorem sampleMentions_cases {document : TextDocument} {records : List Record}
    (gave : sampleMentions document = some records) :
    (document.uri = "file:///a" ∧ document.path = ⟨[]⟩ ∧ records = [sampleInterface]) ∨
      records = [.klass ⟨"A", some .trait, none, 0⟩, .klass ⟨"A", none, some ⟨document.uri, 0, 1⟩, 0⟩] := by
  rw [sampleMentions] at gave
  split at gave
  next own => exact .inl ⟨own.1, own.2, (Option.some.inj gave).symm⟩
  next => exact .inr (Option.some.inj gave).symm

theorem sampleMentions_clean {document : TextDocument} {records : List Record}
    (gave : sampleMentions document = some records) : ∀ r ∈ records, Clean r.identifier := by
  have clean : Clean "A" := by decide +kernel
  rcases sampleMentions_cases gave with ⟨-, -, rfl⟩ | rfl <;>
    simpa [sampleInterface, Record.identifier] using clean

/-- No file defines the interface. -/
theorem sampleMentions_undefined {path : Path} {text : String} {records : List Record}
    (gave : sampleMentions ⟨(Candidate.ofPath path).uri, path, text⟩ = some records) :
    ∀ r ∈ records, ¬ r.Defines sampleInterface.key := by
  rcases sampleMentions_cases gave with ⟨uri, rfl, -⟩ | rfl
  · have apart : (Candidate.ofPath ⟨[]⟩).uri ≠ "file:///a" := by decide +kernel
    exact absurd uri apart
  · simp [Record.Defines, Record.isPlaceholder, Record.isSpeculative, Record.fqn?, Record.location?]

/-- The interface stays what it was when the file is indexed, and when it is taken by a run. -/
theorem sample_definition_kept :
    ∃ s w, History (smallIndexer sampleMentions) smallConfig smallSite .clean s w ∧
      outcome ((smallIndexer sampleMentions).find? sampleInterface.key) s w = (.ok (some sampleInterface), s, w) ∧
      (∃ stats s' w', outcome ((smallIndexer sampleMentions).run true) s w = (.ok stats, s', w') ∧ stats.errors = 0 ∧
        smallSite.Presents (smallIndexer sampleMentions) .clean sampleInterface.key sampleInterface s' w') ∧
      ∃ stats s' w', outcome ((smallIndexer sampleMentions).indexFile smallPath) s w = (.ok stats, s', w') ∧
        smallSite.Presents (smallIndexer sampleMentions) .clean sampleInterface.key sampleInterface s' w' := by
  have made := smallIndexer_made sampleMentions
  have normal : Uri.normalize "file:///a" = "file:///a" := by decide +kernel
  obtain ⟨s, w, history, stands, hasFile⟩ :=
    (Comes.start sampleMentions .clean).document ⟨"file:///a", ⟨[]⟩, ""⟩ (by rfl) normal
      (@sampleMentions_clean ⟨"file:///a", ⟨[]⟩, ""⟩ _ rfl) 5 trivial
  have stored : outcome ((smallIndexer sampleMentions).find? sampleInterface.key) s w =
      (.ok (some sampleInterface), s, w) := by
    rw [stands.find?_ok made.at_ _ trivial (.of_searchable rfl)]
    have there : ((Holdings.empty.applied "file:///a" [sampleInterface] (max 0 5)).cleared "file:///a").ledger.get?
      sampleInterface.key = some sampleInterface := by decide +kernel
    rw [there]
  have told := fun {α : Type} => @small_told_of_read sampleMentions .clean α
    (fun _ _ _ gave => sampleMentions_clean gave) fun _ => trivial
  have undefined := fun {α : Type} => @small_told_of_read sampleMentions (.undefined sampleInterface.key) α
    (fun _ _ _ gave => sampleMentions_undefined gave) fun _ => trivial
  obtain ⟨-, run, indexFile⟩ := definition_kept history made (by rfl) trivial stored (by rfl)
  refine ⟨s, w, history, stored, ?_, ?_⟩
  · have total : ∀ document, sampleMentions document ≠ none := by
      intro document
      rw [sampleMentions]
      split <;> exact Option.some_ne_none _
    obtain ⟨stats, s', w', -, done, -, -, -, faultless, -⟩ :=
      small_run total (told ((smallIndexer sampleMentions).run true) s w) stands hasFile rfl
    exact ⟨stats, s', w', done, faultless, (run true stats s' w' done (told _ _ _)).2 (undefined _ _ _)⟩
  · obtain ⟨-, b, s', w', done, -⟩ :=
      stands.indexFile_ok made.at_ (told ((smallIndexer sampleMentions).indexFile smallPath) s w)
    exact ⟨b.1, s', w', done, (indexFile smallPath b.1 s' w' done (told _ _ _)).2 (undefined _ _ _)⟩

end History

end SymbolIndex
