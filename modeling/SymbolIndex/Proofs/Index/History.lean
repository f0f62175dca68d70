import SymbolIndex.Proofs.Index.Opening

/-!
# Proofs.Index.History — what an index comes to

An index is opened in an empty directory, and operations follow one after the other, in any number and
order; between them anything may happen outside of the files and tables of the index (`History`). Whatever
the history, the index stands for holdings that the same operations lead to from nothing
(`History.stands`), so that a property of the holdings which every step keeps holds of every index.

`Holdings.Reached` lists these steps. Documents are steps of their own: a pass is a document after a document
(`Reached.pass`), and what holds after each document holds within a pass.
-/

namespace SymbolIndex

open Action (outcome)

set_option autoImplicit false

namespace Ledger.Keyed

variable {l : Ledger}

theorem writeAll (keyed : l.Keyed) (rs : List Record) : (l.writeAll rs).Keyed := by
  induction rs generalizing l with
  | nil => exact keyed
  | cons r rs ih => exact ih (keyed.write r)

theorem without (keyed : l.Keyed) (removed : List Record) : (l.without removed).Keyed := by
  intro key r found
  rw [get?_without] at found
  split at found
  · cases found
  · exact keyed key r found

end Ledger.Keyed

namespace Holdings

/-- The holdings that operations lead to from nothing. -/
inductive Reached (site : Site) (terms : Terms) : Holdings → Prop where
  | empty : Reached site terms .empty
  | document {h : Holdings} {uri : String} {records : List Record} {time : Int64}
      (before : Reached site terms h) (admits : site.Admits uri records)
      (extracted : terms.extracted uri records) (ticked : terms.clock time) :
      Reached site terms ((h.applied uri records (max 0 time)).cleared uri)
  | marked {h : Holdings} (before : Reached site terms h) (marks : List String) :
      Reached site terms { h with marks := marks }
  | built {h : Holdings} (before : Reached site terms h) (time : Int64) : Reached site terms (h.builtAt time)
  | swept {h : Holdings} {removed : List Record} (before : Reached site terms h)
      (stored : ∀ r ∈ removed, h.ledger.get? r.key = some r ∧ r.sourceUri?.isSome = true) :
      Reached site terms (h.swept removed)
  | reset {h : Holdings} (before : Reached site terms h) : Reached site terms h.reset

theorem keyed_applied {h : Holdings} (keyed : h.ledger.Keyed) (uri : String) (records : List Record)
    (now : Int64) : (h.applied uri records now).ledger.Keyed := by
  have gathered : (h.gathered uri records).1.ledger.Keyed := by
    rw [fst_gathered]
    exact keyed_takeAll keyed
  exact (gathered.writeAll _).write _

theorem Reached.keyed {site : Site} {terms : Terms} {h : Holdings} (reached : Reached site terms h) :
    h.ledger.Keyed := by
  induction reached with
  | empty => exact .empty
  | document _ _ _ _ ih => exact keyed_applied ih _ _ _
  | marked _ _ ih => exact ih
  | built _ _ ih => exact ih
  | swept _ _ ih => exact ih.without _
  | reset _ _ => exact .empty

/-- What is reached on some terms is reached on weaker ones. -/
theorem Reached.mono {site : Site} {terms terms' : Terms} {h : Holdings} (reached : Reached site terms h)
    (extracted : ∀ uri records, terms.extracted uri records → terms'.extracted uri records)
    (clock : ∀ time, terms.clock time → terms'.clock time) : Reached site terms' h := by
  induction reached with
  | empty => exact .empty
  | document _ admits gave ticked ih => exact ih.document admits (extracted _ _ gave) (clock _ ticked)
  | marked _ marks ih => exact ih.marked marks
  | built _ time ih => exact ih.built time
  | swept _ stored ih => exact ih.swept stored
  | reset _ ih => exact ih.reset

/-- A pass is a document after a document. -/
theorem Reached.pass {site : Site} {terms : Terms} {findings : List Finding} {a b : IndexStats × Holdings}
    (pass : Pass site terms findings a b) (before : Reached site terms a.2) : Reached site terms b.2 := by
  induction pass with
  | done => exact before
  | failed _ _ ih => exact ih (before.marked _)
  | applied admits extracted ticked _ ih => exact ih (before.document admits extracted ticked)

end Holdings

/-- The indexer of some settings, for an index of a site, on a machine of any parallelism. -/
structure Indexer.Made (x : Indexer) (c : IndexConfig) (site : Site) : Prop where
  backend : c.backend = site.backend
  root : c.indexRoot = site.root
  sound : c.fault? = none
  made : ∃ parallelism, Indexer.ofConfig c x.extract parallelism = .ok x

namespace Indexer.Made

variable {x : Indexer} {c : IndexConfig} {site : Site}

theorem at_ (made : x.Made c site) : x.At site :=
  (at_ofConfig made.backend made.root made.made).1

theorem asks (made : x.Made c site) : ∃ listings, x.Asks listings := by
  obtain ⟨-, -, listings, sources, quiet⟩ := at_ofConfig made.backend made.root made.made
  exact ⟨listings, sources, quiet⟩

end Indexer.Made

/-- The states that an index is in and the worlds around it, from the opening in an empty directory on.
Every operation succeeds, and keeps to the terms in what it reads. -/
inductive History (x : Indexer) (c : IndexConfig) (site : Site) (terms : Terms) : IndexState → World → Prop where
  | opened {w w' : World} {s : IndexState} (fresh : w.Fresh site.root site.base)
      (done : Script.outcome (Indexer.open c) w = (.ok s, w')) : History x c site terms s w'
  | run {s s' : IndexState} {w w' : World} {force : Bool} {stats : IndexStats}
      (before : History x c site terms s w) (done : outcome (x.run force) s w = (.ok stats, s', w'))
      (told : Action.Along (x.Told site terms) (x.run force) s w) : History x c site terms s' w'
  | indexFile {s s' : IndexState} {w w' : World} {path : Path} {stats : IndexStats}
      (before : History x c site terms s w) (done : outcome (x.indexFile path) s w = (.ok stats, s', w'))
      (told : Action.Along (x.Told site terms) (x.indexFile path) s w) : History x c site terms s' w'
  /-- A document in the middle of a pass. -/
  | document {s s' : IndexState} {w w' : World} {document : TextDocument} {records : List Record}
      {stats stats' : IndexStats} (before : History x c site terms s w)
      (gave : x.extract document = some records) (admits : site.Admits document.uri records)
      (extracted : terms.extracted document.uri records) (ticked : terms.clock w.clock)
      (done : outcome (x.indexDocument stats document) s w = (.ok stats', s', w')) :
      History x c site terms s' w'
  | sweep {s s' : IndexState} {w w' : World} {removed : Nat} (before : History x c site terms s w)
      (done : outcome x.sweep s w = (.ok removed, s', w')) : History x c site terms s' w'
  | reset {s s' : IndexState} {w w' : World} (before : History x c site terms s w)
      (done : outcome x.reset s w = (.ok (), s', w')) : History x c site terms s' w'
  | mark {s s' : IndexState} {w w' : World} {uri : String} (before : History x c site terms s w)
      (done : outcome (Indexer.onDirty (DirtyLog.mark uri)) s w = (.ok (), s', w')) :
      History x c site terms s' w'
  /-- Whatever happens outside of the index, the clock included. -/
  | outside {s : IndexState} {w w' : World} (before : History x c site terms s w)
      (same : ∀ p, World.Same site.base p w w') (hosts : w'.disk.Hosts site.root site.base) :
      History x c site terms s w'

namespace History

variable {x : Indexer} {c : IndexConfig} {site : Site} {terms : Terms} {s s' : IndexState} {w w' : World}

/-- An operation that is known to succeed comes to no other state and world. -/
theorem agree {α : Type} {action : Indexed α} {a b : α} {s₁ s₂ : IndexState} {w₁ w₂ : World}
    (one : outcome action s w = (.ok a, s₁, w₁)) (two : outcome action s w = (.ok b, s₂, w₂)) :
    a = b ∧ s₁ = s₂ ∧ w₁ = w₂ := by
  rw [one] at two
  simpa using two

/-- **An index stands for what its history leads to from nothing.** -/
theorem stands (history : History x c site terms s w) (made : x.Made c site) :
    ∃ h, site.Stands h s w ∧ Holdings.Reached site terms h := by
  have at_ := made.at_
  induction history with
  | opened fresh done =>
      obtain ⟨s, w', opened, stands, -⟩ :=
        Site.Stands.open_fresh fresh made.backend made.root made.sound made.made
      rw [opened] at done
      cases done
      exact ⟨.empty, stands, .empty⟩
  | run before done told ih =>
      obtain ⟨h, stands, reached⟩ := ih
      obtain ⟨listings, asks⟩ := made.asks
      obtain ⟨v, -, ran⟩ := stands.run_ok at_ asks told
      cases all : Listing.all v listings with
      | error e =>
          rw [all] at ran
          obtain ⟨⟨_, _, failed⟩, -⟩ := ran
          cases done.symm.trans failed
      | ok found =>
          rw [all] at ran
          obtain ⟨findings, b, time, v', s', w', done', -, stands', -, -, -, -, pass⟩ := ran
          obtain ⟨-, rfl, rfl⟩ := agree done done'
          exact ⟨_, stands', ((reached.marked []).pass pass).built time⟩
  | indexFile before done told ih =>
      obtain ⟨h, stands, reached⟩ := ih
      obtain ⟨findings, b, s', w', done', stands', -, -, -, pass⟩ := stands.indexFile_ok at_ told
      obtain ⟨-, rfl, rfl⟩ := agree done done'
      exact ⟨_, stands', reached.pass pass⟩
  | document before gave admits extracted ticked done ih =>
      obtain ⟨h, stands, reached⟩ := ih
      obtain ⟨s', w', done', stands', -⟩ := stands.indexDocument_ok at_ gave admits _
      obtain ⟨-, rfl, rfl⟩ := agree done done'
      exact ⟨_, stands', reached.document admits extracted ticked⟩
  | sweep before done ih =>
      obtain ⟨h, stands, reached⟩ := ih
      obtain ⟨removed, s', w', done', stands', -, stored⟩ := stands.sweep_ok at_
      obtain ⟨-, rfl, rfl⟩ := agree done done'
      exact ⟨_, stands', reached.swept stored⟩
  | reset before done ih =>
      obtain ⟨h, stands, reached⟩ := ih
      obtain ⟨s', w', done', stands', -⟩ := stands.reset_ok at_
      obtain ⟨-, rfl, rfl⟩ := agree done done'
      exact ⟨_, stands', reached.reset⟩
  | mark before done ih =>
      obtain ⟨h, stands, reached⟩ := ih
      obtain ⟨marks, s', w', done', stands', -⟩ := stands.mark_ok _
      obtain ⟨-, rfl, rfl⟩ := agree done done'
      exact ⟨_, stands', reached.marked marks⟩
  | outside before same hosts ih =>
      obtain ⟨h, stands, reached⟩ := ih
      exact ⟨h, stands.same same hosts, reached⟩

end History

/-! ## A small index -/

/-- An index in a database under `/i`, of a project under `/p` and of the file `/a.php`. Every write makes a
batch. -/
def smallConfig : IndexConfig where
  indexRoot := ⟨[47, 105]⟩
  projectRoot := ⟨[47, 112]⟩
  backend := .sqlite
  stubPaths := [⟨[47, 97, 46, 112, 104, 112]⟩]
  storeBatchSize := 1
  searchBatchSize := 1

def smallSite : Site := ⟨.sqlite, ⟨[47, 105]⟩, [[105]], fun _ => True, nofun⟩

theorem smallSources_ok : (Source.ofConfig smallConfig).toOption.isSome = true := by decide +kernel

/-- The indexer of the small index with an extractor, on a machine that does two things at the same time. -/
def smallIndexer (extract : Extractor) : Indexer where
  root := smallConfig.indexRoot
  store := .ofBackend .sqlite smallConfig.indexRoot
  sources := (Source.ofConfig smallConfig).toOption.get smallSources_ok
  extract := extract
  readWidth := 2

theorem smallIndexer_made (extract : Extractor) : (smallIndexer extract).Made smallConfig smallSite where
  backend := rfl
  root := rfl
  sound := by decide +kernel
  made := by
    have read : ∀ (e : Except IndexError (List Source)) (there : e.toOption.isSome = true),
        e = .ok (e.toOption.get there) := by
      rintro (_ | _) there
      · cases there
      · rfl
    refine ⟨2, ?_⟩
    rw [Indexer.ofConfig, read _ smallSources_ok]
    rfl

/-- Everything may be used in the small index; only the URI of a document has to be one. -/
theorem smallSite_admits {uri : String} (normal : Uri.normalize uri = uri) (records : List Record) :
    smallSite.Admits uri records := ⟨normal, trivial, fun _ _ _ _ => trivial⟩

/-- The world with a file more beside the small index. -/
def World.withFile (w : World) (name : Name) (content : Text.Bytes) (modified : Int) : World :=
  { w with disk := { w.disk.put [name] (.file w.disk.nextId content modified) with
      nextId := w.disk.nextId + 1 } }

theorem World.withFile_node? (w : World) (name : Name) (content : Text.Bytes) (modified : Int) (a : Address) :
    (w.withFile name content modified).disk.node? a =
      if a = [name] then some (.file w.disk.nextId content modified) else w.disk.node? a := by
  show (w.disk.put [name] (.file w.disk.nextId content modified)).node? a = _
  exact Disk.node?_put (by simp) _ a

/-- A file of another name is not below the small index. -/
theorem beside_smallSite {name : Name} (other : name ≠ [105]) : ¬ Disk.Below smallSite.base [name] := by
  rintro ⟨names, some_, same⟩
  have last := congrArg List.getLast? same
  simp [smallSite] at last
  exact other last

theorem World.Fresh.withFile {w : World} (fresh : w.Fresh smallSite.root smallSite.base) {name : Name}
    (other : name ≠ [105]) (vacant : w.disk.node? [name] = none) (content : Text.Bytes) (modified : Int) :
    (w.withFile name content modified).Fresh smallSite.root smallSite.base := by
  have still : ∀ a, a ≠ [name] → (w.withFile name content modified).disk.node? a = w.disk.node? a :=
    fun a apart => by rw [World.withFile_node?, if_neg apart]
  have bare : ∀ {a : Address}, Disk.Below smallSite.base a →
      (w.withFile name content modified).disk.node? a = none := by
    intro a below
    rw [still a fun same => beside_smallSite other (same ▸ below)]
    exact fresh.bare below
  have sound : (w.withFile name content modified).disk.Sound :=
    fresh.hosts.sound.put_file (fun m found => by cases vacant.symm.trans found) rfl
  obtain ⟨m, directory⟩ := fresh.hosts.directory
  refine ⟨.of_name sound (by decide) (m := m) ?_ fun below => ?_, bare⟩
  · rw [still _ fun same => other (List.cons.inj same).1.symm]
    exact directory
  · rw [bare below]
    exact nofun

/-- The name of the file beside the small index. -/
def smallName : Name := [97, 46, 112, 104, 112]

/-- A directory `/i` with nothing in it, and an empty file `/a.php`. -/
def smallWorld : World := newIndex.withFile smallName [] 0

/-- What lies around the small index: the file with its content and the time of its last change, and no
project. -/
structure World.Shows (w : World) (content : Text.Bytes) (modified : Int) : Prop where
  file : w.disk.node? [smallName] = some (.file 0 content modified)
  noProject : w.disk.node? [[112]] = none

/-- The file beside the small index is as it was at first. -/
abbrev World.HasFile (w : World) : Prop := w.Shows [] 0

theorem smallWorld_hasFile : smallWorld.HasFile where
  file := by
    rw [smallWorld, World.withFile_node?, if_pos rfl]
    rfl
  noProject := by
    rw [smallWorld, World.withFile_node?, if_neg (by decide)]
    decide +kernel

theorem smallWorld_fresh : smallWorld.Fresh smallSite.root smallSite.base :=
  World.Fresh.withFile (w := newIndex) newIndex_fresh (by decide) (by decide +kernel) [] 0

namespace History

variable {extract : Extractor} {terms : Terms} {h : Holdings}

/-- The small index comes to stand for some holdings, with the file as it was. -/
def Comes (extract : Extractor) (terms : Terms) (h : Holdings) : Prop :=
  ∃ s w, History (smallIndexer extract) smallConfig smallSite terms s w ∧ smallSite.Stands h s w ∧ w.HasFile

/-- A file beside the small index stays as it was. -/
theorem node?_of_around {w w' : World} (around : World.Around smallSite.root smallSite.base w w') {name : Name}
    (other : name ≠ [105]) : w'.disk.node? [name] = w.disk.node? [name] :=
  around.disk _ fun _ owns => beside_smallSite other owns.below

/-- What is around the small index stays as it was. -/
theorem shows_of_around {w w' : World} {content : Text.Bytes} {modified : Int}
    (around : World.Around smallSite.root smallSite.base w w') (shown : w.Shows content modified) :
    w'.Shows content modified :=
  ⟨(node?_of_around around (by decide)).trans shown.file, (node?_of_around around (by decide)).trans shown.noProject⟩

/-- Opening the small index leaves the file beside it as it was. -/
theorem hasFile_of_apart {w w' : World} (shown : w.HasFile)
    (apart : ∀ a, ¬ Disk.Below smallSite.base a → w'.disk.node? a = w.disk.node? a) : w'.HasFile :=
  ⟨(apart _ (beside_smallSite (by decide))).trans shown.file,
    (apart _ (beside_smallSite (by decide))).trans shown.noProject⟩

theorem Comes.start (extract : Extractor) (terms : Terms) : Comes extract terms .empty := by
  have made := smallIndexer_made extract
  obtain ⟨s, w, opened, stands, apart⟩ := Site.Stands.open_fresh
    smallWorld_fresh made.backend made.root made.sound made.made
  exact ⟨s, w, .opened smallWorld_fresh opened, stands, hasFile_of_apart smallWorld_hasFile apart⟩

/-- A document is indexed when the clock has come to a time. -/
theorem Comes.document (comes : Comes extract terms h) (document : TextDocument) {records : List Record}
    (gave : extract document = some records) (normal : Uri.normalize document.uri = document.uri)
    (extracted : terms.extracted document.uri records) (time : Int64) (ticked : terms.clock time) :
    Comes extract terms ((h.applied document.uri records (max 0 time)).cleared document.uri) := by
  obtain ⟨s, w, history, stands, hasFile⟩ := comes
  have same : ∀ p, World.Same smallSite.base p w { w with clock := time } := fun p => ⟨fun _ _ => rfl, rfl⟩
  have later := history.outside same stands.hosts
  have admits := smallSite_admits normal records
  obtain ⟨s', w', done, stands', around, -⟩ :=
    (stands.same same stands.hosts).indexDocument_ok (smallIndexer_made extract).at_ gave admits {}
  exact ⟨s', w', later.document gave admits extracted ticked done, stands',
    shows_of_around around ⟨hasFile.file, hasFile.noProject⟩⟩

theorem Comes.reset (comes : Comes extract terms h) : Comes extract terms h.reset := by
  obtain ⟨s, w, history, stands, hasFile⟩ := comes
  obtain ⟨s', w', done, stands', still⟩ := stands.reset_ok (smallIndexer_made extract).at_
  exact ⟨s', w', history.reset done, stands', shows_of_around still.toAround hasFile⟩

end History

end SymbolIndex
