import SymbolIndex.Proofs.Index.Interleaving
import SymbolIndex.Proofs.Index.Repeated

/-!
# Proofs.Index.Edits — which edits an index finds out about

A file is changed and marked while passes go on. The index keeps up with the edit as long as the stored record
comes from the file as it is, or the file is marked, or its time is past its stamp (`Moment.Keeps`).

Two things carry this. Unless its text was read before the edit and applied after it, a file whose time is past
its stamp stays so until its new text is applied (`Watched.step`); and a mark stays until a run takes it or a
pass clears it (`Event.marked_change`). So an edit is kept track of if no reading is under way and its time is
past the stamp, and in any case while its mark lasts (`Interleaved.edit_kept`). These conditions cannot be left
out: the stamp of a record is taken, and the mark cleared, after the text was read; a mark that a run takes is
dropped if the time is not past the stamp, even by the same millisecond; and the record of a file can come from
another document (`edits_lost`).
-/

namespace SymbolIndex

open Action (outcome)
open History (normal_samplePath sampleReference)
open SymbolIndex.Text (decode?)

set_option autoImplicit false

/-- Whether the record of a file is no older than a time. -/
def Indexer.isFresh (x : Indexer) (uri : String) (changed : Int64) : Indexed Bool := do
  onStore ((← get).buffer.isFresh x.store uri changed)

/-- The record of a file is what its document gives now, but for the stamp. -/
def Indexer.Reflects (x : Indexer) (uri : String) (path : Path) (w : World) (r : Option Record) : Prop :=
  ∃ document records stamp, (⟨path, uri⟩ : Candidate).documentIn w = .ok document ∧
    x.extract document = some records ∧
    r = some (.file { Holdings.ownRecord uri records with lastIndexed := stamp })

/-- The record of a file comes from what the file is now, or the file is marked, or it is not fresh. -/
def Moment.Keeps (m : Moment) (x : Indexer) (uri : String) (path : Path) : Prop :=
  ∃ r changed fresh marks s' w',
    outcome (x.find? (.ofFile uri)) m.state m.world = (.ok r, m.state, m.world) ∧
    m.world.mtime path = .ok changed ∧
    outcome (x.isFresh uri changed) m.state m.world = (.ok fresh, m.state, m.world) ∧
    outcome (Indexer.onDirty DirtyLog.drain) m.state m.world = (.ok marks, s', w') ∧
    (x.Reflects uri path m.world r ∨ uri ∈ marks ∨ fresh = false)

/-- The time of a file is past its stamp. -/
def Moment.Stale (m : Moment) (x : Indexer) (uri : String) (path : Path) : Prop :=
  ∃ changed, m.world.mtime path = .ok changed ∧
    outcome (x.isFresh uri changed) m.state m.world = (.ok false, m.state, m.world)

/-- A document of a URI was read and is not applied yet. -/
def Moment.Holds (m : Moment) (uri : String) : Prop :=
  ∃ c document, (c, .ok document) ∈ m.phase.found ∧ document.uri = uri

namespace Event

/-- The file at a path stays as it is. -/
def KeepsFile (site : Site) (path : Path) : Event → Prop
  | .edited _ before after => site.SameFiles before after [path]
  | _ => True

/-- A URI is read at a path alone, and no other document has a record of it. -/
def KeepsRecord (uri : String) (path : Path) : Event → Prop
  | .read c => c.uri = uri → c.path = path
  | .applied other records => other ≠ uri → ∀ f, .file f ∈ records → f.path ≠ uri
  | _ => True

/-- A mark is neither taken nor cleared. -/
def KeepsMark (uri : String) : Event → Prop
  | .drained => False
  | .cleared other => Uri.normalize other ≠ uri
  | _ => True

end Event

variable {x : Indexer} {c : IndexConfig} {site : Site} {e : Event} {h h' : Holdings} {m m' : Moment}
  {uri : String} {path : Path} {changed : Int64} {w w₁ : World} {s : IndexState}

/-! ## What is asked of an index -/

theorem Site.Stands.tellsFresh_ok (stands : site.Stands h s w) (at_ : x.At site) (normal : Uri.normalize uri = uri)
    (used : site.used uri) (changed : Int64) :
    outcome (x.isFresh uri changed) s w = (.ok (h.ledger.isFresh uri changed), s, w) := by
  have fresh := stands.records.isFresh_ok (normal.symm ▸ used) changed
  rw [← at_.store] at fresh
  exact (Action.outcome_bind_ok (Action.outcome_get _ _)).trans (Indexer.onStore_ok fresh)

/-- What an index keeps track of is read off its holdings. -/
theorem Site.Stands.keeps_iff (stands : site.Stands h m.state m.world) (at_ : x.At site)
    (normal : Uri.normalize uri = uri) (used : site.used uri) (there : m.world.mtime path = .ok changed) :
    m.Keeps x uri path ↔ x.Reflects uri path m.world (h.ledger.get? ⟨.file, uri⟩) ∨ uri ∈ h.marks ∨
      h.ledger.isFresh uri changed = false := by
  have stored : outcome (x.find? (.ofFile uri)) m.state m.world =
      (.ok (h.ledger.get? ⟨.file, uri⟩), m.state, m.world) := by
    have used' : site.used (RecordKey.ofFile uri).identifier := by
      rw [RecordKey.ofFile, normal]
      exact used
    have found := stands.find?_ok at_ (.ofFile uri) used' (legible_ofFile uri)
    rwa [show RecordKey.ofFile uri = ⟨.file, uri⟩ by rw [RecordKey.ofFile, normal]] at found ⊢
  have fresh := stands.tellsFresh_ok at_ normal used changed
  obtain ⟨log, w', drained, -⟩ := stands.marks.drain
  have marks := Indexer.onDirty_ok drained
  rw [← @mem_firstOccurrences uri h.marks]
  constructor
  · rintro ⟨r, changed', fresh', marks', s', w', stored', there', fresh'', marks'', kept⟩
    cases there.symm.trans there'
    obtain ⟨rfl, -⟩ := History.agree stored stored'
    obtain ⟨rfl, -⟩ := History.agree fresh fresh''
    obtain ⟨rfl, -⟩ := History.agree marks marks''
    exact kept
  · exact fun kept => ⟨_, changed, _, _, _, w', stored, there, fresh, marks, kept⟩

theorem Ledger.isFresh_congr {l l' : Ledger} (normal : Uri.normalize uri = uri)
    (same : l'.get? ⟨.file, uri⟩ = l.get? ⟨.file, uri⟩) (changed : Int64) :
    l'.isFresh uri changed = l.isFresh uri changed := by
  rw [isFresh, isFresh, RecordKey.ofFile, normal, same]

/-- A file's own record apart, a document writes the records of the files that it names. -/
theorem Holdings.get?_applied_unnamedFile {other : String} {records : List Record} (keyed : h.ledger.Keyed)
    (normal : Uri.normalize other = other) (apart : uri ≠ other) (unnamed : ∀ f, .file f ∈ records → f.path ≠ uri)
    (now : Int64) : (h.applied other records now).ledger.get? ⟨.file, uri⟩ = h.ledger.get? ⟨.file, uri⟩ := by
  rw [get?_applied_other normal keyed records now (by simp) (by simpa using apart)]
  refine get?_gathered_other fun r member _ same => ?_
  cases r with
  | file f => exact unnamed f member (congrArg RecordKey.identifier same)
  | klass _ | function _ | constant _ | member _ => cases congrArg RecordKey.recordType same

/-- A file is fresh at the time of its stamp. -/
theorem Holdings.isFresh_applied {records : List Record} {now : Int64} (keyed : h.ledger.Keyed)
    (normal : Uri.normalize uri = uri) (before : changed ≤ now) :
    (h.applied uri records now).ledger.isFresh uri changed = true := by
  have stamp : (h.stamped uri records now).lastIndexed =
      some (Freshness.nextStamp now ((h.ledger.file? uri).bind (·.lastIndexed))) := by rw [stamped_eq]
  exact (Ledger.isFresh_iff normal).2 ⟨_, _, get?_applied_file normal keyed records now, stamp,
    Int64.le_trans before (Freshness.le_nextStamp now _)⟩

/-! ## A file that is watched -/

/-- Since a file was changed, what was read of it is its text as it is, and its time is past its stamp until
that text is applied. -/
structure Watched (x : Indexer) (site : Site) (uri : String) (path : Path) (w₁ : World) (changed : Int64)
    (h : Holdings) (m : Moment) : Prop where
  files : site.SameFiles w₁ m.world [path]
  read : ∀ c document, (c, .ok document) ∈ m.phase.found → document.uri = uri →
    (⟨path, uri⟩ : Candidate).documentIn w₁ = .ok document
  stored : h.ledger.isFresh uri changed = false ∨ x.Reflects uri path w₁ (h.ledger.get? ⟨.file, uri⟩)

theorem Site.SameFiles.here {w w' : World} (files : site.SameFiles w w' [path]) :
    w'.disk.read path = w.disk.read path ∧ w'.disk.stat path = w.disk.stat path :=
  files w' (.refl site w') path (List.mem_singleton.2 rfl)

/-- A file stays as it is along a step that keeps it. -/
theorem Site.SameFiles.step (files : site.SameFiles w₁ m.world [path])
    (moved : site.Beside m.world m'.world ∨ ∃ path, e = .edited path m.world m'.world)
    (keeps : e.KeepsFile site path) : site.SameFiles w₁ m'.world [path] := by
  rcases moved with beside | ⟨other, rfl⟩
  · exact files.beside beside
  · intro v later q member
    obtain rfl := List.mem_singleton.1 member
    obtain ⟨read, stat⟩ := keeps v later q member
    exact ⟨read.trans files.here.1, stat.trans files.here.2⟩

namespace Watched

/-- Where the record of a file stays, it stays as fresh and as near to the file as it was. -/
theorem kept (watched : Watched x site uri path w₁ changed h m) (normal : Uri.normalize uri = uri)
    (same : h'.ledger.get? ⟨.file, uri⟩ = h.ledger.get? ⟨.file, uri⟩) :
    h'.ledger.isFresh uri changed = false ∨ x.Reflects uri path w₁ (h'.ledger.get? ⟨.file, uri⟩) := by
  rw [same, Ledger.isFresh_congr normal same]
  exact watched.stored

/-- **A file is watched along every step that keeps it and its record.** -/
theorem step (watched : Watched x site uri path w₁ changed h m) (normal : Uri.normalize uri = uri)
    (keyed : h.ledger.Keyed) (step : Step x site e m m') (change : h.Change site e h')
    (moved : site.Beside m.world m'.world ∨ ∃ path, e = .edited path m.world m'.world)
    (file : e.KeepsFile site path) (record : e.KeepsRecord uri path) :
    Watched x site uri path w₁ changed h' m' where
  files := watched.files.step moved file
  read c document there own := by
    rcases step.found there with there | ⟨c', rfl, same⟩
    · exact watched.read c document there own
    · obtain ⟨rfl, found⟩ := Prod.mk.inj same
      have uris : c.uri = uri := by
        obtain ⟨_, _, -, -, rfl⟩ := Candidate.documentIn_eq_ok.1 found.symm
        exact own
      obtain rfl : c = ⟨path, uri⟩ := by
        rw [← record uris, ← uris]
      rw [found]
      exact (Candidate.documentIn_congr watched.files.here.1).symm
  stored := by
    cases change with
    | quiet | drained | read | cleared | marked | ended | built | edited => exact watched.kept normal rfl
    | @applied _ other records admits now =>
        by_cases own : other = uri
        · subst own
          obtain ⟨c, document, there, uris, gave⟩ := step.source
          refine .inr ⟨document, records, (h.stamped other records now).lastIndexed,
            watched.read c document there uris, gave, ?_⟩
          rw [Holdings.get?_applied_file admits.normal keyed, Holdings.stamped_eq]
        · exact watched.kept normal
            (Holdings.get?_applied_unnamedFile keyed admits.normal (Ne.symm own) (record own) now)

theorem keeps (watched : Watched x site uri path w₁ changed h m) (stands : site.Stands h m.state m.world)
    (at_ : x.At site) (normal : Uri.normalize uri = uri) (used : site.used uri)
    (there : w₁.mtime path = .ok changed) : m.Keeps x uri path := by
  have mtime : m.world.mtime path = .ok changed := by
    rw [← there, World.mtime, World.mtime, watched.files.here.2]
  rw [stands.keeps_iff at_ normal used mtime]
  rcases watched.stored with stale | ⟨document, records, stamp, found, gave, stored⟩
  · exact .inr (.inr stale)
  · exact .inl ⟨document, records, stamp, (Candidate.documentIn_congr watched.files.here.1).trans found, gave, stored⟩

/-- A file is watched along a run of steps. -/
theorem steps {events : List Event} (run : Steps x site events m m') (made : x.Made c site)
    (normal : Uri.normalize uri = uri) (file : ∀ e ∈ events, e.KeepsFile site path)
    (record : ∀ e ∈ events, e.KeepsRecord uri path) (watched : Watched x site uri path w₁ changed h m)
    (stands : site.Stands h m.state m.world) :
    ∃ h', site.Stands h' m'.state m'.world ∧ Watched x site uri path w₁ changed h' m' := by
  induction run generalizing h with
  | done => exact ⟨h, stands, watched⟩
  | step first _ ih =>
      obtain ⟨⟨h₁, stands₁, change⟩, moved⟩ := first.change made stands
      rw [List.forall_mem_cons] at file record
      exact ih file.2 record.2
        (watched.step normal stands.records.keyed first change moved file.1 record.1) stands₁

end Watched

/-! ## A mark -/

/-- A mark stays along a step that keeps it. -/
theorem Event.marked_change (change : h.Change site e h') (keeps : e.KeepsMark uri) (marked : uri ∈ h.marks) :
    uri ∈ h'.marks := by
  cases change with
  | quiet | read | ended | built | edited => exact marked
  | drained => exact keeps.elim
  | applied =>
      rw [Holdings.marks_applied]
      exact marked
  | cleared => exact List.mem_filter.2 ⟨marked, decide_eq_true (Ne.symm keeps)⟩
  | marked grown there =>
      rcases grown with rfl | rfl
      · exact marked
      · exact List.mem_append.2 (.inl marked)

/-- A mark stays along a run of steps. -/
theorem Steps.marked {events : List Event} (run : Steps x site events m m') (made : x.Made c site)
    (keeps : ∀ e ∈ events, e.KeepsMark uri) (stands : site.Stands h m.state m.world) (marked : uri ∈ h.marks) :
    ∃ h', site.Stands h' m'.state m'.world ∧ uri ∈ h'.marks := by
  induction run generalizing h with
  | done => exact ⟨h, stands, marked⟩
  | step first _ ih =>
      obtain ⟨⟨h₁, stands₁, change⟩, -⟩ := first.change made stands
      rw [List.forall_mem_cons] at keeps
      exact ih keeps.2 stands₁ (Event.marked_change change keeps.1 marked)

/-- A file stays as it is along a run of steps. -/
theorem Site.SameFiles.steps {events : List Event} (run : Steps x site events m m') (made : x.Made c site)
    (file : ∀ e ∈ events, e.KeepsFile site path) (files : site.SameFiles w₁ m.world [path])
    (stands : site.Stands h m.state m.world) :
    site.SameFiles w₁ m'.world [path] ∧ ∃ h', site.Stands h' m'.state m'.world := by
  induction run generalizing h with
  | done => exact ⟨files, h, stands⟩
  | step first _ ih =>
      obtain ⟨⟨h₁, stands₁, -⟩, moved⟩ := first.change made stands
      rw [List.forall_mem_cons] at file
      exact ih file.2 (files.step moved file.1) stands₁

/-! ## Edits -/

/-- **An edit is kept track of while no reading of the file is under way and its time is past the stamp, and in
any case while its mark lasts.** -/
theorem Interleaved.edit_kept {m₀ m₁ : Moment} {w w' : World} (before : Interleaved x c site m₀)
    (made : x.Made c site) (normal : Uri.normalize uri = uri) (used : site.used uri)
    (edit : Step x site (.edited path w w') m₀ m₁) (apart : site.SameFiles w' w' [path]) :
    (¬ m₀.Holds uri → m₁.Stale x uri path →
      ∀ events m₂, Steps x site events m₁ m₂ → (∀ e ∈ events, e.KeepsFile site path) →
        (∀ e ∈ events, e.KeepsRecord uri path) → m₂.Keeps x uri path) ∧
    (DirtyLog.added site.backend uri = [uri] →
      ∀ events m₂ spelled m₃ events' m₄, Steps x site events m₁ m₂ →
        Step x site (.marked spelled) m₂ m₃ → Uri.normalize spelled = uri → Steps x site events' m₃ m₄ →
        (∀ e ∈ events ++ events', e.KeepsFile site path) → (∀ e ∈ events', e.KeepsMark uri) →
        m₄.Keeps x uri path) := by
  have at_ := made.at_
  obtain ⟨h, stands⟩ := (before.step edit).stands made
  cases edit with
  | @edit s _ _ _ phase _ same hosts there timed =>
  refine ⟨fun unread stale events m₂ run file record => ?_,
    fun line events m₂ spelled m₃ events' m₄ run mark own run' file keeps => ?_⟩
  · obtain ⟨changed, last, past⟩ := stale
    cases timed.symm.trans last
    have stale := (History.agree (stands.tellsFresh_ok at_ normal used _) past).1
    have watched : Watched x site uri path w' (max 0 w'.clock) h ⟨s, w', phase, w'.clock⟩ :=
      ⟨apart, fun c document found own => absurd ⟨c, document, found, own⟩ unread, .inl stale⟩
    obtain ⟨h₂, stands₂, watched₂⟩ := Watched.steps run made normal file record watched stands
    exact watched₂.keeps stands₂ at_ normal used timed
  · obtain ⟨before, after⟩ := List.forall_mem_append.1 file
    obtain ⟨files₂, h₂, stands₂⟩ := Site.SameFiles.steps run made before apart stands
    obtain ⟨⟨h₃, stands₃, change⟩, moved⟩ := mark.change made stands₂
    have files₃ := files₂.step moved trivial
    have marked : uri ∈ h₃.marks := by
      cases change with
      | marked _ there =>
          rw [own] at there
          exact there line
    obtain ⟨files₄, -⟩ := Site.SameFiles.steps run' made after files₃ stands₃
    obtain ⟨h₄, stands₄, marked₄⟩ := run'.marked made keeps stands₃ marked
    have mtime : m₄.world.mtime path = .ok (max 0 w'.clock) := by
      rw [← timed, World.mtime, World.mtime, files₄.here.2]
    exact (stands₄.keeps_iff at_ normal used mtime).2 (.inr (.inl marked₄))

/-! ### Poles -/

section Small

variable (extract : Extractor) {content : Text.Bytes} {modified : Int} (told : Int64) {time : Int64} {phase : Phase}

/-- The file beside the small index gets a new content at a time. -/
def World.edited (w : World) (content : Text.Bytes) (time : Int64) : World :=
  { w with disk := w.disk.put [smallName] (.file 0 content time.toInt), clock := time }

theorem World.Shows.edited (shown : w.Shows content modified) (new : Text.Bytes) (time : Int64) :
    (w.edited new time).Shows new time.toInt := by
  have effect : ∀ a, (w.edited new time).disk.node? a =
      if a = [smallName] then some (.file 0 new time.toInt) else w.disk.node? a :=
    Disk.node?_put (List.cons_ne_nil _ _) _
  refine ⟨(effect _).trans (if_pos rfl), (effect _).trans ((if_neg ?_).trans shown.noProject)⟩
  decide

theorem Int64.ofInt_max_toInt (time : Int64) : Int64.ofInt (max 0 time.toInt) = max 0 time := by
  by_cases past : (0 : Int64) ≤ time
  · have past' : 0 ≤ time.toInt := Int64.le_iff_toInt_le.1 past
    rw [Int.max_eq_right past', Int64.ofInt_toInt]
    exact (if_pos past).symm
  · have before : time.toInt ≤ 0 := by
      have behind : ¬ (0 : Int64).toInt ≤ time.toInt := fun le => past (Int64.le_iff_toInt_le.2 le)
      exact Int.le_of_lt (Int.not_le.1 behind)
    rw [Int.max_eq_left before]
    exact (if_neg past).symm

theorem World.Shows.mtime_edited (shown : w.Shows content modified) (new : Text.Bytes) (time : Int64) :
    (w.edited new time).mtime smallPath = .ok (max 0 time) := by
  rw [World.mtime, (shown.edited new time).stat]
  exact congrArg Except.ok (Int64.ofInt_max_toInt time)

/-- The file beside the small index is edited. -/
theorem small_edit (stands : smallSite.Stands h s w) (shown : w.Shows content modified) (new : Text.Bytes)
    (phase : Phase) (onward : told ≤ time) :
    Step (smallIndexer extract) smallSite (.edited smallPath w (w.edited new time)) ⟨s, w, phase, told⟩
        ⟨s, w.edited new time, phase, time⟩ ∧
      smallSite.Stands h s (w.edited new time) := by
  have apart : ∀ {a : Address}, Disk.Below smallSite.base a → a ≠ [smallName] := by
    rintro a ⟨names, some_, same⟩ rfl
    have last := congrArg List.getLast? same
    simp [smallSite, smallName] at last
  have effect : ∀ a, (w.edited new time).disk.node? a =
      if a = [smallName] then some (.file 0 new time.toInt) else w.disk.node? a :=
    Disk.node?_put (List.cons_ne_nil _ _) _
  have shown' := shown.edited new time
  obtain ⟨m, directory⟩ := stands.hosts.directory
  have hosts : (w.edited new time).disk.Hosts smallSite.root smallSite.base := by
    refine .of_name (stands.hosts.sound.rewrite_file shown.file) (by decide) (m := m) ?_ fun below => ?_
    · exact (effect _).trans ((if_neg (by decide)).trans directory)
    · rw [effect, if_neg (apart below)]
      exact stands.hosts.unlinked below
  have same : ∀ p, World.Same smallSite.base p w (w.edited new time) :=
    fun p => ⟨fun a owns => (effect a).trans (if_neg (apart owns.below)), rfl⟩
  exact ⟨.edit same hosts ⟨new, shown'.read⟩ (shown.mtime_edited new time) onward, stands.same same hosts⟩

/-- A pass over one file comes to the point where its text is read. -/
theorem small_read (stands : smallSite.Stands h s w) {document : TextDocument} {source : Path}
    (there : ∀ v, smallSite.Beside w v → (Candidate.ofPath source).documentIn v = .ok document) :
    ∃ w', Steps (smallIndexer extract) smallSite [.quiet, .quiet, .quiet, .read (.ofPath source)]
        ⟨s, w, .idle, told⟩ ⟨s, w', .indexing false [] [(.ofPath source, .ok document)], told⟩ ∧
      smallSite.Stands h s w' ∧ World.Still smallSite.root smallSite.base w w' := by
  have at_ := (smallIndexer_made extract).at_
  obtain ⟨w', locked, stands', still⟩ := stands.lock_ok at_
  have along : Action.Along ((smallIndexer extract).Told smallSite .any)
      ((smallIndexer extract).consider true { stats := { candidates := 1 } } source) s w' :=
    small_told (fun _ _ _ => trivial) (fun _ => trivial) _ _ _
  refine ⟨w', ?_, stands', still⟩
  rw [← there w' ⟨still.toAround, Action.workingDirectory locked⟩]
  refine .step (.beginFile locked) (.step (.consider along (stands'.consider_ok at_ along)) (.step .choose ?_))
  exact .one (@Step.read _ _ _ _ _ _ [] [] [] _)

/-- What was read is applied, its mark cleared, and the pass comes to its end. -/
theorem small_apply (stands : smallSite.Stands h s w) {c : Candidate} {document : TextDocument}
    {records : List Record} (gave : extract document = some records)
    (normal : Uri.normalize document.uri = document.uri) :
    ∃ s' w', Steps (smallIndexer extract) smallSite
        [.applied document.uri records, .cleared document.uri, .ended]
        ⟨s, w, .indexing false [] [(c, .ok document)], told⟩ ⟨s', w', .idle, w.clock⟩ ∧
      smallSite.Stands ((h.applied document.uri records (max 0 w.clock)).cleared document.uri) s' w' ∧
      World.Around smallSite.root smallSite.base w w' := by
  have at_ := (smallIndexer_made extract).at_
  have admits := smallSite_admits normal records
  obtain ⟨s₁, w₁, applied, stands₁, around₁, -⟩ := stands.apply_ok at_ admits
  obtain ⟨s₂, w₂, cleared, stands₂, still₂⟩ := stands₁.clear_ok document.uri
  obtain ⟨s₃, w₃, handed, stands₃, still₃⟩ := stands₂.flushIfFull_ok at_
  obtain ⟨s₄, w₄, flushed, stands₄, still₄⟩ := stands₃.flush_ok at_
  refine ⟨s₄, w₄, ?_, stands₄, around₁.trans (still₂.trans (still₃.trans still₄)).toAround⟩
  have apply : Step (smallIndexer extract) smallSite (.applied document.uri records)
      ⟨s, w, .indexing false [] ([] ++ [(c, .ok document)]), told⟩
      ⟨s₁, w₁, .clearing false [] [] document.uri, w.clock⟩ := .apply gave admits applied
  exact .step apply (.step (.clear ((Action.outcome_bind_ok cleared).trans handed)) (.one (.finishFile flushed)))

/-- A run takes the mark of a file, and passes the file over if it is fresh. -/
theorem small_skip (stands : smallSite.Stands h s w) (shown : w.Shows content modified)
    (only : ∀ u ∈ h.marks, u = "file:///a.php")
    (fresh : h.ledger.isFresh "file:///a.php" (Int64.ofInt (max 0 modified)) = true) :
    ∃ s' w' told' time, Undisturbed (smallIndexer extract) smallSite ⟨s, w, .idle, told⟩ ⟨s', w', .idle, told'⟩ ∧
      smallSite.Stands ({ h with marks := [] }.builtAt time) s' w' ∧ w'.Shows content modified := by
  have made := smallIndexer_made extract
  obtain ⟨selection, root, asks⟩ := small_asks extract
  have told' : Action.Along ((smallIndexer extract).Told smallSite .any) ((smallIndexer extract).run false) s w :=
    small_told (fun _ _ _ => trivial) (fun _ => trivial) _ _ _
  obtain ⟨v, beside, ran⟩ := stands.run_ok made.at_ asks told'
  have shown' := History.shows_of_around beside.around shown
  have all : Listing.all v [.project selection, .stub false smallPath] = .ok [smallPath] := by
    rw [Listing.all, shown'.run_project root, Listing.all, shown'.run_stub]
    rfl
  rw [all] at ran
  obtain ⟨findings, b, time, v', s', w', done, beside', stands', around, -, listed, -, pass⟩ := ran
  have shown'' := History.shows_of_around beside'.around shown
  have nothing : findings = [] := by
    rw [Holdings.due_chosen, List.filter_eq_nil_iff.2] at listed
    · exact List.map_eq_nil_iff.1 listed
    · intro c first
      have path : c.path = smallPath := by
        rcases List.mem_append.1 (Candidate.mem_firsts first).2.1 with stub | marked
        · exact List.mem_singleton.1 stub
        · obtain ⟨u, there, same⟩ := List.mem_map.1 marked
          rw [only u (mem_firstOccurrences.1 there)] at same
          rw [← same]
          decide +kernel
      have uri : c.uri = "file:///a.php" := by
        rw [(Candidate.mem_firsts first).1, path]
        decide +kernel
      have last : v'.mtime c.path = .ok (Int64.ofInt (max 0 modified)) := by
        rw [path, World.mtime, shown''.stat]
        rfl
      rw [Holdings.verdict, if_neg (by decide), Holdings.judged_of_mtime last, uri]
      rw [show ({ h with marks := [] } : Holdings).ledger = h.ledger from rfl, fresh]
      decide
  subst nothing
  cases pass
  obtain ⟨told'', run⟩ := Undisturbed.of_run stands made told' done
  exact ⟨s', w', told'', time, run, stands', History.shows_of_around around shown⟩

/-- The index loses track of the file when no mark is left, the file is fresh, and its record has other references
than its text gives. -/
theorem small_lost {m : Moment} (stands : smallSite.Stands h m.state m.world) {text : String}
    (shown : m.world.Shows content modified) (decoded : decode? content = some text)
    (unmarked : "file:///a.php" ∉ h.marks)
    (fresh : h.ledger.isFresh "file:///a.php" (Int64.ofInt (max 0 modified)) = true) {f : FileRecord}
    (stored : h.ledger.get? ⟨.file, "file:///a.php"⟩ = some (.file f))
    (other : ∀ records, extract ⟨"file:///a.php", smallPath, text⟩ = some records →
      f.references ≠ (Holdings.ownRecord "file:///a.php" records).references) :
    ¬ m.Keeps (smallIndexer extract) "file:///a.php" smallPath := by
  have last : m.world.mtime smallPath = .ok (Int64.ofInt (max 0 modified)) := by
    rw [World.mtime, shown.stat]
    rfl
  rw [stands.keeps_iff (smallIndexer_made extract).at_ normal_samplePath trivial last, fresh, stored]
  rintro (⟨document, records, stamp, found, gave, same⟩ | marked | stale)
  · obtain ⟨bytes, text', read, decoded', rfl⟩ := Candidate.documentIn_eq_ok.1 found
    cases read.symm.trans shown.read
    cases decoded'.symm.trans decoded
    cases same
    exact other records gave rfl
  · exact unmarked marked
  · cases stale

/-- A run loses track of a file that is fresh, and whose record has other references than its text gives. -/
theorem small_passed_over (stands : smallSite.Stands h s w) {text : String} (shown : w.Shows content modified)
    (decoded : decode? content = some text) (only : ∀ u ∈ h.marks, u = "file:///a.php")
    (fresh : h.ledger.isFresh "file:///a.php" (Int64.ofInt (max 0 modified)) = true) {f : FileRecord}
    (stored : h.ledger.get? ⟨.file, "file:///a.php"⟩ = some (.file f))
    (other : ∀ records, extract ⟨"file:///a.php", smallPath, text⟩ = some records →
      f.references ≠ (Holdings.ownRecord "file:///a.php" records).references) :
    ∃ events m, Steps (smallIndexer extract) smallSite events ⟨s, w, .idle, told⟩ m ∧
      (∀ e ∈ events, e.KeepsFile smallSite smallPath) ∧ m.phase = .idle ∧
      ¬ m.Keeps (smallIndexer extract) "file:///a.php" smallPath := by
  obtain ⟨s', w', told', time, ⟨events, run, inner⟩, stands', shown'⟩ :=
    small_skip extract told stands shown only fresh
  refine ⟨events, _, run, fun e member => ?_, rfl,
    small_lost extract stands' shown' decoded List.not_mem_nil fresh stored other⟩
  have within := inner e member
  cases e with
  | edited => exact within.elim
  | quiet | drained | read | applied | cleared | marked | ended => trivial

end Small

/-- An edit is marked, and once no pass is under way any more the index does not keep track of it. -/
def Lost (x : Indexer) (c : IndexConfig) (site : Site) (uri : String) (path : Path) (m₀ m₁ : Moment) : Prop :=
  Interleaved x c site m₀ ∧ (∃ w w', Step x site (.edited path w w') m₀ m₁) ∧
    ∃ m₂ events m₃, Step x site (.marked uri) m₁ m₂ ∧ Steps x site events m₂ m₃ ∧
      (∀ e ∈ events, e.KeepsFile site path) ∧ m₃.phase = .idle ∧ ¬ m₃.Keeps x uri path

/-- A document has its own record alone, with a reference unless its text is empty. -/
def sampleWritten : Extractor := fun document =>
  some [.file { path := document.uri, references := if document.text = "" then [] else [sampleReference] }]

/-- The record of a file with some references, as its own document has it. -/
def sampleOwn (references : List RecordReference) : List Record :=
  [.file { path := "file:///a.php", references := references }]

theorem references_sampleOwn (references : List RecordReference) :
    (Holdings.ownRecord "file:///a.php" (sampleOwn references)).references = references := by
  simp [Holdings.ownRecord, sampleOwn]

theorem differs_sampleOwn : (Holdings.ownRecord "file:///a.php" (sampleOwn [])).references ≠
    (Holdings.ownRecord "file:///a.php" (sampleOwn [sampleReference])).references := by
  rw [references_sampleOwn, references_sampleOwn]
  exact (List.cons_ne_nil _ _).symm

theorem small_document {content : Text.Bytes} {modified : Int} {text : String}
    (shown : w.Shows content modified) (decoded : decode? content = some text) :
    ∀ v, smallSite.Beside w v →
      (Candidate.ofPath smallPath).documentIn v = .ok ⟨"file:///a.php", smallPath, text⟩ := by
  intro v beside
  have own : (Candidate.ofPath smallPath).uri = "file:///a.php" := by decide +kernel
  exact Candidate.documentIn_eq_ok.2
    ⟨content, text, (History.shows_of_around beside.around shown).read, decoded, by rw [own]; rfl⟩

/-- The text is read, the file edited and marked, and then the text that was read is applied: its record is
stamped past the edit, and the mark is cleared. -/
theorem lost_while_read : ∃ m₀ m₁, Lost (smallIndexer sampleWritten) smallConfig smallSite "file:///a.php"
    smallPath m₀ m₁ ∧ m₀.Holds "file:///a.php" ∧ m₁.Stale (smallIndexer sampleWritten) "file:///a.php" smallPath := by
  have made := smallIndexer_made sampleWritten
  obtain ⟨s, w, history, stands, hasFile⟩ := History.Comes.start sampleWritten .any
  obtain ⟨w₁, reading, stands₁, still₁⟩ :=
    small_read sampleWritten w.clock stands (small_document hasFile rfl)
  have shown₁ := History.shows_of_around still₁.toAround hasFile
  obtain ⟨edit, stands₂⟩ := small_edit sampleWritten w.clock stands₁ shown₁ [120]
    (.indexing false [] [(.ofPath smallPath, .ok ⟨"file:///a.php", smallPath, ""⟩)]) (Int64.le_refl w.clock)
  obtain ⟨marks, s₃, w₃, marked, stands₃, still₃, -⟩ := stands₂.mark_ok "file:///a.php"
  have gave : sampleWritten ⟨"file:///a.php", smallPath, ""⟩ = some (sampleOwn []) := rfl
  obtain ⟨s₄, w₄, applying, stands₄, around₄⟩ := small_apply (c := .ofPath smallPath) sampleWritten w.clock stands₃
    gave normal_samplePath
  have shown₄ := History.shows_of_around (still₃.toAround.trans around₄) (shown₁.edited [120] w.clock)
  have decoded : decode? [120] = some "x" := rfl
  refine ⟨_, _, ⟨(Interleaved.start history).steps reading, ⟨_, _, edit⟩, _, _, _, .mark marked, applying, ?_, rfl,
    small_lost sampleWritten stands₄ shown₄ decoded ?_ ?_
      (Holdings.get?_applied_file normal_samplePath stands₃.records.keyed _ _) ?_⟩,
    ⟨_, _, List.mem_singleton.2 rfl, rfl⟩,
    _, shown₁.mtime_edited [120] w.clock, stands₂.tellsFresh_ok made.at_ normal_samplePath trivial _⟩
  · simp [Event.KeepsFile]
  · simp [Holdings.cleared, normal_samplePath]
  · rw [Int64.ofInt_max_toInt, ← show w₃.clock = w.clock from still₃.clock]
    exact Holdings.isFresh_applied stands₃.records.keyed normal_samplePath (Int64.le_refl _)
  · rintro records ⟨⟩
    rw [Holdings.stamped_eq]
    exact differs_sampleOwn

/-- The file is indexed, and edited and marked within the millisecond of its stamp: the next run takes the mark
and passes the file over. -/
theorem lost_within_stamp : ∃ m₀ m₁, Lost (smallIndexer sampleWritten) smallConfig smallSite "file:///a.php"
    smallPath m₀ m₁ ∧ ¬ m₀.Holds "file:///a.php" := by
  obtain ⟨s, w, history, stands, hasFile⟩ := History.Comes.start sampleWritten .any
  obtain ⟨w₁, reading, stands₁, still₁⟩ :=
    small_read sampleWritten w.clock stands (small_document hasFile rfl)
  have gave : sampleWritten ⟨"file:///a.php", smallPath, ""⟩ = some (sampleOwn []) := rfl
  obtain ⟨s₂, w₂, applying, stands₂, around₂⟩ := small_apply (c := .ofPath smallPath) sampleWritten w.clock stands₁
    gave normal_samplePath
  have shown₂ := History.shows_of_around (still₁.toAround.trans around₂) hasFile
  obtain ⟨edit, stands₃⟩ := small_edit sampleWritten w₁.clock stands₂ shown₂ [120] .idle (Int64.le_refl w₁.clock)
  obtain ⟨marks, s₄, w₄, marked, stands₄, still₄, grown, -⟩ := stands₃.mark_ok "file:///a.php"
  have shown₄ := History.shows_of_around still₄.toAround (shown₂.edited [120] w₁.clock)
  have decoded : decode? [120] = some "x" := rfl
  have only : ∀ u ∈ marks, u = "file:///a.php" := by
    intro u member
    rcases grown with rfl | rfl
    · simp [Holdings.cleared, Holdings.empty] at member
    · simpa [Holdings.cleared, Holdings.empty, DirtyLog.added, smallSite, normal_samplePath] using member
  have stored := Holdings.get?_applied_file normal_samplePath stands₁.records.keyed (sampleOwn []) (max 0 w₁.clock)
  have fresh : (Holdings.empty.applied "file:///a.php" (sampleOwn []) (max 0 w₁.clock)).ledger.isFresh
      "file:///a.php" (Int64.ofInt (max 0 w₁.clock.toInt)) = true := by
    rw [Int64.ofInt_max_toInt]
    exact Holdings.isFresh_applied stands₁.records.keyed normal_samplePath (Int64.le_refl _)
  obtain ⟨events, m, run, file, idle, lost⟩ := small_passed_over sampleWritten w₁.clock stands₄ shown₄ decoded only
    fresh stored fun records gave => by
      cases gave
      rw [Holdings.stamped_eq]
      exact differs_sampleOwn
  refine ⟨_, _, ⟨((Interleaved.start history).steps reading).steps applying, ⟨_, _, edit⟩, _, events, m, .mark marked,
    run, file, idle, lost⟩, ?_⟩
  rintro ⟨_, _, found, -⟩
  cases found

/-- A record of the file with no references, stamped as late as can be. -/
def sampleLate : FileRecord := { path := "file:///a.php", lastIndexed := some Int64.maxValue }

/-- The file refers to a method. Every other document has a late record of the file. -/
def sampleForeign : Extractor := fun document =>
  some (if document.uri = "file:///a.php" then sampleOwn [sampleReference] else [.file sampleLate])

/-- A way round to the file beside the small index, which gives it another URI. -/
def wayRound : Path := ⟨[47, 105, 47, 46, 46, 47, 97, 46, 112, 104, 112]⟩

theorem find_wayRound {content : Text.Bytes} {modified : Int} (hosts : w.disk.Hosts smallSite.root smallSite.base)
    (shown : w.Shows content modified) :
    w.disk.find true wayRound = .ok ([smallName], .file 0 content modified) := by
  obtain ⟨m, directory⟩ := hosts.directory
  have located : w.disk.locate true wayRound =
      w.disk.walk true false Disk.maxLinks [] [[105], Disk.dotDot, smallName] := rfl
  rw [Disk.find, located, Disk.walk_enter (by decide) (by decide) directory, Disk.walk_up,
    Disk.walk_cons (by decide) (by decide), List.tail_cons, shown.file]
  rfl

theorem small_wayRound {content : Text.Bytes} {modified : Int} {text : String} (stands : smallSite.Stands h s w)
    (shown : w.Shows content modified) (decoded : decode? content = some text) :
    ∀ v, smallSite.Beside w v →
      (Candidate.ofPath wayRound).documentIn v = .ok ⟨"file:///i/../a.php", wayRound, text⟩ := by
  intro v beside
  have own : (Candidate.ofPath wayRound).uri = "file:///i/../a.php" := by decide +kernel
  refine Candidate.documentIn_eq_ok.2 ⟨content, text, ?_, decoded, by rw [own]; rfl⟩
  have found := find_wayRound (beside.around.hosts stands.hosts) (History.shows_of_around beside.around shown)
  show v.disk.read wayRound = _
  rw [Disk.read, found]

/-- The file is edited and marked, and then another document writes a record of it that is stamped past the edit:
the next run takes the mark and passes the file over. -/
theorem lost_to_other : ∃ m₀ m₁, Lost (smallIndexer sampleForeign) smallConfig smallSite "file:///a.php"
    smallPath m₀ m₁ ∧ ¬ m₀.Holds "file:///a.php" ∧
      m₁.Stale (smallIndexer sampleForeign) "file:///a.php" smallPath := by
  have made := smallIndexer_made sampleForeign
  have decoded : decode? [120] = some "x" := rfl
  obtain ⟨s, w, history, stands, hasFile⟩ := History.Comes.start sampleForeign .any
  obtain ⟨edit, stands₁⟩ := small_edit sampleForeign w.clock stands hasFile [120] .idle (Int64.le_refl w.clock)
  obtain ⟨marks, s₂, w₂, marked, stands₂, still₂, grown, -⟩ := stands₁.mark_ok "file:///a.php"
  have shown₂ := History.shows_of_around still₂.toAround (hasFile.edited [120] w.clock)
  obtain ⟨w₃, reading, stands₃, still₃⟩ :=
    small_read sampleForeign w.clock stands₂ (small_wayRound stands₂ shown₂ decoded)
  have normal : Uri.normalize "file:///i/../a.php" = "file:///i/../a.php" := by decide +kernel
  have gave : sampleForeign ⟨"file:///i/../a.php", wayRound, "x"⟩ = some [.file sampleLate] := by
    rw [sampleForeign, if_neg (by decide)]
  obtain ⟨s₄, w₄, applying, stands₄, around₄⟩ :=
    small_apply (c := .ofPath wayRound) sampleForeign w.clock stands₃ gave normal
  have shown₄ := History.shows_of_around (still₃.toAround.trans around₄) shown₂
  have stored : (Holdings.applied { Holdings.empty with marks := marks } "file:///i/../a.php" [.file sampleLate]
      (max 0 w₃.clock)).ledger.get? ⟨.file, "file:///a.php"⟩ = some (.file sampleLate) := by
    rw [Holdings.get?_applied_other normal stands₃.records.keyed _ _ (by decide) (by decide), Holdings.fst_gathered]
    have firm : (Record.file sampleLate).isSpeculative = false := rfl
    exact (Ledger.get?_write firm _).trans (if_pos rfl)
  have fresh := (Ledger.isFresh_iff normal_samplePath).2
    ⟨_, _, stored, rfl, Int64.le_maxValue (Int64.ofInt (max 0 w.clock.toInt))⟩
  obtain ⟨events, m, run, file, idle, lost⟩ := small_passed_over sampleForeign w₃.clock stands₄ shown₄ decoded
    (fun u member => by
      have member' : u ∈ marks := by simpa using (List.mem_filter.1 member).1
      rcases grown with rfl | rfl
      · cases member'
      · simpa [Holdings.empty, DirtyLog.added, smallSite, normal_samplePath] using member')
    fresh stored fun records gave => by
      cases gave
      rw [if_pos rfl, references_sampleOwn]
      exact (List.cons_ne_nil _ _).symm
  refine ⟨_, _, ⟨.start history, ⟨_, _, edit⟩, _, _, m, .mark marked, reading.trans (applying.trans run), ?_, idle,
    lost⟩, ?_, _, hasFile.mtime_edited [120] w.clock, stands₁.tellsFresh_ok made.at_ normal_samplePath trivial _⟩
  · rw [List.forall_mem_append, List.forall_mem_append]
    exact ⟨by simp [Event.KeepsFile], by simp [Event.KeepsFile], file⟩
  · rintro ⟨_, _, found, -⟩
    cases found

/-- **Not every edit is kept track of.** It is lost if it falls between the reading and the applying of a text, or
within the stamp of what is stored, or if another document then writes a record of the file. -/
theorem edits_lost :
    (∃ m₀ m₁, Lost (smallIndexer sampleWritten) smallConfig smallSite "file:///a.php" smallPath m₀ m₁ ∧
      m₀.Holds "file:///a.php" ∧ m₁.Stale (smallIndexer sampleWritten) "file:///a.php" smallPath) ∧
    (∃ m₀ m₁, Lost (smallIndexer sampleWritten) smallConfig smallSite "file:///a.php" smallPath m₀ m₁ ∧
      ¬ m₀.Holds "file:///a.php") ∧
    (∀ document records, sampleWritten document = some records → ∀ f, .file f ∈ records → f.path = document.uri) ∧
    ∃ m₀ m₁, Lost (smallIndexer sampleForeign) smallConfig smallSite "file:///a.php" smallPath m₀ m₁ ∧
      ¬ m₀.Holds "file:///a.php" ∧ m₁.Stale (smallIndexer sampleForeign) "file:///a.php" smallPath := by
  refine ⟨lost_while_read, lost_within_stamp, ?_, lost_to_other⟩
  rintro document records ⟨⟩ f member
  obtain ⟨rfl⟩ : f = _ := Record.file.inj (List.mem_singleton.1 member)
  rfl

/-- The file is edited, and then its text is applied; or it is marked. -/
theorem sample_edit_kept :
    ∃ m₀ m₁ w w', Interleaved (smallIndexer sampleWritten) smallConfig smallSite m₀ ∧
      Step (smallIndexer sampleWritten) smallSite (.edited smallPath w w') m₀ m₁ ∧ ¬ m₀.Holds "file:///a.php" ∧
      m₁.Stale (smallIndexer sampleWritten) "file:///a.php" smallPath ∧
      (∃ events m₂, Steps (smallIndexer sampleWritten) smallSite events m₁ m₂ ∧
        .applied "file:///a.php" (sampleOwn [sampleReference]) ∈ events ∧
        m₂.Keeps (smallIndexer sampleWritten) "file:///a.php" smallPath) ∧
      ∃ m₂, Step (smallIndexer sampleWritten) smallSite (.marked "file:///a.php") m₁ m₂ ∧
        m₂.Keeps (smallIndexer sampleWritten) "file:///a.php" smallPath := by
  have made := smallIndexer_made sampleWritten
  have decoded : decode? [120] = some "x" := rfl
  obtain ⟨s, w, history, stands, hasFile⟩ := History.Comes.start sampleWritten .any
  obtain ⟨edit, stands₁⟩ := small_edit sampleWritten w.clock stands hasFile [120] .idle (Int64.le_refl w.clock)
  have shown := hasFile.edited [120] w.clock
  have stale : Moment.Stale ⟨s, w.edited [120] w.clock, .idle, w.clock⟩ (smallIndexer sampleWritten)
      "file:///a.php" smallPath := ⟨_, hasFile.mtime_edited [120] w.clock,
    stands₁.tellsFresh_ok made.at_ normal_samplePath trivial _⟩
  have unread : ¬ Moment.Holds ⟨s, w, .idle, w.clock⟩ "file:///a.php" := by
    rintro ⟨_, _, found, -⟩
    cases found
  have apart : smallSite.SameFiles (w.edited [120] w.clock) (w.edited [120] w.clock) [smallPath] :=
    small_sameFiles shown shown (by simp)
  obtain ⟨kept, marked⟩ := Interleaved.edit_kept (.start history) made normal_samplePath trivial edit apart
  obtain ⟨w₂, reading, stands₂, -⟩ := small_read sampleWritten w.clock stands₁ (small_document shown decoded)
  have gave : sampleWritten ⟨"file:///a.php", smallPath, "x"⟩ = some (sampleOwn [sampleReference]) := rfl
  obtain ⟨s₃, w₃, applying, -⟩ :=
    small_apply (c := .ofPath smallPath) sampleWritten w.clock stands₂ gave normal_samplePath
  obtain ⟨-, s₄, w₄, mark, -⟩ := stands₁.mark_ok "file:///a.php"
  refine ⟨_, _, _, _, .start history, edit, unread, stale,
    ⟨_, _, reading.trans applying, by simp, kept unread stale _ _ (reading.trans applying) ?_ ?_⟩,
    _, .mark mark, marked rfl [] _ _ _ [] _ .done (.mark mark) normal_samplePath .done (by simp) (by simp)⟩
  · simp [Event.KeepsFile]
  · simp [Event.KeepsRecord, Candidate.ofPath]

end SymbolIndex
