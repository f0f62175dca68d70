import SymbolIndex.Proofs.Index.Document

/-!
# Proofs.Index.Pass — what a pass does to the holdings

A pass chooses among its candidates without changing anything (`Stands.considerAll_ok`), reads the chosen
files and takes them one by one: a file that gave no records is marked, a document is applied and its mark
cleared (`Pass`). Around the index nothing changes while it does so, so each file is read as it was when the
pass began, as far as reading it does not depend on the index itself (`Stands.indexCandidates_ok`).

What a pass is told is bounded by a rule along its run (`Indexer.Told`): the documents it reads, the files it
looks at and the clock.
-/

namespace SymbolIndex

open Action (outcome)
open World (Still Around)
open SymbolIndex.Text (decode?)

set_option autoImplicit false

/-- Conditions on what a pass is told: on a document's URI and its records, and on a reading of the clock. -/
structure Terms where
  extracted : String → List Record → Prop
  clock : Int64 → Prop

/-- A pass is told of files whose URIs are in use, of documents on the terms, and of times on the terms. -/
def Indexer.Told (x : Indexer) (site : Site) (terms : Terms) : Rule := fun _ call answer =>
  match call, answer with
  | .stat path, _ => site.used (Candidate.ofPath path).uri
  | .read path, .ok bytes => ∀ text records, decode? bytes = some text →
      x.extract ⟨(Candidate.ofPath path).uri, path, text⟩ = some records →
        site.Admits (Candidate.ofPath path).uri records ∧
          terms.extracted (Candidate.ofPath path).uri records
  | .now, time => terms.clock time
  | _, _ => True

/-- A candidate, and the records that its file gave, or none. -/
abbrev Finding := Candidate × Option (List Record)

/-- A pass takes its findings one by one. A file that gave no records is marked; a document is applied and
its mark cleared. -/
inductive Pass (site : Site) (terms : Terms) :
    List Finding → IndexStats × Holdings → IndexStats × Holdings → Prop where
  | done {b : IndexStats × Holdings} : Pass site terms [] b b
  | failed {c : Candidate} {rest : List Finding} {stats : IndexStats} {h : Holdings}
      {b : IndexStats × Holdings} {marks : List String}
      (grown : marks = h.marks ∨ marks = h.marks ++ DirtyLog.added site.backend c.uri)
      (onward : Pass site terms rest
        ({ stats with errors := stats.errors + 1 }, { h with marks := marks }) b) :
      Pass site terms ((c, none) :: rest) (stats, h) b
  | applied {c : Candidate} {records : List Record} {rest : List Finding} {stats : IndexStats}
      {h : Holdings} {b : IndexStats × Holdings} {time : Int64}
      (admits : site.Admits c.uri records) (extracted : terms.extracted c.uri records)
      (ticked : terms.clock time)
      (onward : Pass site terms rest
        ({ stats with
            indexed := stats.indexed + 1
            records := stats.records + h.counted c.uri records (max 0 time) },
          (h.applied c.uri records (max 0 time)).cleared c.uri) b) :
      Pass site terms ((c, some records) :: rest) (stats, h) b

theorem Pass.append {site : Site} {terms : Terms} {first second : List Finding}
    {a b c : IndexStats × Holdings} (one : Pass site terms first a b) (two : Pass site terms second b c) :
    Pass site terms (first ++ second) a c := by
  induction one with
  | done => exact two
  | failed grown _ ih => exact .failed grown (ih two)
  | applied admits extracted ticked _ ih => exact .applied admits extracted ticked (ih two)

/-- A pass on some terms is one on weaker terms. -/
theorem Pass.mono {site : Site} {terms terms' : Terms} {findings : List Finding} {a b : IndexStats × Holdings}
    (pass : Pass site terms findings a b)
    (extracted : ∀ uri records, terms.extracted uri records → terms'.extracted uri records)
    (clock : ∀ time, terms.clock time → terms'.clock time) : Pass site terms' findings a b := by
  induction pass with
  | done => exact .done
  | failed grown _ ih => exact .failed grown ih
  | applied admits gave ticked _ ih => exact .applied admits (extracted _ _ gave) (clock _ ticked) ih

/-- What a pass does to the holdings does not hang on what was counted before. -/
theorem Pass.recount {site : Site} {terms : Terms} {findings : List Finding} {a b : IndexStats × Holdings}
    (pass : Pass site terms findings a b) (stats : IndexStats) :
    ∃ stats', Pass site terms findings (stats, a.2) (stats', b.2) := by
  induction pass generalizing stats with
  | done => exact ⟨stats, .done⟩
  | failed grown _ ih =>
      obtain ⟨stats', onward⟩ := ih { stats with errors := stats.errors + 1 }
      exact ⟨stats', .failed grown onward⟩
  | @applied c records _ _ h _ time admits extracted ticked _ ih =>
      obtain ⟨stats', onward⟩ := ih { stats with
        indexed := stats.indexed + 1
        records := stats.records + h.counted c.uri records (max 0 time) }
      exact ⟨stats', .applied admits extracted ticked onward⟩

theorem flatten_chunks {α : Type} (width : Nat) (l : List α) : (chunks width l).flatten = l := by
  induction l using chunks.induct width with
  | case1 => rw [chunks]; rfl
  | case2 a rest ih => rw [chunks, List.flatten_cons, ih, List.cons_append, List.take_append_drop]

theorem Action.workingDirectory {σ ε α : Type} {a : Action σ ε α} {s s' : σ} {w w' : World}
    {r : Except ε α} (done : outcome a s w = (r, s', w')) :
    w'.disk.workingDirectory = w.disk.workingDirectory := by
  have last : (outcome a s w).2.2 = w' := by rw [done]
  rw [← last]
  exact Script.workingDirectory_run _ _

namespace Candidate

/-- The document in the file of a candidate. -/
def documentIn (c : Candidate) (w : World) : Except DiskError TextDocument :=
  match w.disk.read c.path with
  | .error e => .error e
  | .ok bytes =>
    match decode? bytes with
    | some text => .ok ⟨c.uri, c.path, text⟩
    | none => .error .invalidText

/-- Reading a candidate changes nothing. -/
theorem run_read (c : Candidate) (w : World) : c.read.run w = (c.documentIn w, w) := by
  have asked : (Script.ask (.read c.path)).run w = (w.disk.read c.path, w) := rfl
  rw [read, Script.run_bind_of asked, documentIn]
  cases w.disk.read c.path with
  | error e => rfl
  | ok bytes =>
      simp only
      cases decode? bytes <;> rfl

theorem along_read {P : Rule} {c : Candidate} {w : World} (along : c.read.Along P w) :
    P _ (.read c.path) (w.disk.read c.path) := by
  rw [read, Script.along_bind] at along
  exact (Script.along_ask _ _).1 along.1

theorem documentIn_eq_ok {c : Candidate} {w : World} {document : TextDocument} :
    c.documentIn w = .ok document ↔ ∃ bytes text, w.disk.read c.path = .ok bytes ∧
      decode? bytes = some text ∧ document = ⟨c.uri, c.path, text⟩ := by
  constructor
  · intro found
    rw [documentIn] at found
    cases there : w.disk.read c.path with
    | error e =>
        rw [there] at found
        cases found
    | ok bytes =>
        rw [there] at found
        cases decoded : decode? bytes with
        | none => simp [decoded] at found
        | some text =>
            simp only [decoded] at found
            cases found
            exact ⟨bytes, text, rfl, decoded, rfl⟩
  · rintro ⟨bytes, text, there, decoded, rfl⟩
    rw [documentIn, there]
    simp only [decoded]

theorem run_readWith (c : Candidate) (w : World) :
    Script.run (do return (c, ← c.read)) w = ((c, c.documentIn w), w) := by
  rw [Script.run_bind_of (c.run_read w)]
  rfl

/-- Reading some candidates changes nothing. -/
theorem outcome_readAll (chunk : List Candidate) (s : IndexState) (w : World) :
    outcome (Action.ofPlain (chunk.mapM fun c => do return (c, ← c.read)) : Indexed _) s w =
      (.ok (chunk.map fun c => (c, c.documentIn w)), s, w) := by
  rw [Action.outcome_ofPlain, Script.run_mapM fun c _ => c.run_readWith w]

theorem along_readAll {P : Rule} {chunk : List Candidate} {s : IndexState} {w : World}
    (along : Action.Along P
      (Action.ofPlain (chunk.mapM fun c => do return (c, ← c.read)) : Indexed _) s w) :
    ∀ c ∈ chunk, P _ (.read c.path) (w.disk.read c.path) := by
  intro c member
  rw [Action.along_ofPlain] at along
  have alone := Script.along_mapM (fun c _ => by rw [c.run_readWith w]) along c member
  rw [Script.along_bind] at alone
  exact along_read alone.1

end Candidate

/-- What is told of the file of a candidate is told of its document. -/
theorem Indexer.Told.document {x : Indexer} {site : Site} {terms : Terms} {c : Candidate} {w : World}
    {document : TextDocument} {records : List Record} (own : c = .ofPath c.path)
    (told : x.Told site terms _ (.read c.path) (w.disk.read c.path)) (found : c.documentIn w = .ok document)
    (gave : x.extract document = some records) :
    site.Admits document.uri records ∧ terms.extracted document.uri records := by
  obtain ⟨bytes, text, there, decoded, rfl⟩ := Candidate.documentIn_eq_ok.1 found
  rw [there] at told
  have uri : (Candidate.ofPath c.path).uri = c.uri := congrArg Candidate.uri own.symm
  have both := told text records decoded (by rw [uri]; exact gave)
  rwa [uri] at both

/-- What an indexer finds in the file of a candidate. -/
def Indexer.look (x : Indexer) (w : World) (c : Candidate) : Finding :=
  (c, match c.documentIn w with
    | .ok document => x.extract document
    | .error _ => none)

/-- The time at which the file at a path was last changed. -/
def World.mtime (w : World) (path : Path) : Except DiskError Int64 :=
  (w.disk.stat path).map fun found => Int64.ofInt (max 0 found.modified)

theorem Freshness.run_mtime (path : Path) (w : World) : (mtime path).run w = (w.mtime path, w) := by
  have asked : (Script.ask (.stat path)).run w = (w.disk.stat path, w) := rfl
  rw [mtime, Script.run_bind_of asked, World.mtime]
  cases w.disk.stat path <;> rfl

/-! ## Choosing -/

/-- What is to be done about a candidate by a pass that is not forced. -/
def Holdings.judged (h : Holdings) (w : World) (c : Candidate) : Verdict :=
  match w.mtime c.path with
  | .error .notFound => .vanished
  | .error _ => .failed
  | .ok mtime => if h.ledger.isFresh c.uri mtime then .fresh else .due

/-- What a pass makes of one path. -/
def Holdings.considered (h : Holdings) (w : World) (force : Bool) (choice : Choice) (path : Path) : Choice :=
  let c := Candidate.ofPath path
  if choice.seen.contains c.uri then choice.repeated
  else { choice with seen := choice.seen.insert c.uri }.decide c (if force then .due else h.judged w c)

/-- What a pass makes of its candidates. -/
def Holdings.chosen (h : Holdings) (w : World) (force : Bool) (paths : List Path) : Choice :=
  paths.foldl (h.considered w force) { stats := { candidates := paths.length } }

/-- Every file that is to be indexed is the candidate at a path. -/
theorem Holdings.due_considered {h : Holdings} {w : World} {force : Bool} {paths : List Path} {choice : Choice}
    (due : ∀ c ∈ choice.due, c = .ofPath c.path) :
    ∀ c ∈ (paths.foldl (h.considered w force) choice).due, c = .ofPath c.path := by
  induction paths generalizing choice with
  | nil => exact due
  | cons path paths ih =>
      refine ih ?_
      rw [considered]
      split
      · exact due
      · cases (if force then Verdict.due else h.judged w (.ofPath path)) with
        | due =>
            intro c member
            rcases List.mem_cons.1 member with rfl | member
            · rfl
            · exact due c member
        | fresh => exact due
        | vanished => exact due
        | failed => exact due

namespace Site.Stands

variable {site : Site} {terms : Terms} {x : Indexer} {h : Holdings} {s : IndexState} {w : World}
  {force : Bool} {choice : Choice} {path : Path} {paths : List Path} {stats : IndexStats}

/-- The URI of a candidate is in use if its file is looked at. -/
theorem used_of_told (along : Action.Along (x.Told site terms) (x.judge (.ofPath path)) s w) :
    site.used (Candidate.ofPath path).uri := by
  have looked : outcome (Action.ofPlain (Freshness.mtime (Candidate.ofPath path).path) : Indexed _) s w =
      (.ok (w.mtime (Candidate.ofPath path).path), s, w) := by
    rw [Action.outcome_ofPlain, Freshness.run_mtime]
  rw [Indexer.judge, Action.along_bind looked, Action.along_ofPlain, Freshness.mtime,
    Script.along_bind] at along
  exact (Script.along_ask _ _).1 along.1.1

theorem judge_ok (stands : site.Stands h s w) (at_ : x.At site)
    (used : ∀ time, w.mtime path = .ok time → site.used (Candidate.ofPath path).uri) :
    outcome (x.judge (.ofPath path)) s w = (.ok (h.judged w (.ofPath path)), s, w) := by
  have looked : outcome (Action.ofPlain (Freshness.mtime (Candidate.ofPath path).path) : Indexed _) s w =
      (.ok (w.mtime path), s, w) := by
    rw [Action.outcome_ofPlain, Freshness.run_mtime]
    rfl
  have normal : Uri.normalize (Candidate.ofPath path).uri = (Candidate.ofPath path).uri :=
    Uri.normalize_normalize _
  rw [Indexer.judge, Action.outcome_bind_ok looked, Holdings.judged,
    show (Candidate.ofPath path).path = path from rfl]
  cases there : w.mtime path with
  | error e => cases e <;> rfl
  | ok time =>
      have used' : site.used (Uri.normalize (Candidate.ofPath path).uri) := normal.symm ▸ used time there
      have fresh := stands.records.isFresh_ok used' time
      rw [← at_.store] at fresh
      simp only
      rw [Action.outcome_bind_ok (Action.outcome_get _ _),
        Action.outcome_bind_ok (Indexer.onStore_ok fresh)]
      split <;> rfl

theorem consider_ok (stands : site.Stands h s w) (at_ : x.At site)
    (along : Action.Along (x.Told site terms) (x.consider force choice path) s w) :
    outcome (x.consider force choice path) s w = (.ok (h.considered w force choice path), s, w) := by
  rw [Indexer.consider] at along ⊢
  rw [Holdings.considered]
  by_cases known : choice.seen.contains (Candidate.ofPath path).uri = true
  · simp only [known, if_true]
    rfl
  · simp only [known, Bool.false_eq_true, if_false] at along ⊢
    cases force with
    | true => rfl
    | false => exact Action.outcome_bind_ok (stands.judge_ok at_ fun _ _ => used_of_told along.first)

theorem considerAll_ok (stands : site.Stands h s w) (at_ : x.At site)
    (along : Action.Along (x.Told site terms) (paths.foldlM (x.consider force) choice) s w) :
    outcome (paths.foldlM (x.consider force) choice) s w =
      (.ok (paths.foldl (h.considered w force) choice), s, w) := by
  induction paths generalizing choice with
  | nil => rfl
  | cons path paths ih =>
      rw [List.foldlM_cons] at along ⊢
      have first := stands.consider_ok at_ along.first
      rw [Action.outcome_bind_ok first]
      exact ih ((Action.along_bind first).1 along).2

/-! ## Indexing -/

/-- A file that gave no records is marked. -/
theorem fail_ok (stands : site.Stands h s w) (stats : IndexStats) {uri : String}
    (normal : Uri.normalize uri = uri) :
    ∃ marks s' w', outcome (Indexer.fail stats uri) s w =
        (.ok { stats with errors := stats.errors + 1 }, s', w') ∧
      site.Stands { h with marks := marks } s' w' ∧ Still site.root site.base w w' ∧
      (marks = h.marks ∨ marks = h.marks ++ DirtyLog.added site.backend uri) := by
  obtain ⟨marks, s', w', marked, stands', still, grown, -⟩ := stands.mark_ok uri
  rw [normal] at grown
  exact ⟨marks, s', w', Action.outcome_bind_ok marked, stands', still, grown⟩

/-- A document is applied and its mark cleared. -/
theorem indexDocument_ok (stands : site.Stands h s w) (at_ : x.At site) {document : TextDocument}
    {records : List Record} (gave : x.extract document = some records)
    (admits : site.Admits document.uri records) (stats : IndexStats) :
    ∃ s' w', outcome (x.indexDocument stats document) s w =
        (.ok { stats with
          indexed := stats.indexed + 1
          records := stats.records + h.counted document.uri records (max 0 w.clock) }, s', w') ∧
      site.Stands ((h.applied document.uri records (max 0 w.clock)).cleared document.uri) s' w' ∧
      Around site.root site.base w w' ∧
      ∀ P : Rule, Action.Along P (x.indexDocument stats document) s w → P Int64 .now w.clock := by
  obtain ⟨s₁, w₁, applied, stands₁, around₁, ticked⟩ := stands.apply_ok at_ admits
  obtain ⟨s₂, w₂, cleared, stands₂, still₂⟩ := stands₁.clear_ok document.uri
  obtain ⟨s₃, w₃, flushed, stands₃, still₃⟩ := stands₂.flushIfFull_ok at_
  refine ⟨s₃, w₃, ?_, stands₃, around₁.trans (still₂.toAround.trans still₃.toAround), fun P along => ?_⟩
  · rw [Indexer.indexDocument, gave]
    refine (Action.outcome_bind_ok applied).trans ?_
    refine (Action.outcome_bind_ok cleared).trans ?_
    exact Action.outcome_bind_ok flushed
  · rw [Indexer.indexDocument, gave] at along
    exact ticked P along.first

/-- A document is taken whether or not it gives records. -/
theorem indexDocument_taken (stands : site.Stands h s w) (at_ : x.At site) {document : TextDocument}
    (normal : Uri.normalize document.uri = document.uri)
    (gives : ∀ records, x.extract document = some records →
      site.Admits document.uri records ∧ terms.extracted document.uri records ∧ terms.clock w.clock)
    (stats : IndexStats) :
    ∃ b s' w', outcome (x.indexDocument stats document) s w = (.ok b.1, s', w') ∧ site.Stands b.2 s' w' ∧
      Around site.root site.base w w' ∧
      ∀ path, Pass site terms [(⟨path, document.uri⟩, x.extract document)] (stats, h) b := by
  cases gave : x.extract document with
  | none =>
      obtain ⟨marks, s', w', done, stands', still, grown⟩ := stands.fail_ok stats normal
      refine ⟨(_, _), s', w', ?_, stands', still.toAround, fun path => .failed grown .done⟩
      rw [Indexer.indexDocument, gave]
      exact done
  | some records =>
      obtain ⟨admits, extracted, ticked⟩ := gives records gave
      obtain ⟨s', w', done, stands', around, -⟩ := stands.indexDocument_ok at_ gave admits stats
      exact ⟨(_, _), s', w', done, stands', around, fun path => .applied admits extracted ticked .done⟩

/-- A file that was read is taken whether or not it gives records. -/
theorem indexRead_taken (stands : site.Stands h s w) (at_ : x.At site) {c : Candidate} (own : c = .ofPath c.path)
    {w₀ : World} (gives : ∀ document records, c.documentIn w₀ = .ok document → x.extract document = some records →
      site.Admits document.uri records ∧ terms.extracted document.uri records ∧ terms.clock w.clock)
    (stats : IndexStats) :
    ∃ b s' w', outcome (x.indexRead stats (c, c.documentIn w₀)) s w = (.ok b.1, s', w') ∧
      site.Stands b.2 s' w' ∧ Around site.root site.base w w' ∧
      Pass site terms [x.look w₀ c] (stats, h) b := by
  have normal : Uri.normalize c.uri = c.uri := by
    rw [own]
    exact Uri.normalize_normalize _
  cases found : c.documentIn w₀ with
  | error e =>
      obtain ⟨marks, s', w', done, stands', still, grown⟩ := stands.fail_ok stats normal
      refine ⟨(_, _), s', w', done, stands', still.toAround, ?_⟩
      rw [Indexer.look, found]
      exact .failed grown .done
  | ok document =>
      have uri : document.uri = c.uri := by
        obtain ⟨-, -, -, -, rfl⟩ := Candidate.documentIn_eq_ok.1 found
        rfl
      have looked : x.look w₀ c = (⟨c.path, document.uri⟩, x.extract document) := by
        rw [Indexer.look, found, uri]
      rw [looked]
      rw [← uri] at normal
      obtain ⟨b, s', w', done, stands', around, pass⟩ :=
        stands.indexDocument_taken at_ normal (fun records => gives document records found) stats
      exact ⟨b, s', w', done, stands', around, pass c.path⟩

/-- A file that was read is taken as it was found. -/
theorem indexRead_ok (stands : site.Stands h s w) (at_ : x.At site) {c : Candidate} (own : c = .ofPath c.path)
    {w₀ : World} (told : x.Told site terms _ (.read c.path) (w₀.disk.read c.path)) (stats : IndexStats)
    (along : Action.Along (x.Told site terms) (x.indexRead stats (c, c.documentIn w₀)) s w) :
    ∃ b s' w', outcome (x.indexRead stats (c, c.documentIn w₀)) s w = (.ok b.1, s', w') ∧
      site.Stands b.2 s' w' ∧ Around site.root site.base w w' ∧
      Pass site terms [x.look w₀ c] (stats, h) b := by
  refine stands.indexRead_taken at_ own (fun document records found gave => ?_) stats
  rw [found] at along
  obtain ⟨admits, extracted⟩ := told.document own found gave
  obtain ⟨-, -, -, -, -, ticked⟩ := stands.indexDocument_ok at_ gave admits stats
  exact ⟨admits, extracted, ticked _ along⟩

/-- Files that were read are taken one by one. -/
theorem indexReadAll_ok {w₀ : World} {cs : List Candidate} (stands : site.Stands h s w) (at_ : x.At site)
    (own : ∀ c ∈ cs, c = .ofPath c.path)
    (told : ∀ c ∈ cs, x.Told site terms _ (.read c.path) (w₀.disk.read c.path))
    (along : Action.Along (x.Told site terms)
      ((cs.map fun c => (c, c.documentIn w₀)).foldlM x.indexRead stats) s w) :
    ∃ b s' w', outcome ((cs.map fun c => (c, c.documentIn w₀)).foldlM x.indexRead stats) s w =
        (.ok b.1, s', w') ∧
      site.Stands b.2 s' w' ∧ Around site.root site.base w w' ∧
      Pass site terms (cs.map (x.look w₀)) (stats, h) b := by
  induction cs generalizing h s w stats with
  | nil => exact ⟨(stats, h), s, w, rfl, stands, .refl _ _ _, .done⟩
  | cons c cs ih =>
      rw [List.map_cons, List.foldlM_cons] at along ⊢
      obtain ⟨b₁, s₁, w₁, first, stands₁, around₁, pass₁⟩ :=
        stands.indexRead_ok at_ (own c (by simp)) (told c (by simp)) stats along.first
      obtain ⟨b₂, s₂, w₂, second, stands₂, around₂, pass₂⟩ := ih stands₁
        (fun c' member => own c' (by simp [member])) (fun c' member => told c' (by simp [member]))
        ((Action.along_bind first).1 along).2
      exact ⟨b₂, s₂, w₂, by rw [Action.outcome_bind_ok first, second], stands₂, around₁.trans around₂,
        pass₁.append pass₂⟩

/-- The files of a chunk are read before the first of them is taken. -/
theorem indexChunk_ok {chunk : List Candidate} (stands : site.Stands h s w) (at_ : x.At site)
    (own : ∀ c ∈ chunk, c = .ofPath c.path)
    (along : Action.Along (x.Told site terms) (x.indexChunk stats chunk) s w) :
    ∃ b s' w', outcome (x.indexChunk stats chunk) s w = (.ok b.1, s', w') ∧
      site.Stands b.2 s' w' ∧ Around site.root site.base w w' ∧
      Pass site terms (chunk.map (x.look w)) (stats, h) b := by
  have found := Candidate.outcome_readAll chunk s w
  rw [Indexer.indexChunk] at along ⊢
  rw [Action.outcome_bind_ok found]
  rw [Action.along_bind found] at along
  exact stands.indexReadAll_ok at_ own (Candidate.along_readAll along.1) along.2

/-- A finding is what an indexer finds at a candidate, in a world that a pass has come to. -/
def Found (x : Indexer) (site : Site) (w : World) (p : Finding) : Prop :=
  ∃ w', Around site.root site.base w w' ∧ w'.disk.workingDirectory = w.disk.workingDirectory ∧
    p = x.look w' p.1

theorem indexChunks_ok {pieces : List (List Candidate)} (stands : site.Stands h s w) (at_ : x.At site)
    (own : ∀ chunk ∈ pieces, ∀ c ∈ chunk, c = .ofPath c.path)
    (along : Action.Along (x.Told site terms) (pieces.foldlM x.indexChunk stats) s w) :
    ∃ findings b s' w', outcome (pieces.foldlM x.indexChunk stats) s w = (.ok b.1, s', w') ∧
      site.Stands b.2 s' w' ∧ Around site.root site.base w w' ∧
      findings.map (·.1) = pieces.flatten ∧ (∀ p ∈ findings, Found x site w p) ∧
      Pass site terms findings (stats, h) b := by
  induction pieces generalizing h s w stats with
  | nil => exact ⟨[], (stats, h), s, w, rfl, stands, .refl _ _ _, rfl, by simp, .done⟩
  | cons chunk pieces ih =>
      rw [List.foldlM_cons] at along ⊢
      obtain ⟨b₁, s₁, w₁, first, stands₁, around₁, pass₁⟩ :=
        stands.indexChunk_ok at_ (own chunk (by simp)) along.first
      obtain ⟨findings, b₂, s₂, w₂, second, stands₂, around₂, listed, found, pass₂⟩ := ih stands₁
        (fun chunk' member => own chunk' (by simp [member])) ((Action.along_bind first).1 along).2
      have moved := Action.workingDirectory first
      refine ⟨chunk.map (x.look w) ++ findings, b₂, s₂, w₂, by rw [Action.outcome_bind_ok first, second],
        stands₂, around₁.trans around₂, ?_, fun p member => ?_, pass₁.append pass₂⟩
      · rw [List.map_append, listed, List.flatten_cons, List.map_map]
        exact congrArg (· ++ pieces.flatten) (List.map_id chunk)
      · rcases List.mem_append.1 member with member | member
        · obtain ⟨c, -, rfl⟩ := List.mem_map.1 member
          exact ⟨w, .refl _ _ _, rfl, rfl⟩
        · obtain ⟨w', around, still, same⟩ := found p member
          exact ⟨w', around₁.trans around, still.trans moved, same⟩

/-- A pass over some candidates succeeds: it takes what it finds in the files that it chose. -/
theorem indexCandidates_ok (stands : site.Stands h s w) (at_ : x.At site)
    (along : Action.Along (x.Told site terms) (x.indexCandidates force paths) s w) :
    ∃ findings b s' w', outcome (x.indexCandidates force paths) s w = (.ok b.1, s', w') ∧
      site.Stands b.2 s' w' ∧ Around site.root site.base w w' ∧
      findings.map (·.1) = (h.chosen w force paths).due.reverse ∧ (∀ p ∈ findings, Found x site w p) ∧
      Pass site terms findings ((h.chosen w force paths).stats, h) b := by
  rw [Indexer.indexCandidates] at along ⊢
  have chose := stands.considerAll_ok at_ along.first
  rw [Action.outcome_bind_ok chose]
  have own : ∀ chunk ∈ chunks x.readWidth (h.chosen w force paths).due.reverse, ∀ c ∈ chunk,
      c = .ofPath c.path := by
    intro chunk piece c member
    have listed : c ∈ (h.chosen w force paths).due.reverse := by
      rw [← flatten_chunks x.readWidth (h.chosen w force paths).due.reverse]
      exact List.mem_flatten.2 ⟨chunk, piece, member⟩
    exact Holdings.due_considered (by simp) c (List.mem_reverse.1 listed)
  obtain ⟨findings, b, s₁, w₁, took, stands₁, around₁, listed, found, pass⟩ :=
    stands.indexChunks_ok at_ own ((Action.along_bind chose).1 along).2.first
  obtain ⟨s₂, w₂, flushed, stands₂, still₂⟩ := stands₁.flush_ok at_
  refine ⟨findings, b, s₂, w₂, ?_, stands₂, around₁.trans still₂.toAround, ?_, found, pass⟩
  · refine (Action.outcome_bind_ok took).trans ?_
    exact Action.outcome_bind_ok flushed
  · rw [listed, flatten_chunks]

end Site.Stands

end SymbolIndex
