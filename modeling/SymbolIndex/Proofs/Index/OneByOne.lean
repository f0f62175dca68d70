import SymbolIndex.Proofs.Index.Interleaving
import SymbolIndex.Proofs.Index.Repeated
import SymbolIndex.Proofs.System.Consulting

/-!
# Proofs.Index.OneByOne — a pass takes its candidates one by one

A pass decides about all of its candidates before it reads one of them, and reads a chunk of files before it
extracts the first. Where the files do not change this cannot be told from taking the files one by one
(`Indexer.take`), so the width of a chunk is no matter.

The extractor is a function, and how often a function is called cannot be seen in what comes of it. So a pass is
written once more with the extraction left to somebody else who is asked (`Indexer.indexCandidatesBy`); it is the
pass itself when the answers are those of the extractor (`indexCandidatesBy_pure`). The documents that are asked
about are those of the files that are taken up and can be read, each once and in order.

`Stands.pass_one_by_one` puts it together, with the account of the candidates.
-/

set_option autoImplicit false

namespace SymbolIndex

open Action (outcome)
open Candidate (firsts)
open Script (Consults)

namespace Indexer

/-! ## The extraction left to somebody else -/

section Asking

variable (x : Indexer) (ask : TextDocument → Script (Option (List Record)))

/-- Extract and apply one document. -/
def indexDocumentBy (stats : IndexStats) (document : TextDocument) : Indexed IndexStats := do
  match ← Action.ofPlain (ask document) with
  | none => fail stats document.uri
  | some records =>
    let written ← x.apply document.uri records
    onDirty (DirtyLog.clear document.uri)
    x.flushIfFull
    return { stats with indexed := stats.indexed + 1, records := stats.records + written }

/-- Index a file that was read. -/
def indexReadBy (stats : IndexStats) (found : Reading) : Indexed IndexStats :=
  match found.2 with
  | .ok document => x.indexDocumentBy ask stats document
  | .error _ => fail stats found.1.uri

/-- Read some files, and index them. -/
def indexChunkBy (stats : IndexStats) (chunk : List Candidate) : Indexed IndexStats := do
  let found ← Action.ofPlain (chunk.mapM (fun c => do return (c, ← c.read)))
  found.foldlM (x.indexReadBy ask) stats

/-- Index some candidates. -/
def indexCandidatesBy (force : Bool) (candidates : List Path) : Indexed IndexStats := do
  let choice ← candidates.foldlM (x.consider force)
    { stats := { candidates := candidates.length } }
  let stats ← (chunks x.readWidth choice.due.reverse).foldlM (x.indexChunkBy ask) choice.stats
  x.flush
  return stats

end Asking

/-- Whoever answers as the extractor does, without a call, is the extractor. -/
theorem indexCandidatesBy_pure (x : Indexer) (force : Bool) (candidates : List Path) :
    x.indexCandidatesBy (fun document => pure (x.extract document)) force candidates =
      x.indexCandidates force candidates := by
  have documents : x.indexDocumentBy (fun document => pure (x.extract document)) = x.indexDocument := rfl
  have reads : x.indexReadBy (fun document => pure (x.extract document)) = x.indexRead := by
    funext stats found
    rw [indexReadBy, documents]
    rfl
  have chunks_ : x.indexChunkBy (fun document => pure (x.extract document)) = x.indexChunk := by
    funext stats chunk
    rw [indexChunkBy, reads]
    rfl
  rw [indexCandidatesBy, chunks_]
  rfl

/-! ## One file at a time -/

/-- Read one file, and index it. -/
def take (x : Indexer) (stats : IndexStats) (c : Candidate) : Indexed IndexStats := do
  x.indexRead stats (c, ← Action.ofPlain c.read)

end Indexer

/-! ## The candidates and their account -/

namespace Choice

/-- The candidates that were counted, and those that are to be. -/
def account (choice : Choice) : Nat :=
  choice.stats.duplicates + choice.stats.skippedFresh + choice.stats.errors + choice.due.length

theorem account_repeated (choice : Choice) : choice.repeated.account = choice.account + 1 := by
  simp only [account, repeated]
  omega

theorem account_decide (choice : Choice) (c : Candidate) (v : Verdict) :
    (choice.decide c v).account + (if v = .vanished then 1 else 0) = choice.account + 1 := by
  cases v <;> simp [account, decide] <;> omega

theorem candidates_decide (choice : Choice) (c : Candidate) (v : Verdict) :
    (choice.decide c v).stats.candidates = choice.stats.candidates := by
  cases v <;> rfl

end Choice

namespace Holdings

variable {h : Holdings} {w : World} {force : Bool} {c : Candidate}

/-- A candidate is to be indexed: the pass is forced, or its file is there and has changed since it was stored. -/
def Due (h : Holdings) (w : World) (force : Bool) (c : Candidate) : Prop :=
  force = true ∨ ∃ changed, w.mtime c.path = .ok changed ∧ h.ledger.isFresh c.uri changed = false

theorem verdict_due : h.verdict w force c = .due ↔ h.Due w force c := by
  unfold verdict Due judged
  cases force with
  | true => simp
  | false =>
      cases w.mtime c.path with
      | ok changed => cases fresh : h.ledger.isFresh c.uri changed <;> simp [fresh]
      | error e => cases e <;> simp

instance : Decidable (h.Due w force c) := decidable_of_iff _ verdict_due

/-- A candidate is gone: the pass looks at its file and does not find it. -/
def Gone (w : World) (force : Bool) (c : Candidate) : Prop :=
  force = false ∧ w.disk.stat c.path = .error .notFound

theorem verdict_vanished : h.verdict w force c = .vanished ↔ Gone w force c := by
  unfold verdict Gone judged World.mtime
  cases force with
  | true => simp
  | false =>
      cases w.disk.stat c.path with
      | ok found =>
          simp only [Except.map, Bool.false_eq_true, if_false]
          split <;> simp
      | error e => cases e <;> simp [Except.map]

instance : Decidable (Gone w force c) := inferInstanceAs (Decidable (_ ∧ _))

/-- The candidates that a pass takes up: those that are to be indexed, among the first of each URI. -/
def taken (h : Holdings) (w : World) (force : Bool) (paths : List Path) : List Candidate :=
  (firsts .empty paths).filter fun c => h.Due w force c

theorem due_taken (h : Holdings) (w : World) (force : Bool) (paths : List Path) :
    (h.chosen w force paths).due.reverse = h.taken w force paths := by
  rw [due_chosen, taken]
  exact List.filter_congr fun c _ => decide_eq_decide.2 verdict_due

/-- Each path that is considered is counted once: as met before, fresh, failed or to be indexed, or its file is
gone. -/
theorem account_considered (h : Holdings) (w : World) (force : Bool) (choice : Choice) (paths : List Path) :
    (paths.foldl (h.considered w force) choice).account +
        (firsts choice.seen paths).countP (fun c => Gone w force c) = choice.account + paths.length := by
  induction paths generalizing choice with
  | nil => rfl
  | cons path paths ih =>
      have later := ih (h.considered w force choice path)
      rw [List.foldl_cons, firsts, List.length_cons]
      by_cases met : choice.seen.contains (Candidate.ofPath path).uri = true
      · have same : h.considered w force choice path = choice.repeated := by
          rw [considered]
          simp only [met, if_true]
        rw [same, Choice.account_repeated] at later
        rw [same, if_pos met]
        have seen : choice.repeated.seen = choice.seen := rfl
        rw [seen] at later
        omega
      · have new : h.considered w force choice path =
            { choice with seen := choice.seen.insert (Candidate.ofPath path).uri }.decide (.ofPath path)
              (h.verdict w force (.ofPath path)) := by
          rw [considered]
          simp only [met, Bool.false_eq_true, if_false]
          rfl
        have counted := Choice.account_decide
          { choice with seen := choice.seen.insert (Candidate.ofPath path).uri } (.ofPath path)
          (h.verdict w force (.ofPath path))
        have kept : ({ choice with seen := choice.seen.insert (Candidate.ofPath path).uri } : Choice).account =
            choice.account := rfl
        rw [kept] at counted
        rw [new, seen_decide] at later
        rw [new, if_neg met, List.countP_cons]
        simp only [decide_eq_true_eq, ← verdict_vanished (h := h)] at later ⊢
        omega

theorem candidates_considered (h : Holdings) (w : World) (force : Bool) (choice : Choice) (paths : List Path) :
    (paths.foldl (h.considered w force) choice).stats.candidates = choice.stats.candidates := by
  induction paths generalizing choice with
  | nil => rfl
  | cons path paths ih =>
      rw [List.foldl_cons, ih, considered]
      split
      · rfl
      · exact Choice.candidates_decide _ _ _

theorem account_chosen (h : Holdings) (w : World) (force : Bool) (paths : List Path) :
    (h.chosen w force paths).account + (firsts .empty paths).countP (fun c => Gone w force c) = paths.length :=
  (h.account_considered w force { stats := { candidates := paths.length } } paths).trans (Nat.zero_add _)

theorem candidates_chosen (h : Holdings) (w : World) (force : Bool) (paths : List Path) :
    (h.chosen w force paths).stats.candidates = paths.length :=
  h.candidates_considered w force { stats := { candidates := paths.length } } paths

theorem indexed_chosen (h : Holdings) (w : World) (force : Bool) (paths : List Path) :
    (h.chosen w force paths).stats.indexed = 0 :=
  h.indexed_considered w force { stats := { candidates := paths.length } } paths

end Holdings

/-! ## Taking the files -/

namespace Holdings

/-- Documents are applied one after the other, each at its time. -/
def appliedAll (h : Holdings) (ds : List ((String × List Record) × Int64)) : Holdings :=
  ds.foldl (fun h d => h.applied d.1.1 d.1.2 d.2) h

theorem appliedAll_marks (h : Holdings) (marks : List String) (ds : List ((String × List Record) × Int64)) :
    { h with marks := marks }.appliedAll ds = { h.appliedAll ds with marks := marks } := by
  induction ds generalizing h with
  | nil => rfl
  | cons d ds ih =>
      have first : { h with marks := marks }.appliedAll (d :: ds) =
          ({ h with marks := marks }.applied d.1.1 d.1.2 d.2).appliedAll ds := rfl
      rw [first, applied_marks, ih]
      rfl

end Holdings

namespace Pass

variable {site : Site} {terms : Terms} {findings : List Finding} {a b : IndexStats × Holdings}

/-- A pass applies its documents in order, each at a time of its own. -/
theorem appliedAll (pass : Pass site terms findings a b) : ∃ times marks,
    times.length = (documents findings).length ∧
      b.2 = { a.2.appliedAll ((documents findings).zip times) with marks := marks } := by
  induction pass with
  | @done b => exact ⟨[], b.2.marks, rfl, rfl⟩
  | @failed c rest stats h b marks grown onward ih =>
      obtain ⟨times, marks', length, applied⟩ := ih
      refine ⟨times, marks', length, ?_⟩
      rw [applied, Holdings.appliedAll_marks, documents_failed]
  | @applied c records rest stats h b time admits extracted ticked onward ih =>
      obtain ⟨times, marks, length, applied⟩ := ih
      refine ⟨max 0 time :: times, marks, ?_, ?_⟩
      · rw [documents_applied, List.length_cons, List.length_cons, length]
      · rw [applied, documents_applied, List.zip_cons_cons]
        show _ = { (h.applied c.uri records (max 0 time)).appliedAll ((documents rest).zip times) with
          marks := marks }
        rw [Holdings.cleared, Holdings.appliedAll_marks]

/-- Each file that a pass takes is counted once, as indexed or as an error, and nothing else is counted. -/
theorem account (pass : Pass site terms findings a b) :
    b.1.indexed + b.1.errors = a.1.indexed + a.1.errors + findings.length ∧
      b.1.candidates = a.1.candidates ∧ b.1.duplicates = a.1.duplicates ∧
      b.1.skippedFresh = a.1.skippedFresh := by
  induction pass with
  | done => simp
  | failed grown onward ih =>
      obtain ⟨taken, candidates, duplicates, fresh⟩ := ih
      refine ⟨?_, candidates, duplicates, fresh⟩
      rw [taken, List.length_cons]
      simp only
      omega
  | applied admits extracted ticked onward ih =>
      obtain ⟨taken, candidates, duplicates, fresh⟩ := ih
      refine ⟨?_, candidates, duplicates, fresh⟩
      rw [taken, List.length_cons]
      simp only
      omega

end Pass

namespace Candidate

/-- The document of a candidate, if its file can be read. -/
def document? (c : Candidate) (w : World) : Option TextDocument := (c.documentIn w).toOption

end Candidate

/-- What comes of a document: its URI and its records, if it gives any. -/
def Indexer.yields (x : Indexer) (document : TextDocument) : Option (String × List Record) :=
  (x.extract document).map fun records => (document.uri, records)

/-- What a pass applies is what comes of the documents of its candidates. -/
theorem Indexer.documents_look (x : Indexer) (w : World) (cs : List Candidate) :
    documents (cs.map (x.look w)) = (cs.filterMap (·.document? w)).filterMap x.yields := by
  rw [documents, List.filterMap_map, List.filterMap_filterMap]
  refine List.filterMap_congr fun c _ => ?_
  rw [Function.comp, look, Candidate.document?]
  cases found : c.documentIn w with
  | error e => rfl
  | ok document =>
      obtain ⟨-, -, -, -, rfl⟩ := Candidate.documentIn_eq_ok.1 found
      rfl

/-- Asking about the document of a file that was read, and nothing if it was not. -/
theorem Indexer.consults_indexRead {x : Indexer} {stats stats' : IndexStats} {found : Reading} {s s' : IndexState}
    {w w' : World} (done : outcome (x.indexRead stats found) s w = (.ok stats', s', w')) :
    Consults x.extract (fun ask => x.indexReadBy ask stats found s) w (.ok stats', s') w'
      found.2.toOption.toList := by
  obtain ⟨c, read⟩ := found
  cases read with
  | error e => exact .action_const x.extract done
  | ok document => exact .action_ask done

theorem Indexer.consults_indexReadAll {x : Indexer} {found : List Reading} {stats stats' : IndexStats}
    {s s' : IndexState} {w w' : World}
    (done : outcome (found.foldlM x.indexRead stats) s w = (.ok stats', s', w')) :
    Consults x.extract (fun ask => found.foldlM (x.indexReadBy ask) stats s) w (.ok stats', s') w'
      (found.filterMap fun p => p.2.toOption) := by
  induction found generalizing stats s w with
  | nil => exact .action_const x.extract done
  | cons p found ih =>
      rw [List.foldlM_cons, Action.outcome_bind_eq_ok] at done
      obtain ⟨stats₁, s₁, w₁, first, rest⟩ := done
      have both := (consults_indexRead first).action_bind
        (f := fun ask stats => found.foldlM (x.indexReadBy ask) stats) (ih rest)
      have asked : (p :: found).filterMap (fun p => p.2.toOption) =
          p.2.toOption.toList ++ found.filterMap fun p => p.2.toOption := by
        cases read : p.2.toOption <;> simp [read]
      simp only [List.foldlM_cons]
      rw [asked]
      exact both

namespace Site.Stands

variable {site : Site} {x : Indexer} {h : Holdings} {s : IndexState} {w w₀ : World} {force : Bool}
  {stats : IndexStats} {paths : List Path} {cs : List Candidate}

/-- Some candidates are those at their paths, and what is found in their files is admitted. -/
def Takes (site : Site) (x : Indexer) (w : World) (cs : List Candidate) : Prop :=
  ∀ c ∈ cs, c = .ofPath c.path ∧ ∀ document records, c.document? w = some document →
    x.extract document = some records → site.Admits document.uri records

/-- A file is taken, whether it was read now or before. -/
theorem take_ok (stands : site.Stands h s w) (at_ : x.At site) {c : Candidate}
    (same : w.disk.read c.path = w₀.disk.read c.path) (takes : Takes site x w₀ [c]) (stats : IndexStats) :
    ∃ b s' w', outcome (x.indexRead stats (c, c.documentIn w₀)) s w = (.ok b.1, s', w') ∧
      outcome (x.take stats c) s w = (.ok b.1, s', w') ∧ site.Stands b.2 s' w' ∧ site.Beside w w' ∧
      Pass site .any [x.look w₀ c] (stats, h) b := by
  obtain ⟨own, gives⟩ := takes c (by simp)
  have read : outcome (Action.ofPlain c.read : Indexed _) s w = (.ok (c.documentIn w₀), s, w) := by
    rw [Action.outcome_ofPlain, c.run_read, Candidate.documentIn_congr same]
  have any : ∀ document records, c.documentIn w₀ = .ok document → x.extract document = some records →
      site.Admits document.uri records ∧ Terms.any.extracted document.uri records ∧ Terms.any.clock w.clock :=
    fun document records found gave =>
      ⟨gives document records (by rw [Candidate.document?, found]; rfl) gave, trivial, trivial⟩
  obtain ⟨b, s', w', done, stands', around, pass⟩ := stands.indexRead_taken at_ own any stats
  exact ⟨b, s', w', done, (Action.outcome_bind_ok read).trans done, stands',
    ⟨around, Action.workingDirectory done⟩, pass⟩

/-- Files that were read are taken as if they were read one by one. -/
theorem takeAll_ok (stands : site.Stands h s w) (at_ : x.At site) (beside : site.Beside w₀ w)
    (files : site.SameFiles w₀ w₀ paths) (inside : ∀ c ∈ cs, c.path ∈ paths) (takes : Takes site x w₀ cs)
    (stats : IndexStats) :
    ∃ b s' w', outcome ((cs.map fun c => (c, c.documentIn w₀)).foldlM x.indexRead stats) s w =
        (.ok b.1, s', w') ∧
      outcome (cs.foldlM x.take stats) s w = (.ok b.1, s', w') ∧ site.Stands b.2 s' w' ∧ site.Beside w₀ w' ∧
      Pass site .any (cs.map (x.look w₀)) (stats, h) b := by
  induction cs generalizing h s w stats with
  | nil => exact ⟨(stats, h), s, w, rfl, rfl, stands, beside, .done⟩
  | cons c cs ih =>
      obtain ⟨b₁, s₁, w₁, read₁, took₁, stands₁, beside₁, pass₁⟩ := stands.take_ok at_
        (files w beside c.path (inside c (by simp))).1 (fun c' member => takes c' (by simp_all)) stats
      obtain ⟨b₂, s₂, w₂, read₂, took₂, stands₂, beside₂, pass₂⟩ := ih stands₁ (beside.trans beside₁)
        (fun c' member => inside c' (by simp [member])) (fun c' member => takes c' (by simp [member])) b₁.1
      refine ⟨b₂, s₂, w₂, ?_, ?_, stands₂, beside₂, pass₁.append pass₂⟩
      · rw [List.map_cons, List.foldlM_cons, Action.outcome_bind_ok read₁, read₂]
      · rw [List.foldlM_cons, Action.outcome_bind_ok took₁, took₂]

/-- The files of a chunk are taken as if they were read one by one, and their documents are asked about. -/
theorem takeChunk_ok (stands : site.Stands h s w) (at_ : x.At site) (beside : site.Beside w₀ w)
    (files : site.SameFiles w₀ w₀ paths) (inside : ∀ c ∈ cs, c.path ∈ paths) (takes : Takes site x w₀ cs)
    (stats : IndexStats) :
    ∃ b s' w', Consults x.extract (fun ask => x.indexChunkBy ask stats cs s) w (.ok b.1, s') w'
        (cs.filterMap (·.document? w₀)) ∧
      outcome (cs.foldlM x.take stats) s w = (.ok b.1, s', w') ∧ site.Stands b.2 s' w' ∧ site.Beside w₀ w' ∧
      Pass site .any (cs.map (x.look w₀)) (stats, h) b := by
  obtain ⟨b, s', w', read, took, stands', beside', pass⟩ := stands.takeAll_ok at_ beside files inside takes stats
  refine ⟨b, s', w', ?_, took, stands', beside', pass⟩
  have found : outcome (Action.ofPlain (cs.mapM fun c => do return (c, ← c.read)) : Indexed _) s w =
      (.ok (cs.map fun c => (c, c.documentIn w₀)), s, w) := by
    rw [Candidate.outcome_readAll]
    have same : cs.map (fun c => (c, c.documentIn w)) = cs.map fun c => (c, c.documentIn w₀) :=
      List.map_congr_left fun c member => by
        rw [Candidate.documentIn_congr (files w beside c.path (inside c member)).1]
    rw [same]
  have both := (Consults.action_const x.extract found).action_bind
    (f := fun ask found => found.foldlM (x.indexReadBy ask) stats) (Indexer.consults_indexReadAll read)
  rw [List.nil_append, List.filterMap_map] at both
  exact both

/-- Chunk by chunk, the files are taken one by one. -/
theorem takeChunks_ok {pieces : List (List Candidate)} (stands : site.Stands h s w) (at_ : x.At site)
    (beside : site.Beside w₀ w) (files : site.SameFiles w₀ w₀ paths)
    (inside : ∀ c ∈ pieces.flatten, c.path ∈ paths) (takes : Takes site x w₀ pieces.flatten)
    (stats : IndexStats) :
    ∃ b s' w', Consults x.extract (fun ask => pieces.foldlM (x.indexChunkBy ask) stats s) w (.ok b.1, s') w'
        (pieces.flatten.filterMap (·.document? w₀)) ∧
      outcome (pieces.flatten.foldlM x.take stats) s w = (.ok b.1, s', w') ∧ site.Stands b.2 s' w' ∧
      Pass site .any (pieces.flatten.map (x.look w₀)) (stats, h) b := by
  induction pieces generalizing h s w stats with
  | nil => exact ⟨(stats, h), s, w, .action_const x.extract rfl, rfl, stands, .done⟩
  | cons cs pieces ih =>
      simp only [List.flatten_cons, List.mem_append] at inside takes
      obtain ⟨b₁, s₁, w₁, asked₁, took₁, stands₁, beside₁, pass₁⟩ := stands.takeChunk_ok at_ beside files
        (fun c member => inside c (.inl member))
        (fun c member => takes c (List.mem_append_left _ member)) stats
      obtain ⟨b₂, s₂, w₂, asked₂, took₂, stands₂, pass₂⟩ := ih stands₁ beside₁
        (fun c member => inside c (.inr member))
        (fun c member => takes c (List.mem_append_right _ member)) b₁.1
      refine ⟨b₂, s₂, w₂, ?_, ?_, stands₂, ?_⟩
      · simp only [List.foldlM_cons, List.flatten_cons, List.filterMap_append]
        exact asked₁.action_bind (f := fun ask stats => pieces.foldlM (x.indexChunkBy ask) stats) asked₂
      · rw [List.flatten_cons, List.foldlM_append, Action.outcome_bind_ok took₁, took₂]
      · rw [List.flatten_cons, List.map_append]
        exact pass₁.append pass₂

/-- It does not matter how many files are read at once. -/
theorem takeDue_ok (stands : site.Stands h s w) (at_ : x.At site) (files : site.SameFiles w w paths)
    (inside : ∀ c ∈ cs, c.path ∈ paths) (takes : Takes site x w cs) (stats : IndexStats) :
    ∃ b s' w', (∀ width, Consults x.extract (fun ask => (chunks width cs).foldlM (x.indexChunkBy ask) stats s) w
        (.ok b.1, s') w' (cs.filterMap (·.document? w))) ∧
      outcome (cs.foldlM x.take stats) s w = (.ok b.1, s', w') ∧ site.Stands b.2 s' w' ∧
      Pass site .any (cs.map (x.look w)) (stats, h) b := by
  have each := fun width => @takeChunks_ok site x h s w w paths (chunks width cs) stands at_ (.refl site w) files
    (by rwa [flatten_chunks]) (by rwa [flatten_chunks]) stats
  simp only [flatten_chunks] at each
  obtain ⟨b, s', w', -, took, stands', pass⟩ := each x.readWidth
  refine ⟨b, s', w', fun width => ?_, took, stands', pass⟩
  obtain ⟨b₁, s₁, w₁, asked, took₁, -⟩ := each width
  obtain ⟨same, rfl, rfl⟩ := History.agree took took₁
  rwa [same]

/-- The paths of a pass are considered; a pass that is forced looks at none of them. -/
theorem chosen_ok (stands : site.Stands h s w) (at_ : x.At site)
    (used : force = false → ∀ c ∈ firsts .empty paths, ∀ time, w.mtime c.path = .ok time → site.used c.uri) :
    outcome (paths.foldlM (x.consider force) { stats := { candidates := paths.length } }) s w =
      (.ok (h.chosen w force paths), s, w) := by
  cases force with
  | false => exact stands.considerAll_used at_ (used rfl)
  | true =>
      have forced : ∀ choice path, x.consider true choice path = pure (h.considered w true choice path) :=
        fun choice path => by
          rw [Indexer.consider, Holdings.considered]
          split <;> rfl
      have considered : x.consider true = fun choice path => pure (h.considered w true choice path) :=
        funext fun choice => funext (forced choice)
      rw [considered, List.foldlM_pure]
      rfl

end Site.Stands

namespace Indexer

/-- Take some files one by one, and hand over what waits. -/
def takeAll (x : Indexer) (stats : IndexStats) (cs : List Candidate) : Indexed IndexStats := do
  let stats ← cs.foldlM x.take stats
  x.flush
  return stats

end Indexer

namespace Holdings

/-- The documents that a pass over some paths extracts, in order: those of the candidates that it takes up and that
can be read. -/
def extracted (h : Holdings) (w : World) (force : Bool) (paths : List Path) : List TextDocument :=
  (h.taken w force paths).filterMap (·.document? w)

/-- No URI comes twice. -/
theorem nodup_extracted (h : Holdings) (w : World) (force : Bool) (paths : List Path) :
    ((h.extracted w force paths).map (·.uri)).Nodup := by
  have uris : ∀ cs : List Candidate,
      ((cs.filterMap (·.document? w)).map (·.uri)).Sublist (cs.map (·.uri)) := fun cs => by
    induction cs with
    | nil => exact .slnil
    | cons c cs ih =>
        cases found : c.documentIn w with
        | error e =>
            rw [List.filterMap_cons_none (by rw [Candidate.document?, found]; rfl)]
            exact ih.cons _
        | ok document =>
            rw [List.filterMap_cons_some (b := document) (by rw [Candidate.document?, found]; rfl)]
            obtain ⟨-, -, -, -, rfl⟩ := Candidate.documentIn_eq_ok.1 found
            exact ih.cons_cons _
  exact (uris _).nodup ((List.filter_sublist.map _).nodup (Candidate.nodup_firsts .empty paths))

end Holdings

namespace Site.Stands

variable {site : Site} {x : Indexer} {h : Holdings} {s : IndexState} {w : World} {force : Bool} {paths : List Path}

/-- **A pass takes the first candidates of each URI one by one.** However many files it reads at once, it asks for the
records of each document that it takes up and can read, once and in order, and of nothing else; what is held in the
end is what taking the files one at a time leads to; and each candidate is counted once, but for those that are
gone. -/
theorem pass_one_by_one (stands : site.Stands h s w) (at_ : x.At site) (files : site.SameFiles w w paths)
    (used : force = false → ∀ c ∈ firsts .empty paths, ∀ time, w.mtime c.path = .ok time → site.used c.uri)
    (admits : ∀ document ∈ h.extracted w force paths, ∀ records, x.extract document = some records →
      site.Admits document.uri records) :
    ∃ stats s' w' times marks,
      (∀ width, outcome ({ x with readWidth := width }.indexCandidates force paths) s w = (.ok stats, s', w') ∧
        Consults x.extract (fun ask => { x with readWidth := width }.indexCandidatesBy ask force paths s) w
          (.ok stats, s') w' (h.extracted w force paths)) ∧
      ((h.extracted w force paths).map (·.uri)).Nodup ∧
      outcome (x.takeAll (h.chosen w force paths).stats (h.taken w force paths)) s w = (.ok stats, s', w') ∧
      times.length = ((h.extracted w force paths).filterMap x.yields).length ∧
      site.Stands { h.appliedAll (((h.extracted w force paths).filterMap x.yields).zip times) with marks := marks }
        s' w' ∧
      stats.candidates = paths.length ∧
      stats.candidates = stats.duplicates + stats.skippedFresh + stats.indexed + stats.errors +
        (firsts .empty paths).countP (fun c => Holdings.Gone w force c) := by
  have listed : ∀ c ∈ h.taken w force paths, c = .ofPath c.path ∧ c.path ∈ paths := fun c member =>
    ⟨(Candidate.mem_firsts (List.mem_of_mem_filter member)).1,
      (Candidate.mem_firsts (List.mem_of_mem_filter member)).2.1⟩
  have takes : Takes site x w (h.taken w force paths) := fun c member => ⟨(listed c member).1,
    fun document records read => admits document (List.mem_filterMap.2 ⟨c, member, read⟩) records⟩
  have chose := stands.chosen_ok at_ used
  obtain ⟨b, s₁, w₁, asked, took, stands₁, pass⟩ :=
    stands.takeDue_ok at_ files (fun c member => (listed c member).2) takes (h.chosen w force paths).stats
  obtain ⟨s₂, w₂, flushed, stands₂, -⟩ := stands₁.flush_ok at_
  have closed : outcome (x.flush >>= fun _ => pure b.1 : Indexed IndexStats) s₁ w₁ = (.ok b.1, s₂, w₂) :=
    Action.outcome_bind_ok flushed
  have consults : ∀ width, Consults x.extract
      (fun ask => { x with readWidth := width }.indexCandidatesBy ask force paths s) w (.ok b.1, s₂) w₂
      (h.extracted w force paths) := by
    intro width
    have due := asked width
    rw [← Holdings.due_taken] at due
    have both := (Consults.action_const x.extract chose).action_bind
      (f := fun ask choice => (chunks width choice.due.reverse).foldlM (x.indexChunkBy ask) choice.stats >>=
        fun stats => x.flush >>= fun _ => pure stats)
      (due.action_bind (f := fun _ stats => x.flush >>= fun _ => pure stats) (.action_const x.extract closed))
    rw [List.nil_append, List.append_nil, Holdings.due_taken] at both
    exact both
  obtain ⟨times, marks, length, applied⟩ := pass.appliedAll
  obtain ⟨taken, candidates, duplicates, fresh⟩ := pass.account
  rw [Indexer.documents_look] at length applied
  have counted := h.account_chosen w force paths
  have all := h.candidates_chosen w force paths
  have unindexed := h.indexed_chosen w force paths
  have due : (h.chosen w force paths).due.length = (h.taken w force paths).length := by
    rw [← h.due_taken, List.length_reverse]
  refine ⟨b.1, s₂, w₂, times, marks, fun width => ⟨?_, consults width⟩, h.nodup_extracted w force paths, ?_, length,
    applied ▸ stands₂, candidates.trans all, ?_⟩
  · rw [← Indexer.indexCandidatesBy_pure]
    exact (consults width).action_run
  · rw [Indexer.takeAll, Action.outcome_bind_ok took, closed]
  · rw [List.length_map] at taken
    rw [Choice.account] at counted
    simp only at taken candidates duplicates fresh
    omega

end Site.Stands

/-! ## Poles -/

namespace History

/-- The file of the small index twice, and one that is not there. -/
def samplePaths : List Path := [smallPath, ⟨[47, 112]⟩, smallPath]

theorem sample_firsts : firsts .empty samplePaths = [.ofPath smallPath, .ofPath ⟨[47, 112]⟩] := by
  have new : (SortedSet.empty : SortedSet String).contains (Candidate.ofPath smallPath).uri = false ∧
      (SortedSet.empty.insert (Candidate.ofPath smallPath).uri).contains (Candidate.ofPath ⟨[47, 112]⟩).uri =
        false := by
    decide +kernel
  have met : ((SortedSet.empty.insert (Candidate.ofPath smallPath).uri).insert
      (Candidate.ofPath ⟨[47, 112]⟩).uri).contains (Candidate.ofPath smallPath).uri = true := by decide +kernel
  simp [samplePaths, firsts, new, met]

theorem sample_sameFiles {w : World} (hasFile : w.HasFile) : smallSite.SameFiles w w samplePaths := by
  intro v beside path member
  have later := shows_of_around beside.around hasFile
  simp only [samplePaths, List.mem_cons, List.not_mem_nil, or_false] at member
  rcases member with rfl | rfl | rfl
  · rw [later.read, later.stat, hasFile.read, hasFile.stat]
    exact ⟨rfl, rfl⟩
  · rw [Disk.read, Disk.read, Disk.stat, Disk.stat, later.find_project, hasFile.find_project]
    exact ⟨rfl, rfl⟩
  · rw [later.read, later.stat, hasFile.read, hasFile.stat]
    exact ⟨rfl, rfl⟩

/-- Of the three paths one is taken up, one is gone and one was met before. -/
theorem sample_pass_one_by_one :
    ∃ s w, History (smallIndexer sampleWhole) smallConfig smallSite .any s w ∧
      Holdings.extracted .empty w false samplePaths = [⟨"file:///a.php", smallPath, ""⟩] ∧
      ∃ stats s' w' times marks,
        (∀ width,
          outcome ({ smallIndexer sampleWhole with readWidth := width }.indexCandidates false samplePaths) s w =
            (.ok stats, s', w') ∧
          Consults sampleWhole
            (fun ask =>
              { smallIndexer sampleWhole with readWidth := width }.indexCandidatesBy ask false samplePaths s)
            w (.ok stats, s') w' (Holdings.extracted .empty w false samplePaths)) ∧
        smallSite.Stands { Holdings.empty.appliedAll
          (((Holdings.extracted .empty w false samplePaths).filterMap (smallIndexer sampleWhole).yields).zip times)
          with marks := marks } s' w' ∧
        stats.candidates = 3 := by
  obtain ⟨s, w, history, stands, hasFile⟩ := Comes.start sampleWhole .any
  have there : w.mtime smallPath = .ok 0 := by
    rw [World.mtime, hasFile.stat]
    rfl
  have absent : w.mtime ⟨[47, 112]⟩ = .error .notFound := by
    rw [World.mtime, Disk.stat, hasFile.find_project]
    rfl
  have due : Holdings.empty.Due w false (.ofPath smallPath) := .inr ⟨0, there, rfl⟩
  have gone : ¬ Holdings.empty.Due w false (.ofPath ⟨[47, 112]⟩) := by
    rintro (forced | ⟨changed, found, -⟩)
    · cases forced
    · cases absent.symm.trans found
  have taken : Holdings.empty.taken w false samplePaths = [.ofPath smallPath] := by
    simp [Holdings.taken, sample_firsts, due, gone]
  have uri : (Candidate.ofPath smallPath).uri = "file:///a.php" := by decide +kernel
  have inside : (Candidate.ofPath smallPath).documentIn w = .ok ⟨"file:///a.php", smallPath, ""⟩ :=
    Candidate.documentIn_eq_ok.2 ⟨[], "", hasFile.read, rfl, by rw [uri]; rfl⟩
  have read : (Candidate.ofPath smallPath).document? w = some ⟨"file:///a.php", smallPath, ""⟩ := by
    rw [Candidate.document?, inside]
    rfl
  have extracted : Holdings.empty.extracted w false samplePaths = [⟨"file:///a.php", smallPath, ""⟩] := by
    rw [Holdings.extracted, taken]
    simp [read]
  have normal : ∀ document ∈ Holdings.empty.extracted w false samplePaths,
      Uri.normalize document.uri = document.uri := by
    rw [extracted]
    intro document member
    rw [List.mem_singleton.1 member]
    exact normal_samplePath
  obtain ⟨stats, s', w', times, marks, each, -, -, -, stands', counted, -⟩ :=
    stands.pass_one_by_one (smallIndexer_made sampleWhole).at_ (sample_sameFiles hasFile)
      (fun _ _ _ _ _ => trivial) fun document member records _ => smallSite_admits (normal document member) records
  exact ⟨s, w, history, extracted, stats, s', w', times, marks, each, stands', counted⟩

end History

end SymbolIndex
