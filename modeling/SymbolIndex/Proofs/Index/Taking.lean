import SymbolIndex.Proofs.Index.Interleaving
import SymbolIndex.Proofs.Index.Ready
import SymbolIndex.Proofs.Index.Repeated

/-!
# Proofs.Index.Taking — how a pass takes its candidates when calls fail

A pass gives each first candidate of a URI one verdict (`Indexer.Judged`, `Indexer.goes_considerAll`). What is due it
reads chunk by chunk, and deals with one file after the other. So what is kept of each file that is dealt with
(`Indexer.Account`) is kept along the pass, up to its end or to the file at which it fails
(`Indexer.Account.goes_indexChunks`).
-/

namespace SymbolIndex

open Candidate (firsts)
open SymbolIndex.Text (Bytes decode?)

set_option autoImplicit false

variable {x : Indexer} {s s' : IndexState} {w w' : World} {t : List Answered}

/-! ## Verdicts -/

/-- The candidates that were given a verdict. -/
def Candidate.given (v : Verdict) (judged : List (Candidate × Verdict)) : List Candidate :=
  (judged.filter (·.2 = v)).map (·.1)

namespace Candidate

variable {v : Verdict} {c : Candidate} {judged judged' : List (Candidate × Verdict)}

theorem given_append (v : Verdict) (judged judged' : List (Candidate × Verdict)) :
    given v (judged ++ judged') = given v judged ++ given v judged' := by
  rw [given, List.filter_append, List.map_append]
  rfl

theorem given_sublist (v : Verdict) (judged : List (Candidate × Verdict)) :
    (given v judged).Sublist (judged.map (·.1)) := List.filter_sublist.map _

end Candidate

/-- A file could not be looked at in a run, for another reason than that it is gone. -/
def Candidate.Unseen (c : Candidate) (t : List Answered) : Prop :=
  ∃ e, e ≠ .notFound ∧ (⟨.stat c.path, .error e⟩ : Answered) ∈ t

theorem Candidate.Unseen.mono {c : Candidate} {t t' : List Answered} (unseen : c.Unseen t)
    (more : ∀ a ∈ t, a ∈ t') : c.Unseen t' := by
  obtain ⟨e, other, member⟩ := unseen
  exact ⟨e, other, more _ member⟩

/-- Candidates were given verdicts in a run: those that are due come next, and those that could not be looked at count
as errors. -/
structure Indexer.Judged (force : Bool) (before after : Choice) (t : List Answered)
    (judged : List (Candidate × Verdict)) : Prop where
  due : after.due = (Candidate.given .due judged).reverse ++ before.due
  errors : after.stats.errors = before.stats.errors + (Candidate.given .failed judged).length
  indexed : after.stats.indexed = before.stats.indexed
  failed : ∀ c ∈ Candidate.given .failed judged, force = false ∧ c.Unseen t

namespace Indexer

variable {force : Bool} {choice choice' : Choice} {path : Path} {paths : List Path}

theorem Judged.nil (force : Bool) (choice : Choice) (t : List Answered) : Judged force choice choice t [] :=
  ⟨rfl, rfl, rfl, nofun⟩

theorem Judged.append {before middle after : Choice} {t₁ t₂ : List Answered}
    {judged judged' : List (Candidate × Verdict)} (first : Judged force before middle t₁ judged)
    (second : Judged force middle after t₂ judged') : Judged force before after (t₁ ++ t₂) (judged ++ judged') where
  due := by rw [second.due, first.due, Candidate.given_append, List.reverse_append, List.append_assoc]
  errors := by rw [second.errors, first.errors, Candidate.given_append, List.length_append, Nat.add_assoc]
  indexed := second.indexed.trans first.indexed
  failed c member := by
    rw [Candidate.given_append] at member
    rcases List.mem_append.1 member with member | member
    · exact (first.failed c member).imp_right (·.mono (by simp +contextual))
    · exact (second.failed c member).imp_right (·.mono (by simp +contextual))

/-- One verdict is taken in. -/
theorem judged_decide {c : Candidate} {v : Verdict} (failed : v = .failed → force = false ∧ c.Unseen t) (uri : String) :
    Judged force choice ({ choice with seen := choice.seen.insert uri }.decide c v) t [(c, v)] := by
  cases v with
  | failed => exact ⟨rfl, rfl, rfl, fun c' member => by
      obtain rfl : c' = c := by simpa [Candidate.given] using member
      exact failed rfl⟩
  | due | fresh | vanished => exact ⟨rfl, rfl, rfl, by simp [Candidate.given]⟩

/-- A candidate fails when the disk does not tell when its file was changed. -/
theorem goes_judge {c : Candidate} (goes : (x.judge c).Goes s w t (.ok .failed) s' w') : c.Unseen t := by
  rcases Action.goes_bind.1 goes with ⟨e, same, -⟩ | ⟨found, s₁, w₁, t₁, t₂, rfl, first, rest⟩
  · cases same
  obtain ⟨-, b, same, looked⟩ := Action.goes_ofPlain.1 first
  cases same
  obtain ⟨t₃, t₄, answer, w₂, rfl, asked, told⟩ := Script.goes_bind.1 looked
  obtain ⟨rfl, -⟩ := Script.goes_ask.1 asked
  cases answer with
  | error e =>
      obtain ⟨rfl, rfl, rfl⟩ := Script.goes_done.1 told
      refine ⟨e, ?_, by simp⟩
      rintro rfl
      obtain ⟨-, same, -⟩ := Action.goes_pure.1 rest
      cases same
  | ok seen =>
      obtain ⟨rfl, rfl, rfl⟩ := Script.goes_done.1 told
      rcases Action.goes_bind.1 (Action.goes_get_bind.1 rest) with ⟨e, same, -⟩ | ⟨fresh, s₃, w₃, t₅, t₆, -, -, last⟩
      · cases same
      · split at last
        all_goals
          obtain ⟨-, same, -⟩ := Action.goes_pure.1 last
          cases same

/-- A path is met again, or its candidate is given a verdict. -/
theorem goes_consider (goes : (x.consider force choice path).Goes s w t (.ok choice') s' w') :
    ∃ judged, judged.map (·.1) = firsts choice.seen [path] ∧ Judged force choice choice' t judged ∧
      ∀ paths, firsts choice.seen (path :: paths) = firsts choice.seen [path] ++ firsts choice'.seen paths := by
  have decided : ∀ v, choice.seen.contains (Candidate.ofPath path).uri ≠ true →
      (v = .failed → force = false ∧ (Candidate.ofPath path).Unseen t) →
      choice' = { choice with seen := choice.seen.insert (Candidate.ofPath path).uri }.decide (.ofPath path) v →
      ∃ judged, judged.map (·.1) = firsts choice.seen [path] ∧ Judged force choice choice' t judged ∧
        ∀ paths, firsts choice.seen (path :: paths) = firsts choice.seen [path] ++ firsts choice'.seen paths := by
    rintro v unmet failed rfl
    have first : firsts choice.seen [path] = [.ofPath path] := by rw [firsts, if_neg unmet, firsts]
    refine ⟨[(.ofPath path, v)], first.symm, judged_decide failed _, fun paths => ?_⟩
    rw [first, Holdings.seen_decide, firsts, if_neg unmet]
    rfl
  rw [consider] at goes
  split at goes
  next met =>
    obtain ⟨-, same, -, -⟩ := Action.goes_pure.1 goes
    cases same
    refine ⟨[], ?_, ⟨rfl, rfl, rfl, fun c member => by cases member⟩, fun paths => ?_⟩
    · rw [firsts, if_pos met]
      rfl
    · rw [firsts, if_pos met, firsts, if_pos met]
      rfl
  next unmet =>
    simp only at goes
    split at goes
    · obtain ⟨-, same, -, -⟩ := Action.goes_pure.1 goes
      cases same
      exact decided .due unmet (fun failed => by cases failed) rfl
    next unforced =>
      rcases Action.goes_bind.1 goes with ⟨e, same, -⟩ | ⟨v, s₁, w₁, t₁, t₂, rfl, first, rest⟩
      · cases same
      · obtain ⟨rfl, same, -, -⟩ := Action.goes_pure.1 rest
        cases same
        refine decided v unmet ?_ rfl
        rintro rfl
        exact ⟨by simpa using unforced, (goes_judge first).mono (by simp +contextual)⟩

/-- **Each first candidate of a URI is given one verdict.** -/
theorem goes_considerAll (goes : (paths.foldlM (x.consider force) choice).Goes s w t (.ok choice') s' w') :
    ∃ judged, judged.map (·.1) = firsts choice.seen paths ∧ Judged force choice choice' t judged := by
  induction paths generalizing choice s w t with
  | nil =>
      obtain ⟨rfl, same, -, -⟩ := Action.goes_pure.1 goes
      cases same
      exact ⟨[], rfl, .nil force choice' []⟩
  | cons path paths ih =>
      rw [List.foldlM_cons] at goes
      rcases Action.goes_bind.1 goes with ⟨e, same, -⟩ | ⟨choice₁, s₁, w₁, t₁, t₂, rfl, first, rest⟩
      · cases same
      · obtain ⟨judged, here, front, onward⟩ := goes_consider first
        obtain ⟨judged', there, back⟩ := ih rest
        refine ⟨judged ++ judged', ?_, front.append back⟩
        rw [List.map_append, here, there, ← onward]

end Indexer

/-! ## Reading -/

namespace Candidate

/-- What is found at a candidate, by what the disk answers. -/
def documentFrom (c : Candidate) (answer : Except DiskError Bytes) : Except DiskError TextDocument :=
  match answer with
  | .error e => .error e
  | .ok bytes =>
    match decode? bytes with
    | some text => .ok ⟨c.uri, c.path, text⟩
    | none => .error .invalidText

theorem uri_of_documentFrom {c : Candidate} {answer : Except DiskError Bytes} {document : TextDocument}
    (found : c.documentFrom answer = .ok document) : document.uri = c.uri := by
  cases answer with
  | error e => cases found
  | ok bytes =>
      simp only [documentFrom] at found
      split at found <;> cases found
      rfl

theorem read_eq (c : Candidate) :
    c.read = Script.ask (.read c.path) >>= fun answer => .done (c.documentFrom answer) := by
  refine congrArg (Script.ask (.read c.path) >>= ·) (funext fun answer => ?_)
  cases answer with
  | error e => rfl
  | ok bytes => cases decoded : decode? bytes <;> simp only [documentFrom, decoded] <;> rfl

end Candidate

/-- What was read at a candidate in a run. -/
def Reading.In (t : List Answered) (h : Reading) : Prop :=
  ∃ answer, (⟨.read h.1.path, answer⟩ : Answered) ∈ t ∧ h.2 = h.1.documentFrom answer

theorem Reading.In.mono {t t' : List Answered} {h : Reading} (there : h.In t) (more : ∀ a ∈ t, a ∈ t') : h.In t' := by
  obtain ⟨answer, member, found⟩ := there
  exact ⟨answer, more _ member, found⟩

/-- Reading some candidates changes nothing. -/
theorem Candidate.goes_readAll {chunk : List Candidate} {found : List Reading}
    (goes : Script.Goes (chunk.mapM fun c => do return (c, ← c.read)) w t found w') :
    w' = w ∧ found.map Prod.fst = chunk ∧ ∀ h ∈ found, h.In t := by
  induction chunk generalizing w t found with
  | nil =>
      obtain ⟨-, rfl, rfl⟩ := Script.goes_pure.1 goes
      exact ⟨rfl, rfl, by simp⟩
  | cons c chunk ih =>
      rw [List.mapM_cons] at goes
      obtain ⟨t₁, t₂, h, w₁, rfl, first, rest⟩ := Script.goes_bind.1 goes
      obtain ⟨t₃, t₄, others, w₂, rfl, second, last⟩ := Script.goes_bind.1 rest
      obtain ⟨rfl, rfl, rfl⟩ := Script.goes_pure.1 last
      obtain ⟨t₅, t₆, document, w₃, rfl, read, paired⟩ := Script.goes_bind.1 first
      obtain ⟨rfl, rfl, rfl⟩ := Script.goes_pure.1 paired
      rw [c.read_eq] at read
      obtain ⟨t₇, t₈, answer, w₄, rfl, asked, told⟩ := Script.goes_bind.1 read
      obtain ⟨rfl, rfl, rfl⟩ := Script.goes_done.1 told
      obtain ⟨rfl, called⟩ := Script.goes_ask.1 asked
      obtain rfl : w₁ = w := by cases called <;> rfl
      obtain ⟨rfl, rfl, there⟩ := ih second
      refine ⟨rfl, rfl, fun h member => ?_⟩
      rcases List.mem_cons.1 member with rfl | member
      · exact ⟨answer, by simp, rfl⟩
      · exact (there h member).mono fun a member => by simp [member]

/-- What was read is what was read at its candidate. -/
structure Reading.Own (h : Reading) : Prop where
  normal : Uri.normalize h.1.uri = h.1.uri
  document : ∀ document, h.2 = .ok document → document.uri = h.1.uri

theorem Reading.In.own {h : Reading} (there : h.In t) (own : h.1 = .ofPath h.1.path) : h.Own where
  normal := by
    rw [own]
    exact Uri.normalize_normalize _
  document document read := by
    obtain ⟨answer, -, same⟩ := there
    exact Candidate.uri_of_documentFrom (same.symm.trans read)

/-! ## Dealing with files -/

/-- A file gave no records: it could not be read, or the extractor could not read it as a document. -/
def Indexer.Vain (x : Indexer) (h : Reading) : Prop := ∀ document, h.2 = .ok document → x.extract document = none

/-- The run ended with an error at a file that it was dealing with. -/
def Indexer.Halts (x : Indexer) (e : IndexError) (h : Reading) (t : List Answered) (s' : IndexState) (w' : World) :
    Prop :=
  ∃ stats s w before during, t = before ++ during ∧ (x.indexRead stats h).Goes s w during (.error e) s' w'

theorem Indexer.Halts.append {e : IndexError} {h : Reading} (halts : x.Halts e h t s' w') (before : List Answered) :
    x.Halts e h (before ++ t) s' w' := by
  obtain ⟨stats, s, w, front, during, rfl, goes⟩ := halts
  exact ⟨stats, s, w, before ++ front, during, by simp, goes⟩

/-- What was read gives records. -/
def Indexer.gives (x : Indexer) (h : Reading) : Bool :=
  match h.2 with
  | .ok document => (x.extract document).isSome
  | .error _ => false

theorem Indexer.vain_iff {h : Reading} : x.Vain h ↔ x.gives h = false := by
  obtain ⟨c, e | document⟩ := h
  · exact ⟨fun _ => rfl, fun _ _ => nofun⟩
  · refine ⟨fun vain => by simp [gives, vain document rfl], fun nothing document' same => ?_⟩
    cases same
    simpa [gives] using nothing

/-- The records that what was read gives. -/
def Indexer.gained (x : Indexer) (h : Reading) : Option (List Record) :=
  match h.2 with
  | .ok document => x.extract document
  | .error _ => none

theorem Indexer.vain_iff_gained {h : Reading} : x.Vain h ↔ x.gained h = none := by
  obtain ⟨c, e | document⟩ := h
  · exact ⟨fun _ => rfl, fun _ _ => nofun⟩
  · exact ⟨fun vain => vain document rfl, fun nothing _ same => by cases same; exact nothing⟩

/-- A file that gave no records is marked. -/
theorem Indexer.indexRead_none {h : Reading} (own : h.Own) (nothing : x.gained h = none) (stats : IndexStats) :
    x.indexRead stats h = Indexer.fail stats h.1.uri := by
  obtain ⟨c, e | document⟩ := h
  · rfl
  · show x.indexDocument stats document = _
    have gave : x.extract document = none := nothing
    rw [indexDocument, gave, own.document document rfl]

/-- A file that gave records is applied and its mark cleared. -/
theorem Indexer.indexRead_some {h : Reading} {records : List Record} (own : h.Own) (some_ : x.gained h = some records)
    (stats : IndexStats) : x.indexRead stats h = (do
      let written ← x.apply h.1.uri records
      onDirty (DirtyLog.clear h.1.uri)
      x.flushIfFull
      return { stats with indexed := stats.indexed + 1, records := stats.records + written }) := by
  obtain ⟨c, e | document⟩ := h
  · cases some_
  · show x.indexDocument stats document = _
    have gave : x.extract document = some records := some_
    rw [indexDocument, gave, own.document document rfl]

/-- A file that gave no records is marked; one that did is applied and its mark cleared. -/
theorem Indexer.goes_indexRead {stats : IndexStats} {h : Reading} {r : Except IndexError IndexStats} (own : h.Own)
    (goes : (x.indexRead stats h).Goes s w t r s' w') :
    (x.Vain h ∧ (Indexer.fail stats h.1.uri).Goes s w t r s' w') ∨
      (¬ x.Vain h ∧ ∃ records, Action.Goes (do
        let written ← x.apply h.1.uri records
        onDirty (DirtyLog.clear h.1.uri)
        x.flushIfFull
        return { stats with indexed := stats.indexed + 1, records := stats.records + written }) s w t r s' w') := by
  cases gained : x.gained h with
  | none => exact .inl ⟨vain_iff_gained.2 gained, by rwa [← indexRead_none own gained]⟩
  | some records =>
      refine .inr ⟨fun vain => ?_, records, by rwa [← indexRead_some own gained]⟩
      cases (vain_iff_gained.1 vain).symm.trans gained

/-- An account of the files that a pass has dealt with: what is so as long as the pass goes on, and what is so when it
fails at the next file. -/
structure Indexer.Account (x : Indexer) where
  on : List Reading → IndexStats → IndexState → World → Prop
  off : List Reading → IndexState → World → Prop
  step : ∀ {handled : List Reading} {stats : IndexStats} {h : Reading} {s s' : IndexState} {w w' : World}
    {t : List Answered} {r : Except IndexError IndexStats}, on handled stats s w → h.Own →
    h.1.uri ∉ handled.map (·.1.uri) → (x.indexRead stats h).Goes s w t r s' w' →
    (∃ stats', r = .ok stats' ∧ on (handled ++ [h]) stats' s' w') ∨ ∃ e, r = .error e ∧ off handled s' w'

namespace Indexer.Account

variable {a : x.Account} {handled found : List Reading} {stats : IndexStats} {r : Except IndexError IndexStats}

/-- A pass that has dealt with some files takes up others: it deals with all of them, or ends with an error at one. -/
inductive Deals (a : x.Account) (handled : List Reading) (due : List Candidate) (t : List Answered) :
    Except IndexError IndexStats → IndexState → World → Prop where
  | all {stats : IndexStats} {s' : IndexState} {w' : World} {found : List Reading} (taken : due = found.map Prod.fst)
      (read : ∀ h ∈ found, h.In t) (on : a.on (handled ++ found) stats s' w') : Deals a handled due t (.ok stats) s' w'
  | halted {e : IndexError} {s' : IndexState} {w' : World} {found : List Reading} {next : Reading}
      {rest : List Candidate} (taken : due = found.map Prod.fst ++ next.1 :: rest) (read : ∀ h ∈ found, h.In t)
      (off : a.off (handled ++ found) s' w') (halts : x.Halts e next t s' w') :
      Deals a handled due t (.error e) s' w'

/-- A pass deals with files that were read, up to one at which it ends. -/
theorem goes_indexReadAll (on : a.on handled stats s w) (own : ∀ h ∈ found, h.Own)
    (distinct : ((handled ++ found).map (·.1.uri)).Nodup)
    (goes : (found.foldlM x.indexRead stats).Goes s w t r s' w') :
    (∃ stats', r = .ok stats' ∧ a.on (handled ++ found) stats' s' w') ∨
      (∃ e done next rest, r = .error e ∧ found = done ++ next :: rest ∧ a.off (handled ++ done) s' w' ∧
        x.Halts e next t s' w') := by
  induction found generalizing handled s w t stats with
  | nil =>
      obtain ⟨-, rfl, rfl, rfl⟩ := Action.goes_pure.1 goes
      exact .inl ⟨stats, rfl, by rwa [List.append_nil]⟩
  | cons h found ih =>
      have fresh : h.1.uri ∉ handled.map (·.1.uri) := by
        rw [List.map_append, List.nodup_append] at distinct
        exact fun member => distinct.2.2 _ member _ (by simp) rfl
      have own' := own h (by simp)
      rw [List.foldlM_cons] at goes
      rcases Action.goes_bind.1 goes with ⟨e, rfl, first⟩ | ⟨stats₁, s₁, w₁, t₁, t₂, rfl, first, rest⟩
      · rcases a.step on own' fresh first with ⟨_, same, -⟩ | ⟨_, -, off⟩
        · cases same
        · exact .inr ⟨e, [], h, found, rfl, rfl, by rwa [List.append_nil], stats, s, w, [], t, rfl, first⟩
      · rcases a.step on own' fresh first with ⟨_, same, on'⟩ | ⟨_, same, -⟩ <;> cases same
        rcases ih on' (fun h' member => own h' (by simp [member])) (by simpa using distinct) rest with
          ⟨stats', rfl, ends⟩ | ⟨e, done, next, others, rfl, rfl, ends, halts⟩
        · exact .inl ⟨stats', rfl, by simpa using ends⟩
        · exact .inr ⟨e, h :: done, next, others, rfl, rfl, by simpa using ends, halts.append t₁⟩

/-- The files of a chunk are read before the first of them is dealt with. -/
theorem goes_indexChunk {chunk : List Candidate} (on : a.on handled stats s w) (own : ∀ c ∈ chunk, c = .ofPath c.path)
    (distinct : ((handled.map Prod.fst ++ chunk).map (·.uri)).Nodup)
    (goes : (x.indexChunk stats chunk).Goes s w t r s' w') : a.Deals handled chunk t r s' w' := by
  rcases Action.goes_bind.1 goes with ⟨e, -, first⟩ | ⟨found, s₂, w₂, t₁, t₂, rfl, first, rest⟩
  · obtain ⟨-, b, same, -⟩ := Action.goes_ofPlain.1 first
    cases same
  obtain ⟨rfl, b, same, ran⟩ := Action.goes_ofPlain.1 first
  cases same
  obtain ⟨rfl, rfl, there⟩ := Candidate.goes_readAll ran
  rw [← List.map_append, List.map_map] at distinct
  have ours : ∀ h ∈ found, Reading.Own h := fun h member =>
    (there h member).own (own h.1 (List.mem_map.2 ⟨h, member, rfl⟩))
  rcases goes_indexReadAll on ours distinct rest with ⟨stats', rfl, on'⟩ | ⟨e, done, next, others, rfl, rfl, off, halts⟩
  · exact .all rfl (fun h member => (there h member).mono (by simp +contextual)) on'
  · have taken : (done ++ next :: others).map Prod.fst = done.map Prod.fst ++ next.1 :: others.map Prod.fst := by simp
    refine .halted taken (fun h member => ?_) off (halts.append t₁)
    exact (there h (by simp [member])).mono (by simp +contextual)

/-- **A pass deals with candidates chunk by chunk**, up to a file at which it ends. -/
theorem goes_indexChunks {pieces : List (List Candidate)} (on : a.on handled stats s w)
    (own : ∀ c ∈ pieces.flatten, c = .ofPath c.path)
    (distinct : ((handled.map Prod.fst ++ pieces.flatten).map (·.uri)).Nodup)
    (goes : (pieces.foldlM x.indexChunk stats).Goes s w t r s' w') : a.Deals handled pieces.flatten t r s' w' := by
  induction pieces generalizing handled s w t stats with
  | nil =>
      obtain ⟨-, rfl, rfl, rfl⟩ := Action.goes_pure.1 goes
      have nothing : a.on (handled ++ []) stats s' w' := by rwa [List.append_nil]
      exact .all rfl (by simp) nothing
  | cons chunk pieces ih =>
      rw [List.flatten_cons] at own distinct ⊢
      have own' : ∀ c ∈ chunk, c = .ofPath c.path := fun c member => own c (List.mem_append_left _ member)
      have distinct' : ((handled.map Prod.fst ++ chunk).map (·.uri)).Nodup := by
        rw [← List.append_assoc, List.map_append] at distinct
        exact (List.nodup_append.1 distinct).1
      rw [List.foldlM_cons] at goes
      rcases Action.goes_bind.1 goes with ⟨e, rfl, first⟩ | ⟨stats₁, s₁, w₁, t₁, t₂, rfl, first, rest⟩
      · cases goes_indexChunk on own' distinct' first with
        | halted due read off halts => exact .halted (by rw [due, List.append_assoc, List.cons_append]) read off halts
      · cases goes_indexChunk on own' distinct' first with
        | all due read on' =>
            subst due
            have onward :=
              ih on' (fun c member => own c (List.mem_append_right _ member)) (by simpa using distinct) rest
            have joined : ∀ {others : List Reading}, (∀ h ∈ others, h.In t₂) →
                ∀ h ∈ _ ++ others, h.In (t₁ ++ t₂) := fun read' h member =>
              (List.mem_append.1 member).elim (fun member => (read h member).mono (by simp +contextual))
                fun member => (read' h member).mono (by simp +contextual)
            cases onward with
            | all due' read' ends =>
                exact .all (by rw [due', List.map_append]) (joined read') (by rwa [← List.append_assoc])
            | halted due' read' ends halts =>
                exact .halted (by rw [due', List.map_append, List.append_assoc]) (joined read')
                  (by rwa [← List.append_assoc]) (halts.append t₁)

end Indexer.Account

end SymbolIndex
