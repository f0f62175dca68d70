import SymbolIndex.Proofs.Index.Interleaving
import SymbolIndex.Proofs.Index.Repeated

/-!
# Proofs.Index.Stamps — stamps go up and stay near the clock

A stamp is the reading of the clock, or the stamp before it and one if the clock is behind. So where the clock
goes back, or many indexings fall on one millisecond, stamps run ahead of it, though never by more than the file
was indexed. That is an invariant of a whole chronicle: the steps that an index takes, with a list of its
indexings and the readings of the clock on the way (`Chronicle`). Between two steps the clock may be set to
anything. The steps of a pass and the operations of a history belong to chronicles (`Chronicle.steps`,
`Chronicle.of_history`).

The bound keeps the stamps in range: as long as the largest reading and the number of indexings are, no stamp
overflows (`Chronicle.stamp_advances`). Only documents with a record of their own file are looked at here: a record
of another file is stored with the stamp it came with.
-/

namespace SymbolIndex

open Action (outcome)

set_option autoImplicit false

/-! ## One stamp -/

theorem Int64.toInt_max (a b : Int64) : (max a b).toInt = max a.toInt b.toInt := by
  have chosen : max a b = if a ≤ b then b else a := rfl
  rw [chosen]
  split
  next le =>
    rw [Int64.le_iff_toInt_le] at le
    omega
  next lt =>
    rw [Int64.le_iff_toInt_le] at lt
    omega

/-- One more, as long as there is room for it. -/
theorem Int64.toInt_succ {a : Int64} (room : a.toInt + 1 < 9223372036854775808) :
    (a + 1).toInt = a.toInt + 1 := by
  have least := Int64.le_toInt a
  have one : (1 : Int64).toInt = 1 := rfl
  rw [Int64.toInt_add, one]
  exact Int.bmod_eq_of_le (by omega) (by omega)

/-- A stamp as a number: the clock, or one past the stamp before. -/
theorem Freshness.toInt_nextStamp {now stamp : Int64} (room : stamp.toInt + 1 < 9223372036854775808) :
    (nextStamp now (some stamp)).toInt = max now.toInt (stamp.toInt + 1) := by
  rw [nextStamp, Int64.toInt_max, Int64.toInt_succ room]

/-! ## Indexings -/

/-- A document is indexed: its URI, and the reading of the clock. -/
structure Indexing where
  uri : String
  clock : Int64

namespace Indexing

variable {log more : List Indexing} {uri : String} {one : Indexing}

/-- The largest reading of the clock, or the epoch if there is none. -/
def peak (log : List Indexing) : Int := log.foldl (fun top one => max top one.clock.toInt) 0

/-- How often a file was indexed. -/
def count (uri : String) (log : List Indexing) : Nat := log.countP (·.uri = uri)

/-- The largest reading and the number of the indexings are in the range of a stamp. -/
def Room (log : List Indexing) : Prop := peak log + log.length < 9223372036854775808

instance (log : List Indexing) : Decidable (Room log) := inferInstanceAs (Decidable (_ < _))

theorem peak_snoc (log : List Indexing) (uri : String) (clock : Int64) :
    peak (log ++ [⟨uri, clock⟩]) = max (peak log) clock.toInt := by
  rw [peak, List.foldl_append]
  rfl

theorem peak_nonneg (log : List Indexing) : 0 ≤ peak log := by
  induction log using List.reverseRecOn with
  | nil => exact Int.le_refl 0
  | append_singleton log one ih =>
      rw [peak_snoc]
      omega

theorem count_snoc (uri : String) (log : List Indexing) (u : String) (clock : Int64) :
    count uri (log ++ [⟨u, clock⟩]) = count uri log + if u = uri then 1 else 0 := by
  rw [count, List.countP_append, List.countP_singleton]
  simp [count]

theorem count_le (uri : String) (log : List Indexing) : count uri log ≤ log.length := List.countP_le_length

theorem Room.before (room : Room (log ++ [one])) : Room log := by
  rw [Room, peak_snoc, List.length_append] at room
  rw [Room]
  simp only [List.length_singleton] at room
  omega

end Indexing

open Indexing (peak count Room)

/-! ## What is stored -/

namespace Holdings

variable {h h' : Holdings} {log : List Indexing} {uri : String} {records : List Record} {clock : Int64}

/-- Every file has a stamp, which is ahead of the clock by less than the file was indexed. -/
def Stamped (log : List Indexing) (h : Holdings) : Prop :=
  ∀ uri f, h.ledger.get? ⟨.file, uri⟩ = some (.file f) →
    ∃ stamp, f.lastIndexed = some stamp ∧ 0 ≤ stamp.toInt ∧ stamp.toInt < peak log + count uri log

theorem Stamped.empty : Stamped [] .empty := fun _ _ found => by cases found

/-- What takes files away leaves the stamps. -/
theorem Stamped.fewer (stamped : Stamped log h)
    (fewer : ∀ key r, h'.ledger.get? key = some r → h.ledger.get? key = some r) : Stamped log h' :=
  fun uri f found => stamped uri f (fewer _ _ found)

/-- The stamp that a document gets. -/
def nextStamp (h : Holdings) (uri : String) (clock : Int64) : Int64 :=
  Freshness.nextStamp (max 0 clock) ((h.ledger.file? uri).bind (·.lastIndexed))

theorem lastIndexed_stamped (h : Holdings) (uri : String) (records : List Record) (clock : Int64) :
    (h.stamped uri records (max 0 clock)).lastIndexed = some (h.nextStamp uri clock) := by
  rw [stamped_eq, nextStamp]

theorem clock_le_nextStamp (h : Holdings) (uri : String) (clock : Int64) : clock ≤ h.nextStamp uri clock := by
  have ahead := Int64.le_iff_toInt_le.1
    (Freshness.le_nextStamp (max 0 clock) ((h.ledger.file? uri).bind (·.lastIndexed)))
  rw [Int64.toInt_max] at ahead
  rw [nextStamp, Int64.le_iff_toInt_le]
  omega

/-- A file that is stored has a stamp that there is room after. -/
theorem Stamped.previous (stamped : Stamped log h) (normal : Uri.normalize uri = uri) (room : Room log)
    {f : FileRecord} (stored : h.ledger.file? uri = some f) :
    ∃ stamp, f.lastIndexed = some stamp ∧ 0 ≤ stamp.toInt ∧ stamp.toInt < peak log + count uri log ∧
      stamp.toInt + 1 < 9223372036854775808 := by
  have found := Ledger.file?_eq_some.1 stored
  rw [RecordKey.ofFile, normal] at found
  obtain ⟨stamp, has, least, most⟩ := stamped uri f found
  have counted := Indexing.count_le uri log
  rw [Room] at room
  exact ⟨stamp, has, least, most, by omega⟩

/-- The stamp of a file that is stored is past the one before, which has room for it. -/
theorem Stamped.lt_nextStamp (stamped : Stamped log h) (normal : Uri.normalize uri = uri) (room : Room log)
    {f : FileRecord} (stored : h.ledger.file? uri = some f) (clock : Int64) :
    ∃ stamp, f.lastIndexed = some stamp ∧ (stamp + 1).toInt = stamp.toInt + 1 ∧ stamp < h.nextStamp uri clock := by
  obtain ⟨stamp, has, -, -, after⟩ := stamped.previous normal room stored
  refine ⟨stamp, has, Int64.toInt_succ after, ?_⟩
  rw [nextStamp, stored, Option.bind_some, has, Int64.lt_iff_toInt_lt, Freshness.toInt_nextStamp after]
  omega

/-- **A stamp is ahead of the clock by no more than the file was indexed before.** -/
theorem Stamped.nextStamp_le (stamped : Stamped log h) (normal : Uri.normalize uri = uri)
    (room : Room log) (clock : Int64) :
    0 ≤ (h.nextStamp uri clock).toInt ∧
      (h.nextStamp uri clock).toInt ≤ peak (log ++ [⟨uri, clock⟩]) + count uri log := by
  have reading : (max 0 clock).toInt = max 0 clock.toInt := Int64.toInt_max 0 clock
  have least := Indexing.peak_nonneg log
  rw [Indexing.peak_snoc, nextStamp]
  cases stored : h.ledger.file? uri with
  | none =>
      rw [Option.bind_none, Freshness.nextStamp, reading]
      omega
  | some f =>
      obtain ⟨stamp, has, -, most, after⟩ := stamped.previous normal room stored
      rw [Option.bind_some, has, Freshness.toInt_nextStamp after, reading]
      omega

/-- A document of its own file leaves every stamp within the bound. -/
theorem Stamped.applied (stamped : Stamped log h) (keyed : h.ledger.Keyed) (normal : Uri.normalize uri = uri)
    (own : ∀ f, .file f ∈ records → f.path = uri) (room : Room log) (clock : Int64) :
    Stamped (log ++ [⟨uri, clock⟩]) (h.applied uri records (max 0 clock)) := by
  intro u f found
  have top := Indexing.peak_snoc log uri clock
  by_cases here : u = uri
  · subst here
    rw [get?_applied_file normal keyed] at found
    cases found
    obtain ⟨least, most⟩ := stamped.nextStamp_le normal room clock
    refine ⟨_, lastIndexed_stamped h u records clock, least, ?_⟩
    rw [Indexing.count_snoc, if_pos rfl]
    omega
  · rw [Linked.get?_applied_otherFile keyed normal own here] at found
    obtain ⟨stamp, has, least, most⟩ := stamped u f found
    refine ⟨stamp, has, least, ?_⟩
    rw [Indexing.count_snoc, if_neg (Ne.symm here)]
    omega

end Holdings

/-! ## Chronicles -/

/-- The extractor gives no record of a file but of the document itself. -/
def Indexer.OwnFiles (x : Indexer) : Prop :=
  ∀ document records, x.extract document = some records → ∀ f, .file f ∈ records → f.path = document.uri

/-- The steps of an indexer that index nothing. -/
inductive Indexer.Plain (x : Indexer) : {α : Type} → Indexed α → Prop where
  | lock : Plain x x.lock
  | provide : Plain x x.provide
  | mark (uri : String) : Plain x (Indexer.onDirty (DirtyLog.mark uri))
  | clear (uri : String) : Plain x (Indexer.onDirty (DirtyLog.clear uri))
  | flush : Plain x x.flush
  | flushIfFull : Plain x x.flushIfFull
  | note (stats : IndexStats) : Plain x (do
      let now ← Action.ofPlain Freshness.nowSeconds
      Indexer.onStore (x.store.markUpdated now)
      return stats : Indexed IndexStats)
  | sweep : Plain x x.sweep
  | reset : Plain x x.reset

/-- What an index comes to from its opening in an empty directory, step by step, and its indexings on the way.
Between two steps anything may happen outside of the index: the clock may be set forward and back. -/
inductive Chronicle (x : Indexer) (c : IndexConfig) (site : Site) : List Indexing → IndexState → World → Prop where
  | opened {w w' : World} {s : IndexState} (fresh : w.Fresh site.root site.base)
      (done : Script.outcome (Indexer.open c) w = (.ok s, w')) : Chronicle x c site [] s w'
  | applied {log : List Indexing} {s s' : IndexState} {w w' : World} {document : TextDocument}
      {records : List Record} {written : Nat} (before : Chronicle x c site log s w)
      (gave : x.extract document = some records) (admits : site.Admits document.uri records)
      (done : outcome (x.apply document.uri records) s w = (.ok written, s', w')) :
      Chronicle x c site (log ++ [⟨document.uri, w.clock⟩]) s' w'
  | plain {log : List Indexing} {s s' : IndexState} {w w' : World} {α : Type} {action : Indexed α} {a : α}
      (before : Chronicle x c site log s w) (plain : x.Plain action)
      (done : outcome action s w = (.ok a, s', w')) : Chronicle x c site log s' w'
  | outside {log : List Indexing} {s : IndexState} {w w' : World} (before : Chronicle x c site log s w)
      (same : ∀ p, World.Same site.base p w w') (hosts : w'.disk.Hosts site.root site.base) :
      Chronicle x c site log s w'

/-- A step that indexes nothing stores nothing. -/
theorem Indexer.Plain.fewer {x : Indexer} {c : IndexConfig} {site : Site} {h : Holdings} {s s' : IndexState}
    {w w' : World} {α : Type} {action : Indexed α} {a : α} (plain : x.Plain action) (made : x.Made c site)
    (stands : site.Stands h s w) (done : outcome action s w = (.ok a, s', w')) :
    ∃ h', site.Stands h' s' w' ∧ ∀ key r, h'.ledger.get? key = some r → h.ledger.get? key = some r := by
  have at_ := made.at_
  cases plain with
  | lock =>
      obtain ⟨w₁, locked, stands', -⟩ := stands.lock_ok at_
      obtain ⟨-, rfl, rfl⟩ := History.agree done locked
      exact ⟨h, stands', fun _ _ => id⟩
  | provide =>
      obtain ⟨listings, asks⟩ := made.asks
      have provided := stands.provide_ok asks
      cases all : Listing.all w listings with
      | error e =>
          rw [all] at provided
          cases done.symm.trans provided
      | ok found =>
          rw [all] at provided
          obtain ⟨s₁, w₁, provided, stands', -⟩ := provided
          obtain ⟨-, rfl, rfl⟩ := History.agree done provided
          exact ⟨_, stands', fun _ _ => id⟩
  | mark uri =>
      obtain ⟨marks, s₁, w₁, marked, stands', -⟩ := stands.mark_ok uri
      obtain ⟨-, rfl, rfl⟩ := History.agree done marked
      exact ⟨_, stands', fun _ _ => id⟩
  | clear uri =>
      obtain ⟨s₁, w₁, cleared, stands', -⟩ := stands.clear_ok uri
      obtain ⟨-, rfl, rfl⟩ := History.agree done cleared
      exact ⟨_, stands', fun _ _ => id⟩
  | flush =>
      obtain ⟨s₁, w₁, flushed, stands', -⟩ := stands.flush_ok at_
      obtain ⟨-, rfl, rfl⟩ := History.agree done flushed
      exact ⟨h, stands', fun _ _ => id⟩
  | flushIfFull =>
      obtain ⟨s₁, w₁, flushed, stands', -⟩ := stands.flushIfFull_ok at_
      obtain ⟨-, rfl, rfl⟩ := History.agree done flushed
      exact ⟨h, stands', fun _ _ => id⟩
  | note stats =>
      obtain ⟨time, w₁, noted, stands', -⟩ := stands.built_ok at_ stats
      obtain ⟨-, rfl, rfl⟩ := History.agree done noted
      exact ⟨_, stands', fun _ _ => id⟩
  | sweep =>
      obtain ⟨removed, s₁, w₁, swept, stands', -⟩ := stands.sweep_ok at_
      obtain ⟨-, rfl, rfl⟩ := History.agree done swept
      refine ⟨_, stands', fun key r found => ?_⟩
      rw [Holdings.swept, Ledger.get?_without] at found
      split at found
      · cases found
      · exact found
  | reset =>
      obtain ⟨s₁, w₁, reset, stands', -⟩ := stands.reset_ok at_
      obtain ⟨-, rfl, rfl⟩ := History.agree done reset
      exact ⟨_, stands', fun key r found => by cases found⟩

namespace Chronicle

variable {x : Indexer} {c : IndexConfig} {site : Site} {log : List Indexing} {s s' : IndexState} {w w' : World}

/-- **An index stands for holdings whose stamps are near the clock.** -/
theorem stands (chronicle : Chronicle x c site log s w) (made : x.Made c site) :
    ∃ h, site.Stands h s w ∧ (x.OwnFiles → Room log → h.Stamped log) := by
  induction chronicle with
  | opened fresh done =>
      obtain ⟨s, w', opened, stands, -⟩ :=
        Site.Stands.open_fresh fresh made.backend made.root made.sound made.made
      rw [opened] at done
      cases done
      exact ⟨.empty, stands, fun _ _ => .empty⟩
  | applied before gave admits done ih =>
      obtain ⟨h, stands, stamped⟩ := ih
      obtain ⟨s', w', applied, stands', -⟩ := stands.apply_ok made.at_ admits
      obtain ⟨-, rfl, rfl⟩ := History.agree done applied
      exact ⟨_, stands', fun own room => (stamped own room.before).applied stands.records.keyed admits.normal
        (own _ _ gave) room.before _⟩
  | plain before plain done ih =>
      obtain ⟨h, stands, stamped⟩ := ih
      obtain ⟨h', stands', fewer⟩ := plain.fewer made stands done
      exact ⟨h', stands', fun own room => (stamped own room).fewer fewer⟩
  | outside before same hosts ih =>
      obtain ⟨h, stands, stamped⟩ := ih
      exact ⟨h, stands.same same hosts, stamped⟩

/-- The clock may be set forward and back. -/
theorem turned (chronicle : Chronicle x c site log s w) (made : x.Made c site) (time : Int64) :
    Chronicle x c site log s { w with clock := time } := by
  obtain ⟨h, stands, -⟩ := chronicle.stands made
  exact chronicle.outside (fun _ => ⟨fun _ _ => rfl, rfl⟩) stands.hosts

/-- What is stored does not hang on the clock. -/
theorem file?_turned (chronicle : Chronicle x c site log s w) (made : x.Made c site) {uri : String}
    (used : site.used (Uri.normalize uri)) {known : Option FileRecord}
    (stored : outcome (x.file? uri) s w = (.ok known, s, w)) (time : Int64) :
    outcome (x.file? uri) s { w with clock := time } = (.ok known, s, { w with clock := time }) := by
  obtain ⟨h, stands, -⟩ := chronicle.stands made
  have later : site.Stands h s { w with clock := time } := stands.same (fun _ => ⟨fun _ _ => rfl, rfl⟩) stands.hosts
  have same : h.ledger.file? uri = known := by
    rw [stands.file?_ok made.at_ used] at stored
    simpa using stored
  rw [later.file?_ok made.at_ used, same]

/-- A document is indexed. -/
theorem document (before : Chronicle x c site log s w) {document : TextDocument} {records : List Record}
    {stats stats' : IndexStats} (gave : x.extract document = some records)
    (admits : site.Admits document.uri records)
    (done : outcome (x.indexDocument stats document) s w = (.ok stats', s', w')) :
    Chronicle x c site (log ++ [⟨document.uri, w.clock⟩]) s' w' := by
  rw [Indexer.indexDocument, gave] at done
  obtain ⟨written, s₁, w₁, applied, rest⟩ := Action.outcome_bind_eq_ok.1 done
  obtain ⟨⟨⟩, s₂, w₂, cleared, rest⟩ := Action.outcome_bind_eq_ok.1 rest
  obtain ⟨⟨⟩, s₃, w₃, flushed, rest⟩ := Action.outcome_bind_eq_ok.1 rest
  cases rest
  exact ((before.applied gave admits applied).plain (.clear _) cleared).plain .flushIfFull flushed

end Chronicle

/-! ## Passes and histories -/

/-- What is indexed by a step. -/
def Event.indexings (w : World) : Event → List Indexing
  | .applied uri _ => [⟨uri, w.clock⟩]
  | _ => []

namespace Chronicle

variable {x : Indexer} {c : IndexConfig} {site : Site} {log : List Indexing} {s s' : IndexState} {w w' : World}
  {m m' : Moment} {e : Event} {events : List Event}

/-- The steps of a pass belong to a chronicle. -/
theorem step (chronicle : Chronicle x c site log m.state m.world) (made : x.Made c site)
    (step : Step x site e m m') : Chronicle x c site (log ++ e.indexings m.world) m'.state m'.world := by
  have quiet : ∀ e : Event, e.indexings m.world = [] → Chronicle x c site log m'.state m'.world →
      Chronicle x c site (log ++ e.indexings m.world) m'.state m'.world := fun e none_ after => by
    rwa [none_, List.append_nil]
  cases step with
  | begin done =>
      obtain ⟨⟨⟩, s₁, w₁, locked, provided⟩ := Action.outcome_bind_eq_ok.1 done
      exact quiet .drained rfl ((chronicle.plain .lock locked).plain .provide provided)
  | beginFile done => exact quiet .quiet rfl (chronicle.plain .lock done)
  | consider along done =>
      obtain ⟨h, stands, -⟩ := chronicle.stands made
      obtain ⟨-, rfl, rfl⟩ := History.agree done (stands.consider_ok made.at_ along)
      exact quiet .quiet rfl chronicle
  | choose => exact quiet .quiet rfl chronicle
  | read => exact quiet (.read _) rfl chronicle
  | apply gave admits done => exact chronicle.applied gave admits done
  | clear done =>
      obtain ⟨⟨⟩, s₁, w₁, cleared, flushed⟩ := Action.outcome_bind_eq_ok.1 done
      exact quiet (.cleared _) rfl ((chronicle.plain (.clear _) cleared).plain .flushIfFull flushed)
  | fail nothing done => exact quiet (.marked _) rfl (chronicle.plain (.mark _) done)
  | finishFile done => exact quiet .ended rfl (chronicle.plain .flush done)
  | finish flushed done => exact quiet .ended rfl ((chronicle.plain .flush flushed).plain (.note _) done)
  | mark done => exact quiet (.marked _) rfl (chronicle.plain (.mark _) done)
  | edit same hosts => exact quiet (.edited _ _ _) rfl (chronicle.outside same hosts)
  | wait => exact quiet .quiet rfl (chronicle.turned made _)

theorem steps (chronicle : Chronicle x c site log m.state m.world) (made : x.Made c site)
    (steps : Steps x site events m m') : ∃ more, Chronicle x c site (log ++ more) m'.state m'.world := by
  induction steps generalizing log with
  | done => exact ⟨[], by rwa [List.append_nil]⟩
  | step first onward ih =>
      obtain ⟨more, later⟩ := ih (chronicle.step made first)
      exact ⟨_, by rwa [← List.append_assoc]⟩

/-- Every history of operations is a chronicle. -/
theorem of_history (history : History x c site .any s w) (made : x.Made c site) :
    ∃ log, Chronicle x c site log s w := by
  induction history with
  | opened fresh done => exact ⟨[], .opened fresh done⟩
  | @run s s' w w' force stats before done told ih =>
      obtain ⟨log, chronicle⟩ := ih
      obtain ⟨h, stands, -⟩ := chronicle.stands made
      obtain ⟨told', events, run, -⟩ := @Undisturbed.of_run _ _ _ _ _ _ _ w.clock _ _ _ stands made told done
      obtain ⟨more, later⟩ := Chronicle.steps (m := ⟨s, w, .idle, w.clock⟩) chronicle made run
      exact ⟨_, later⟩
  | @indexFile s s' w w' path stats before done told ih =>
      obtain ⟨log, chronicle⟩ := ih
      obtain ⟨h, stands, -⟩ := chronicle.stands made
      obtain ⟨told', events, run, -⟩ :=
        @Undisturbed.of_indexFile _ _ _ _ _ _ _ w.clock _ _ stands made.at_ told done
      obtain ⟨more, later⟩ := Chronicle.steps (m := ⟨s, w, .idle, w.clock⟩) chronicle made run
      exact ⟨_, later⟩
  | document before gave admits extracted ticked done ih =>
      obtain ⟨log, chronicle⟩ := ih
      exact ⟨_, chronicle.document gave admits done⟩
  | sweep before done ih =>
      obtain ⟨log, chronicle⟩ := ih
      exact ⟨log, chronicle.plain .sweep done⟩
  | reset before done ih =>
      obtain ⟨log, chronicle⟩ := ih
      exact ⟨log, chronicle.plain .reset done⟩
  | mark before done ih =>
      obtain ⟨log, chronicle⟩ := ih
      exact ⟨log, chronicle.plain (.mark _) done⟩
  | outside before same hosts ih =>
      obtain ⟨log, chronicle⟩ := ih
      exact ⟨log, chronicle.outside same hosts⟩

end Chronicle

/-! ## The stamp of an indexing -/

/-- A file is fresh up to a stamp, by what an index answers. -/
def Indexer.FreshUpTo (x : Indexer) (uri : String) (stamp : Int64) (s : IndexState) (w : World) : Prop :=
  ∀ changed, Script.outcome (s.buffer.isFresh x.store uri changed) w = (.ok (decide (changed ≤ stamp)), w)

theorem Ledger.isFresh_eq {l : Ledger} {uri : String} {f : FileRecord} {stamp : Int64}
    (normal : Uri.normalize uri = uri) (stored : l.get? ⟨.file, uri⟩ = some (.file f))
    (has : f.lastIndexed = some stamp) (changed : Int64) : l.isFresh uri changed = decide (changed ≤ stamp) := by
  rw [Bool.eq_iff_iff, decide_eq_true_eq, isFresh_iff normal]
  constructor
  · rintro ⟨f', stamp', stored', has', fresh⟩
    cases stored.symm.trans stored'
    cases has.symm.trans has'
    exact fresh
  · exact fun fresh => ⟨f, stamp, stored, has, fresh⟩

namespace Site.Stands

variable {site : Site} {x : Indexer} {h : Holdings} {s : IndexState} {w : World} {uri : String} {f : FileRecord}
  {stamp : Int64}

theorem freshUpTo (stands : site.Stands h s w) (at_ : x.At site) (normal : Uri.normalize uri = uri)
    (used : site.used uri) (stored : h.ledger.get? ⟨.file, uri⟩ = some (.file f))
    (has : f.lastIndexed = some stamp) : x.FreshUpTo uri stamp s w := by
  intro changed
  rw [at_.store, stands.records.isFresh_ok (by rwa [normal]) changed, Ledger.isFresh_eq normal stored has]

/-- After a flush the store carries everything. -/
theorem flush_carries (stands : site.Stands h s w) (at_ : x.At site) :
    ∃ s' w', outcome x.flush s w = (.ok (), s', w') ∧ site.Stands h s' w' ∧ site.Carries h.ledger w' := by
  obtain ⟨w₁, settled, carries, touch₁⟩ := stands.records.flush_ok
  have records : site.Buffers h.ledger s.buffer.clear w₁ := .of_empty carries rfl
  have stands₁ := stands.of_records touch₁ records stands.uses
  obtain ⟨i, w₂, flushed, search, apart⟩ := stands₁.search.flush
  have touch₂ : site.Touch .search w₁ w₂ := .of_search apart search
  refine ⟨_, w₂, ?_, stands₁.of_search touch₂ search,
    carries.same (touch₂.same (by decide)) (touch₂.hosts stands₁.hosts)⟩
  rw [← at_.store] at settled
  rw [Indexer.flush, Action.outcome_bind_ok (Indexer.onBuffer_ok settled)]
  exact Indexer.onSearch_ok flushed

end Site.Stands

namespace Chronicle

variable {x : Indexer} {c : IndexConfig} {site : Site} {log : List Indexing} {s : IndexState} {w : World}

/-- **Stamps go up and stay near the clock.** When a document is indexed its file gets a stamp past the one that was
stored, which does not overflow; no earlier than the clock; and ahead of its largest reading by no more than the
file was indexed before. From then on the file is fresh up to that stamp, as long as it waits to be handed over and
in the store. -/
theorem stamp_advances (chronicle : Chronicle x c site log s w) (made : x.Made c site) (own : x.OwnFiles)
    {document : TextDocument} {records : List Record} (gave : x.extract document = some records)
    (admits : site.Admits document.uri records) (room : Room (log ++ [⟨document.uri, w.clock⟩]))
    (stats : IndexStats) :
    ∃ stats' s' w' f stamp, outcome (x.indexDocument stats document) s w = (.ok stats', s', w') ∧
      Chronicle x c site (log ++ [⟨document.uri, w.clock⟩]) s' w' ∧
      outcome (x.file? document.uri) s' w' = (.ok (some f), s', w') ∧ f.lastIndexed = some stamp ∧
      (∀ known, outcome (x.file? document.uri) s w = (.ok (some known), s, w) → ∃ previous,
        known.lastIndexed = some previous ∧ (previous + 1).toInt = previous.toInt + 1 ∧ previous < stamp) ∧
      w.clock ≤ stamp ∧
      stamp.toInt ≤ peak (log ++ [⟨document.uri, w.clock⟩]) + count document.uri log ∧
      x.FreshUpTo document.uri stamp s' w' ∧
      ∃ s'' w'', outcome x.flush s' w' = (.ok (), s'', w'') ∧ x.FreshUpTo document.uri stamp s'' w'' ∧
        ∀ changed, Script.outcome (x.store.isFresh document.uri changed) w'' =
          (.ok (decide (changed ≤ stamp)), w'') := by
  have at_ := made.at_
  have normal := admits.normal
  have used : site.used (Uri.normalize document.uri) := normal.symm ▸ admits.document
  obtain ⟨h, stands, stamped⟩ := chronicle.stands made
  have stamped := stamped own room.before
  obtain ⟨s', w', done, stands', -⟩ := stands.indexDocument_ok at_ gave admits stats
  have stored : ((h.applied document.uri records (max 0 w.clock)).cleared document.uri).ledger.get?
      ⟨.file, document.uri⟩ = some (.file (h.stamped document.uri records (max 0 w.clock))) :=
    Holdings.get?_applied_file normal stands.records.keyed records (max 0 w.clock)
  have has := h.lastIndexed_stamped document.uri records w.clock
  obtain ⟨s'', w'', flushed, stands'', carries⟩ := stands'.flush_carries at_
  refine ⟨_, s', w', _, _, done, chronicle.document gave admits done, ?_, has, fun known found => ?_,
    h.clock_le_nextStamp _ _, (stamped.nextStamp_le normal room.before _).2,
    stands'.freshUpTo at_ normal admits.document stored has, s'', w'', flushed,
    stands''.freshUpTo at_ normal admits.document stored has, fun changed => ?_⟩
  · have file : ((h.applied document.uri records (max 0 w.clock)).cleared document.uri).ledger.file? document.uri =
        some (h.stamped document.uri records (max 0 w.clock)) :=
      Ledger.file?_eq_some.2 (by rw [RecordKey.ofFile, normal]; exact stored)
    rw [stands'.file?_ok at_ used, file]
  · rw [stands.file?_ok at_ used] at found
    have known_ : h.ledger.file? document.uri = some known := by simpa using found
    exact stamped.lt_nextStamp normal room.before known_ w.clock
  · rw [at_.store, carries.isFresh_ok used changed, Ledger.isFresh_eq normal stored has]

/-! ## Poles -/

theorem sampleWhole_ownFiles : (smallIndexer History.sampleWhole).OwnFiles :=
  fun document records gave => (History.sampleWhole_bare document records gave).own

/-- The file beside the small index is indexed at a time, and again when the clock has gone back: its second stamp
is one past the first. -/
theorem sample_stamp_advances :
    ∃ s w f, Chronicle (smallIndexer History.sampleWhole) smallConfig smallSite
        [⟨"file:///a.php", 5⟩, ⟨"file:///a.php", 3⟩] s w ∧
      outcome ((smallIndexer History.sampleWhole).file? "file:///a.php") s w = (.ok (some f), s, w) ∧
      f.lastIndexed = some 6 ∧ (smallIndexer History.sampleWhole).FreshUpTo "file:///a.php" 6 s w := by
  have made := smallIndexer_made History.sampleWhole
  have room : Room [⟨"file:///a.php", 5⟩] ∧ Room [⟨"file:///a.php", 5⟩, ⟨"file:///a.php", 3⟩] := by decide
  have admits := smallSite_admits History.normal_samplePath
  let document : TextDocument := ⟨"file:///a.php", smallPath, ""⟩
  obtain ⟨s₀, w₀, opened, -⟩ :=
    Site.Stands.open_fresh smallWorld_fresh made.backend made.root made.sound made.made
  have start : Chronicle (smallIndexer History.sampleWhole) smallConfig smallSite [] s₀ w₀ :=
    .opened smallWorld_fresh opened
  obtain ⟨-, s₁, w₁, f₁, stamp₁, -, once, stored₁, has₁, -, after₁, most₁, -⟩ :=
    @stamp_advances _ _ _ _ _ _ (start.turned made 5) made sampleWhole_ownFiles document _ rfl (admits _) room.1 {}
  have first : stamp₁ = 5 := Int64.toInt_inj.1 (Int.le_antisymm most₁ (Int64.le_iff_toInt_le.1 after₁))
  obtain ⟨-, s₂, w₂, f₂, stamp₂, -, twice, stored₂, has₂, known, -, most₂, fresh, -⟩ :=
    @stamp_advances _ _ _ _ _ _ (once.turned made 3) made sampleWhole_ownFiles document _ rfl (admits _) room.2 {}
  obtain ⟨previous, has, -, past⟩ := known f₁ (once.file?_turned made trivial stored₁ 3)
  have second : stamp₂ = 6 := by
    cases has₁.symm.trans has
    rw [first, Int64.lt_iff_toInt_lt] at past
    exact Int64.toInt_inj.1 (Int.le_antisymm most₂ past)
  rw [second] at has₂ fresh
  exact ⟨s₂, w₂, f₂, twice, stored₂, has₂, fresh⟩

end Chronicle

end SymbolIndex
