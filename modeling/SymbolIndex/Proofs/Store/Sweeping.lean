import SymbolIndex.Proofs.Store.Transparency
import SymbolIndex.Proofs.System.Consulting

/-!
# Proofs.Store.Sweeping — what a sweep takes, leaves and asks

A sweep meets every record that hangs on a URI, and many records may hang on the same one. It
remembers what it was told of a URI: `Learns` says what is remembered after some URIs were met, and
that each of them was asked about once, unless it was known before.

`sweep_exact` is about a store of either kind, directly and through a buffer, after any operations.
The sweep removes the records whose URI is refused, each once and as it was stored, and leaves every
other record and the time of the last build; it asks about the URIs of the stored records and
about nothing else, once about each.
-/

set_option autoImplicit false

namespace SymbolIndex

open Script (Consults outcome)

variable {keep : String → Bool}

/-! ## Verdicts -/

/-- After some URIs were met: they are known, and the ones that were not known were asked about. -/
structure Learns (keep : String → Bool) (before after : SortedMap String Bool) (asked : List String)
    (met : String → Prop) : Prop where
  agree : Agree keep after
  nodup : asked.Nodup
  asked : ∀ uri, uri ∈ asked ↔ before.get? uri = none ∧ met uri
  unknown : ∀ uri, after.get? uri = none ↔ before.get? uri = none ∧ ¬ met uri

namespace Learns

variable {before between after : SortedMap String Bool} {asked more : List String}
  {met met' : String → Prop}

theorem refl (agree : Agree keep before) : Learns keep before before [] fun _ => False :=
  ⟨agree, List.nodup_nil, by simp, by simp⟩

theorem trans (first : Learns keep before between asked met) (rest : Learns keep between after more met') :
    Learns keep before after (asked ++ more) fun uri => met uri ∨ met' uri where
  agree := rest.agree
  nodup := by
    refine List.nodup_append'.2 ⟨first.nodup, rest.nodup, fun uri early late => ?_⟩
    have unknown := ((rest.asked uri).1 late).1
    exact ((first.unknown uri).1 unknown).2 ((first.asked uri).1 early).2
  asked uri := by
    rw [List.mem_append, first.asked, rest.asked, first.unknown]
    tauto
  unknown uri := by
    rw [rest.unknown, first.unknown]
    tauto

theorem congr (learns : Learns keep before after asked met) (same : ∀ uri, met uri ↔ met' uri) :
    Learns keep before after asked met' :=
  (funext fun uri => propext (same uri) : met = met') ▸ learns

end Learns

/-- A verdict is asked for unless it is known. -/
theorem verdict_consults {verdicts : SortedMap String Bool} (agree : Agree keep verdicts)
    (uri : String) (w : World) : ∃ verdicts' asked,
      Consults keep (fun ask => verdict ask verdicts uri) w (keep uri, verdicts') w asked ∧
      Learns keep verdicts verdicts' asked fun u => u = uri := by
  cases known : verdicts.get? uri with
  | some kept =>
      refine ⟨verdicts, [], ?_, agree, List.nodup_nil, fun u => ?_, fun u => ?_⟩
      · have told : (fun ask => verdict ask verdicts uri) =
            fun _ : String → Script Bool => (pure (keep uri, verdicts) : Script _) := by
          funext ask
          rw [verdict, known, agree uri kept known]
        rw [told]
        exact .const keep rfl
      · simp only [List.not_mem_nil, false_iff, not_and]
        rintro unknown rfl
        rw [known] at unknown
        cases unknown
      · refine ⟨fun unknown => ⟨unknown, ?_⟩, fun both => both.1⟩
        rintro rfl
        rw [known] at unknown
        cases unknown
  | none =>
      refine ⟨verdicts.insert uri (keep uri), [uri], ?_, ?_, List.nodup_singleton uri, fun u => ?_,
        fun u => ?_⟩
      · have asks : (fun ask => verdict ask verdicts uri) =
            fun ask : String → Script Bool => ask uri >>= fun kept =>
              (pure (kept, verdicts.insert uri kept) : Script _) := by
          funext ask
          rw [verdict, known]
        rw [asks]
        exact (Consults.ask keep uri w).before rfl
      · intro u kept found
        rw [SortedMap.get?_insert] at found
        split at found
        next same => rw [← same, ← Option.some.inj found]
        · exact agree u kept found
      · rw [List.mem_singleton]
        constructor
        · rintro rfl
          exact ⟨known, rfl⟩
        · exact fun both => both.2
      · rw [SortedMap.get?_insert]
        by_cases same : uri = u
        · simp [same]
        · simp [same, Ne.symm same]

/-- Some record of a ledger hangs on a URI. -/
def Ledger.Sourced (l : Ledger) (uri : String) : Prop :=
  ∃ key r, l.get? key = some r ∧ r.sourceUri? = some uri

/-! ## The store of files -/

namespace FileStore

variable {S : String → Prop} {root : Path} {base : Address} {w : World} {l : Ledger}

/-- A sweep of the files of some keys meets the URIs of their records. -/
theorem sweepFiles_consults (distinct : Sha256.DistinctOn S) {keys : List RecordKey}
    (nodup : keys.Nodup) (shelved : Shelved S root base w.disk l)
    (there : ∀ key ∈ keys, (l.get? key).isSome) {report : SweepReport}
    (agree : Agree keep report.verdicts) :
    ∃ report' w' asked, Consults keep (fun ask => sweepFiles ask report
        (keys.map (ofRoot root).recordPath)) w report' w' asked ∧
      Learns keep report.verdicts report'.verdicts asked fun uri =>
        ∃ key ∈ keys, ∃ r, l.get? key = some r ∧ r.sourceUri? = some uri := by
  induction keys generalizing w l report with
  | nil => exact ⟨report, w, [], .const keep rfl, (Learns.refl agree).congr fun uri => by simp⟩
  | cons key keys ih =>
      obtain ⟨fresh, nodup⟩ := List.nodup_cons.1 nodup
      obtain ⟨r, found⟩ := Option.isSome_iff_exists.1 (there key (by simp))
      have used := shelved.used key r found
      have read := readEntry_run shelved distinct used
      have rest := fun k member => there k (List.mem_cons_of_mem key member)
      rw [found] at read
      -- What the rest of the keys have does not change when the record of this one is taken.
      have others : ∀ k ∈ keys, (l.remove key).get? k = l.get? k := by
        intro k member
        rw [Ledger.get?_remove, if_neg]
        rintro rfl
        exact fresh member
      have reads : (fun ask => sweepFiles ask report ((key :: keys).map (ofRoot root).recordPath)) =
          fun ask => readEntry ((ofRoot root).recordPath key) >>= _ := rfl
      rw [reads]
      cases source : r.sourceUri? with
      | none =>
          obtain ⟨report', w', asked, consults, learns⟩ := ih nodup shelved rest agree
          refine ⟨report', w', asked, .after read ?_, learns.congr fun uri => ?_⟩
          · simp only [source]
            exact consults
          · simp [found, source]
      | some uri =>
          obtain ⟨verdicts, asked, decided, learned⟩ := verdict_consults agree uri w
          have met : ∀ u, (u = uri ∨ ∃ k ∈ keys, ∃ r, l.get? k = some r ∧ r.sourceUri? = some u) ↔
              ∃ k ∈ key :: keys, ∃ r, l.get? k = some r ∧ r.sourceUri? = some u := by
            intro u
            simp [found, source, eq_comm]
          cases kept : keep uri with
          | true =>
              obtain ⟨report', w', more, consults, learns⟩ :=
                @ih w l nodup shelved rest { report with verdicts } learned.agree
              refine ⟨report', w', asked ++ more, .after read ?_, (learned.trans learns).congr met⟩
              simp only [source]
              refine decided.bind ?_
              simp only [kept, if_true]
              exact consults
          | false =>
              obtain ⟨d, gone, shelved', -⟩ := discard_run shelved distinct used
              obtain ⟨report', w', more, consults, learns⟩ :=
                @ih { w with disk := d } _ nodup shelved' (fun k member => by
                  rw [others k member]
                  exact rest k member) ⟨report.removed ++ [r], verdicts⟩ learned.agree
              have same : ∀ u, (∃ k ∈ keys, ∃ r', (l.remove key).get? k = some r' ∧ r'.sourceUri? = some u) ↔
                  ∃ k ∈ keys, ∃ r', l.get? k = some r' ∧ r'.sourceUri? = some u := fun u =>
                exists_congr fun k => and_congr_right fun member => by rw [others k member]
              refine ⟨report', w', asked ++ more, .after read ?_, (learned.trans (learns.congr same)).congr met⟩
              simp only [source]
              refine decided.bind ?_
              simp only [kept, Bool.false_eq_true, if_false]
              exact .after gone consults

theorem sweep_consults (distinct : Sha256.DistinctOn S) (shelved : Shelved S root base w.disk l)
    (keep : String → Bool) : ∃ report w' asked,
      Consults keep (fun ask => (ofRoot root).sweep ask) w report w' asked ∧
      asked.Nodup ∧ ∀ uri, uri ∈ asked ↔ l.Sourced uri := by
  obtain ⟨keys, listed, nodup, spec⟩ := allRecordFiles_run shelved distinct
  obtain ⟨report, w', asked, consults, learns⟩ := @sweepFiles_consults keep _ _ _ _ _ distinct _ nodup
    shelved (fun key member => (spec key).1 member) ⟨[], .empty⟩ .empty
  refine ⟨report, w', asked, .after listed consults, learns.nodup, fun uri => ?_⟩
  rw [learns.asked]
  constructor
  · rintro ⟨-, key, -, r, found, source⟩
    exact ⟨key, r, found, source⟩
  · rintro ⟨key, r, found, source⟩
    exact ⟨rfl, key, (spec key).2 (by rw [found]; rfl), r, found, source⟩

end FileStore

/-! ## The store of tables -/

namespace TableStore

variable {w : World} {l : Ledger}

theorem orphans_consults {verdicts : SortedMap String Bool} (agree : Agree keep verdicts)
    (candidates : List (RecordKey × String)) (w : World) : ∃ keys verdicts' asked,
      Consults keep (fun ask => orphans ask verdicts candidates) w (keys, verdicts') w asked ∧
      Learns keep verdicts verdicts' asked fun uri => ∃ key, (key, uri) ∈ candidates := by
  induction candidates generalizing verdicts with
  | nil => exact ⟨[], verdicts, [], .const keep rfl, (Learns.refl agree).congr fun uri => by simp⟩
  | cons candidate rest ih =>
      obtain ⟨key, uri⟩ := candidate
      obtain ⟨verdicts₁, asked, decided, learned⟩ := verdict_consults agree uri w
      obtain ⟨keys, verdicts₂, more, consults, learns⟩ := ih learned.agree
      refine ⟨_, verdicts₂, asked ++ more, decided.bind (consults.before rfl),
        (learned.trans learns).congr fun u => ?_⟩
      simp only [List.mem_cons, Prod.mk.injEq]
      constructor
      · rintro (rfl | ⟨k, member⟩)
        · exact ⟨key, .inl ⟨rfl, rfl⟩⟩
        · exact ⟨k, .inr member⟩
      · rintro ⟨k, ⟨-, same⟩ | member⟩
        · exact .inl same
        · exact .inr ⟨k, member⟩

theorem Carries.sweep_consults (carries : Carries w.database l) (keep : String → Bool) :
    ∃ result w' asked, Consults keep (fun ask => (sweep ask).run) w result w' asked ∧
      asked.Nodup ∧ ∀ uri, uri ∈ asked ↔ l.Sourced uri := by
  obtain ⟨candidates, read, -, spec⟩ := carries.candidates_ok
  obtain ⟨keys, verdicts, asked, consults, learns⟩ := @orphans_consults keep _ .empty candidates w
  have first : (Stored.transact Records.sweepCandidates).run.run w = (.ok candidates, w) :=
    Stored.outcome_transact_ok read
  have listed := Consults.const keep first
  have decided : Consults keep
      (fun ask => (ExceptT.lift (orphans ask .empty candidates) : Stored _).run) w (.ok (keys, verdicts)) w asked :=
    consults.lift
  let removal : Stored SweepReport := do
    let removed ← Stored.transact (Records.removeAll keys)
    return ⟨removed, verdicts⟩
  have removed := Consults.const keep (s := removal.run) (w := w) rfl
  refine ⟨_, _, _, listed.bind_ok (decided.bind_ok removed), ?_, fun uri => ?_⟩
  · simpa using learns.nodup
  · rw [List.nil_append, List.append_nil, learns.asked]
    constructor
    · rintro ⟨-, key, member⟩
      obtain ⟨r, found, source⟩ := (spec key uri).1 member
      exact ⟨key, r, found, source⟩
    · rintro ⟨key, r, found, source⟩
      exact ⟨rfl, key, (spec key uri).2 ⟨r, found, source⟩⟩

end TableStore

/-! ## Either store -/

/-- A record hangs on a URI that is refused. -/
def Record.Refused (keep : String → Bool) (r : Record) : Prop :=
  ∃ uri, r.sourceUri? = some uri ∧ keep uri = false

/-- What a sweep comes to: what it removed, what it asked, and the ledger that is left. -/
structure Ledger.Swept (l : Ledger) (keep : String → Bool) (removed : List Record)
    (asked : List String) (rest : Ledger) : Prop where
  /-- The records whose URI is refused are removed, as they were stored. -/
  mem_removed : ∀ r, r ∈ removed ↔ l.get? r.key = some r ∧ r.Refused keep
  /-- None is removed twice. -/
  nodup_removed : (removed.map Record.key).Nodup
  /-- Every other record is left, as it was stored. -/
  get?_rest : ∀ key r, rest.get? key = some r ↔ l.get? key = some r ∧ ¬ r.Refused keep
  /-- The time of the last build is left. -/
  builtAt_rest : rest.builtAt = l.builtAt
  /-- The URIs of the stored records are asked about. -/
  mem_asked : ∀ uri, uri ∈ asked ↔ l.Sourced uri
  /-- None is asked about twice. -/
  nodup_asked : asked.Nodup

theorem Ledger.swept_of_perm {l : Ledger} (keyed : l.Keyed) {removed : List Record}
    (orphans : removed.Perm (l.orphans keep)) {asked : List String} (nodup : asked.Nodup)
    (sourced : ∀ uri, uri ∈ asked ↔ l.Sourced uri) : l.Swept keep removed asked (l.sweep keep) where
  mem_removed r := by rw [orphans.mem_iff, mem_orphans keyed, isOrphan_iff, Record.Refused]
  nodup_removed := (orphans.map _).nodup_iff.2 (nodup_orphans keyed keep)
  get?_rest key r := by
    rw [get?_sweep, Option.filter_eq_some_iff, Record.Refused, ← isOrphan_iff, Bool.not_eq_true',
      Bool.not_eq_true]
  builtAt_rest := rfl
  mem_asked := sourced
  nodup_asked := nodup

section Stores

variable {S : String → Prop} {root : Path} {base : Address} {w : World} {l : Ledger} {b : Buffer}

/-- Whatever a store of either kind stands for, a sweep comes to what it should. -/
theorem RecordStore.Stands.sweep (distinct : Sha256.DistinctOn S) {backend : Backend}
    (stands : Stands backend S root base l w) (keep : String → Bool) : ∃ report w' asked,
      Consults keep (fun ask => ((ofBackend backend root).sweep ask).run) w (.ok report) w' asked ∧
      l.Swept keep report.removed asked (l.sweep keep) ∧
      Stands backend S root base (l.sweep keep) w' := by
  have keeps := RecordStore.keeps backend distinct root base
  obtain ⟨result, w', asked, consults, nodup, sourced⟩ : ∃ result w' asked,
      Consults keep (fun ask => ((ofBackend backend root).sweep ask).run) w result w' asked ∧
      asked.Nodup ∧ ∀ uri, uri ∈ asked ↔ l.Sourced uri := by
    cases backend with
    | file =>
        obtain ⟨report, w', asked, consults, spec⟩ := FileStore.sweep_consults distinct stands keep
        exact ⟨_, w', asked, consults.lift, spec⟩
    | sqlite => exact TableStore.Carries.sweep_consults stands.toCarries keep
  -- the answers to a plain function show what the sweep comes to
  obtain ⟨report, w'', done, orphans, stands'⟩ := @Keeps.sweep _ _ _ keeps _ _ keep stands
  obtain ⟨rfl, rfl⟩ := Prod.mk.inj (consults.run.symm.trans done)
  exact ⟨report, w', asked, consults,
    Ledger.swept_of_perm (keeps.keyed stands) orphans nodup sourced, stands'⟩

/-- Through a buffer the writes that wait are handed over first. -/
theorem Buffer.Stands.sweeps (distinct : Sha256.DistinctOn S) {backend : Backend}
    (stands : b.Stands S (RecordStore.Stands backend S root base) l w) (keep : String → Bool) :
    ∃ report w' asked, Consults keep
        (fun ask => Buffer.sweep (.ofBackend backend root) ask b) w (.ok report, b.clear) w' asked ∧
      l.Swept keep report.removed asked (l.sweep keep) ∧
      RecordStore.Stands backend S root base (l.sweep keep) w' := by
  have keeps := RecordStore.keeps backend distinct root base
  obtain ⟨w₁, flushed, below⟩ := stands.flush keeps
  obtain ⟨report, w', asked, consults, swept, stands'⟩ := below.sweep distinct keep
  have handed := Consults.action_const keep flushed
  exact ⟨report, w', asked, handed.action_bind (consults.ofScript b.clear), swept, stands'⟩

end Stores

/-! ## The theorem -/

namespace BufferCommand

/-- A store answers as the ledger the operations lead to, and a sweep of it comes to what it should. -/
structure SweptPlain (s : RecordStore) (S : String → Prop) (w : World) (commands : List BufferCommand)
    (keep : String → Bool) (w₁ : World) (report : SweepReport) (w₂ : World) (asked : List String)
    (rest : Ledger) : Prop where
  performed : ∃ earlier, outcome (performAllPlain s commands) w = (.ok earlier, w₁)
  answers : s.Answers S (commands.foldl after .empty) w₁
  done : outcome (s.sweep fun uri => return keep uri) w₁ = (.ok report, w₂)
  consults : Consults keep (fun ask => (s.sweep ask).run) w₁ (.ok report) w₂ asked
  swept : (commands.foldl after .empty).Swept keep report.removed asked rest
  answers_rest : s.Answers S rest w₂

/-- The same through a buffer, in which some of the writes may wait. -/
structure SweptBuffered (s : RecordStore) (S : String → Prop) (batchSize : Nat) (w : World)
    (commands : List BufferCommand) (keep : String → Bool) (b : Buffer) (w₁ : World)
    (report : SweepReport) (w₂ : World) (asked : List String) (rest : Ledger) : Prop where
  performed : ∃ earlier,
    Action.outcome (performAll s commands) (.ofBatchSize batchSize) w = (.ok earlier, b, w₁)
  answers : b.Answers s S (commands.foldl after .empty) w₁
  done : Action.outcome (Buffer.sweep s fun uri => return keep uri) b w₁ = (.ok report, b.clear, w₂)
  consults : Consults keep (fun ask => Buffer.sweep s ask b) w₁ (.ok report, b.clear) w₂ asked
  swept : (commands.foldl after .empty).Swept keep report.removed asked rest
  answers_rest : b.clear.Answers s S rest w₂

/-- **A sweep removes exactly the orphans.** For either store, directly and through a buffer of every
size, after every sequence of operations, for every decision. -/
theorem sweep_exact {S : String → Prop} {root : Path} {base : Address} {w : World}
    (distinct : Sha256.DistinctOn S) (fresh : w.Fresh root base) (backend : Backend) (batchSize : Nat)
    {commands : List BufferCommand} (within : ∀ c ∈ commands, c.Within S) (keep : String → Bool) :
    ∃ w₀, outcome (RecordStore.open backend root) w = (.ok (), w₀) ∧
      (∃ w₁ report w₂ asked rest, SweptPlain (.ofBackend backend root) S w₀ commands keep
        w₁ report w₂ asked rest) ∧
      ∃ b w₁ report w₂ asked rest, SweptBuffered (.ofBackend backend root) S batchSize w₀ commands keep
        b w₁ report w₂ asked rest := by
  have keeps := RecordStore.keeps backend distinct root base
  obtain ⟨w₀, opened, start⟩ := RecordStore.open_fresh backend S fresh
  refine ⟨w₀, opened, ?_, ?_⟩
  · obtain ⟨earlier, w₁, performed, -, stands⟩ := performAllPlain_ok keeps within start
    obtain ⟨report, w₂, asked, consults, swept, stands'⟩ := stands.sweep distinct keep
    exact ⟨w₁, report, w₂, asked, _, ⟨earlier, performed⟩, keeps.answers stands, consults.run, consults,
      swept, keeps.answers stands'⟩
  · have empty : (Buffer.ofBatchSize batchSize).Stands S (RecordStore.Stands backend S root base)
        .empty w₀ := ⟨Buffer.sound_of_empty rfl, _, start, (Buffer.onto_of_empty rfl _).symm⟩
    obtain ⟨earlier, w₁, performed, -, stands⟩ := performAll_ok keeps within empty
    obtain ⟨report, w₂, asked, consults, swept, stands'⟩ := stands.sweeps distinct keep
    have cleared : (commands.foldl next (.ofBatchSize batchSize)).clear.Stands S
        (RecordStore.Stands backend S root base) _ w₂ :=
      ⟨Buffer.sound_of_empty rfl, _, stands', (Buffer.onto_of_empty rfl _).symm⟩
    refine ⟨_, w₁, report, w₂, asked, _, ⟨earlier, performed⟩, stands.answers keeps, ?_, consults,
      swept, cleared.answers keeps⟩
    rw [Action.outcome, consults.run]

/-! ## Poles -/

/-- A located class, a constant, a member and a file, which all wait in a buffer of a hundred. The
class and the file hang on the one URI, which is asked about once and refused. -/
theorem sample_sweep_exact :
    ∃ w₀, outcome (RecordStore.open .sqlite ⟨[47, 105]⟩) newIndex = (.ok (), w₀) ∧
      (∃ w₁ report w₂ asked rest, SweptPlain (.ofBackend .sqlite ⟨[47, 105]⟩) sampleNames w₀
        ((sampleCommands.take 4).map .store) (· != "file:///a.php") w₁ report w₂ asked rest) ∧
      ∃ b w₁ report w₂ asked rest, SweptBuffered (.ofBackend .sqlite ⟨[47, 105]⟩) sampleNames 100 w₀
        ((sampleCommands.take 4).map .store) (· != "file:///a.php") b w₁ report w₂ asked rest := by
  refine sweep_exact sampleNames_distinct newIndex_fresh .sqlite 100 ?_ _
  intro c member
  obtain ⟨c, listed, rfl⟩ := List.mem_map.1 member
  exact sampleCommands_within c (List.mem_of_mem_take listed)

end BufferCommand

end SymbolIndex
