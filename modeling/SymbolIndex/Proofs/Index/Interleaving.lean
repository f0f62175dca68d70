import SymbolIndex.Proofs.Index.History

/-!
# Proofs.Index.Interleaving — a pass step by step, and the world in between

A pass drains the marks, looks at each candidate, reads files, applies their documents, clears their marks and
hands over what waits. Between any two of these steps a file may change, a mark be made or time pass
(`Step`). What one step does to the holdings hangs on its kind alone (`Step.change`), so a property of what is
stored or marked is kept along a run if each kind of step keeps it.

The steps are those of the program: a pass that nothing comes between is a run of them (`Undisturbed.of_run`,
`Undisturbed.of_indexFile`).
-/

namespace SymbolIndex

open Action (outcome)
open SymbolIndex.Text (decode?)

set_option autoImplicit false

/-- A pass may be told of anything that the site admits. -/
def Terms.any : Terms := ⟨fun _ _ => True, fun _ => True⟩

/-- A candidate, and what reading it gave. -/
abbrev Reading := Candidate × Except DiskError TextDocument

/-- How far a pass has come. `builds` says whether its end is noted as a build. -/
inductive Phase where
  /-- No pass is under way. -/
  | idle
  /-- Paths are left to be considered. -/
  | choosing (builds force : Bool) (left : List Path) (choice : Choice)
  /-- Files are due to be read, and those that were found to be applied. -/
  | indexing (builds : Bool) (due : List Candidate) (found : List Reading)
  /-- A document was applied, and its mark is not cleared yet. -/
  | clearing (builds : Bool) (due : List Candidate) (found : List Reading) (uri : String)

/-- What was read in a pass and is not applied yet. -/
def Phase.found : Phase → List Reading
  | .indexing _ _ found | .clearing _ _ found _ => found
  | .idle | .choosing .. => []

/-- An index between two steps: its state, the world, how far a pass has come, and the last time that the clock
told. -/
structure Moment where
  state : IndexState
  world : World
  phase : Phase
  told : Int64

/-- What a step is about. -/
inductive Event where
  /-- A pass comes a little further, or time passes. -/
  | quiet
  /-- A run takes the marks. -/
  | drained
  | read (c : Candidate)
  | applied (uri : String) (records : List Record)
  | cleared (uri : String)
  | marked (uri : String)
  /-- A pass comes to its end. -/
  | ended
  /-- The file at a path is changed. -/
  | edited (path : Path) (before after : World)

/-- The steps of passes, and of the world in between. Files are read and applied in any order. -/
inductive Step (x : Indexer) (site : Site) : Event → Moment → Moment → Prop where
  | begin {s s' : IndexState} {w w' : World} {told : Int64} {force : Bool} {paths : List Path}
      (done : outcome (x.lock >>= fun _ => x.provide) s w = (.ok paths, s', w')) :
      Step x site .drained ⟨s, w, .idle, told⟩
        ⟨s', w', .choosing true force paths { stats := { candidates := paths.length } }, told⟩
  | beginFile {s s' : IndexState} {w w' : World} {told : Int64} {path : Path}
      (done : outcome x.lock s w = (.ok (), s', w')) :
      Step x site .quiet ⟨s, w, .idle, told⟩
        ⟨s', w', .choosing false true [path] { stats := { candidates := 1 } }, told⟩
  | consider {s s' : IndexState} {w w' : World} {told : Int64} {builds force : Bool} {path : Path}
      {left : List Path} {choice choice' : Choice}
      (along : Action.Along (x.Told site .any) (x.consider force choice path) s w)
      (done : outcome (x.consider force choice path) s w = (.ok choice', s', w')) :
      Step x site .quiet ⟨s, w, .choosing builds force (path :: left) choice, told⟩
        ⟨s', w', .choosing builds force left choice', told⟩
  | choose {s : IndexState} {w : World} {told : Int64} {builds force : Bool} {choice : Choice} :
      Step x site .quiet ⟨s, w, .choosing builds force [] choice, told⟩
        ⟨s, w, .indexing builds choice.due.reverse [], told⟩
  | read {s : IndexState} {w : World} {told : Int64} {builds : Bool} {front back : List Candidate}
      {found : List Reading} {c : Candidate} :
      Step x site (.read c) ⟨s, w, .indexing builds (front ++ c :: back) found, told⟩
        ⟨s, w, .indexing builds (front ++ back) (found ++ [(c, c.documentIn w)]), told⟩
  | apply {s s' : IndexState} {w w' : World} {told : Int64} {builds : Bool} {due : List Candidate}
      {front back : List Reading} {c : Candidate} {document : TextDocument} {records : List Record} {written : Nat}
      (gave : x.extract document = some records) (admits : site.Admits document.uri records)
      (done : outcome (x.apply document.uri records) s w = (.ok written, s', w')) :
      Step x site (.applied document.uri records)
        ⟨s, w, .indexing builds due (front ++ (c, .ok document) :: back), told⟩
        ⟨s', w', .clearing builds due (front ++ back) document.uri, w.clock⟩
  | clear {s s' : IndexState} {w w' : World} {told : Int64} {builds : Bool} {due : List Candidate}
      {found : List Reading} {uri : String}
      (done : outcome (Indexer.onDirty (DirtyLog.clear uri) >>= fun _ => x.flushIfFull) s w =
        (.ok (), s', w')) :
      Step x site (.cleared uri) ⟨s, w, .clearing builds due found uri, told⟩
        ⟨s', w', .indexing builds due found, told⟩
  | fail {s s' : IndexState} {w w' : World} {told : Int64} {builds : Bool} {due : List Candidate}
      {front back : List Reading} {reading : Reading}
      (nothing : ∀ document, reading.2 = .ok document → x.extract document = none)
      (done : outcome (Indexer.onDirty (DirtyLog.mark reading.1.uri)) s w = (.ok (), s', w')) :
      Step x site (.marked reading.1.uri) ⟨s, w, .indexing builds due (front ++ reading :: back), told⟩
        ⟨s', w', .indexing builds due (front ++ back), told⟩
  | finishFile {s s' : IndexState} {w w' : World} {told : Int64}
      (done : outcome x.flush s w = (.ok (), s', w')) :
      Step x site .ended ⟨s, w, .indexing false [] [], told⟩ ⟨s', w', .idle, told⟩
  | finish {s s' s'' : IndexState} {w w' w'' : World} {told : Int64} {stats : IndexStats}
      (flushed : outcome x.flush s w = (.ok (), s', w'))
      (done : outcome (do
          let now ← Action.ofPlain Freshness.nowSeconds
          Indexer.onStore (x.store.markUpdated now)
          return stats : Indexed IndexStats) s' w' = (.ok stats, s'', w'')) :
      Step x site .ended ⟨s, w, .indexing true [] [], told⟩ ⟨s'', w'', .idle, w'.clock⟩
  | mark {s s' : IndexState} {w w' : World} {told : Int64} {phase : Phase} {uri : String}
      (done : outcome (Indexer.onDirty (DirtyLog.mark uri)) s w = (.ok (), s', w')) :
      Step x site (.marked uri) ⟨s, w, phase, told⟩ ⟨s', w', phase, told⟩
  /-- A file gets a new content, and the time of the clock. -/
  | edit {s : IndexState} {w w' : World} {told : Int64} {phase : Phase} {path : Path}
      (same : ∀ p, World.Same site.base p w w') (hosts : w'.disk.Hosts site.root site.base)
      (there : ∃ bytes, w'.disk.read path = .ok bytes) (timed : w'.mtime path = .ok (max 0 w'.clock))
      (onward : told ≤ w'.clock) :
      Step x site (.edited path w w') ⟨s, w, phase, told⟩ ⟨s, w', phase, w'.clock⟩
  /-- The clock does not go back behind what it told. -/
  | wait {s : IndexState} {w : World} {told time : Int64} {phase : Phase} (onward : told ≤ time) :
      Step x site .quiet ⟨s, w, phase, told⟩ ⟨s, { w with clock := time }, phase, told⟩

/-- Step after step. -/
inductive Steps (x : Indexer) (site : Site) : List Event → Moment → Moment → Prop where
  | done {m : Moment} : Steps x site [] m m
  | step {e : Event} {events : List Event} {m m' m'' : Moment} (first : Step x site e m m')
      (onward : Steps x site events m' m'') : Steps x site (e :: events) m m''

/-- What an index comes to by steps, after a history of whole operations. -/
inductive Interleaved (x : Indexer) (c : IndexConfig) (site : Site) : Moment → Prop where
  | start {s : IndexState} {w : World} (history : History x c site .any s w) :
      Interleaved x c site ⟨s, w, .idle, w.clock⟩
  | step {e : Event} {m m' : Moment} (before : Interleaved x c site m) (step : Step x site e m m') :
      Interleaved x c site m'

theorem Steps.one {x : Indexer} {site : Site} {e : Event} {m m' : Moment} (step : Step x site e m m') :
    Steps x site [e] m m' := .step step .done

theorem Steps.trans {x : Indexer} {site : Site} {events events' : List Event} {m m' m'' : Moment}
    (first : Steps x site events m m') (second : Steps x site events' m' m'') :
    Steps x site (events ++ events') m m'' := by
  induction first with
  | done => exact second
  | step one _ ih => exact .step one (ih second)

theorem Interleaved.steps {x : Indexer} {c : IndexConfig} {site : Site} {events : List Event} {m m' : Moment}
    (before : Interleaved x c site m) (steps : Steps x site events m m') : Interleaved x c site m' := by
  induction steps with
  | done => exact before
  | step one _ ih => exact ih (before.step one)

/-! ## What a step does to the holdings -/

/-- What a step of a kind does to the holdings. -/
inductive Holdings.Change (site : Site) : Event → Holdings → Holdings → Prop where
  | quiet {h : Holdings} : Change site .quiet h h
  | drained {h : Holdings} : Change site .drained h { h with marks := [] }
  | read {h : Holdings} {c : Candidate} : Change site (.read c) h h
  | applied {h : Holdings} {uri : String} {records : List Record} (admits : site.Admits uri records)
      (now : Int64) : Change site (.applied uri records) h (h.applied uri records now)
  | cleared {h : Holdings} {uri : String} : Change site (.cleared uri) h (h.cleared uri)
  | marked {h : Holdings} {uri : String} {marks : List String}
      (grown : marks = h.marks ∨ marks = h.marks ++ DirtyLog.added site.backend (Uri.normalize uri))
      (there : DirtyLog.added site.backend (Uri.normalize uri) = [Uri.normalize uri] →
        Uri.normalize uri ∈ marks) :
      Change site (.marked uri) h { h with marks := marks }
  | ended {h : Holdings} : Change site .ended h h
  | built {h : Holdings} (time : Int64) : Change site .ended h (h.builtAt time)
  | edited {h : Holdings} {path : Path} {w w' : World} : Change site (.edited path w w') h h

namespace Step

variable {x : Indexer} {c : IndexConfig} {site : Site} {e : Event} {m m' : Moment} {h : Holdings}

/-- Around the index nothing changes but by an edit, and the holdings change by the kind of the step. -/
theorem change (step : Step x site e m m') (made : x.Made c site) (stands : site.Stands h m.state m.world) :
    (∃ h', site.Stands h' m'.state m'.world ∧ h.Change site e h') ∧
      (site.Beside m.world m'.world ∨ ∃ path, e = .edited path m.world m'.world) := by
  have at_ := made.at_
  cases step with
  | begin done =>
      obtain ⟨listings, asks⟩ := made.asks
      obtain ⟨v, locked, stands₁, still₁⟩ := stands.lock_ok at_
      have provided := stands₁.provide_ok asks
      have beside : site.Beside _ v := ⟨still₁.toAround, Action.workingDirectory locked⟩
      have given := (Action.outcome_bind_ok locked).symm.trans done
      cases all : Listing.all v listings with
      | error e =>
          rw [all] at provided
          cases given.symm.trans provided
      | ok found =>
          rw [all] at provided
          obtain ⟨s', w', provided, stands', still'⟩ := provided
          obtain ⟨-, rfl, rfl⟩ := History.agree given provided
          exact ⟨⟨_, stands', .drained⟩, .inl (beside.trans ⟨still'.toAround, Action.workingDirectory provided⟩)⟩
  | beginFile done =>
      obtain ⟨v, locked, stands', still⟩ := stands.lock_ok at_
      obtain ⟨-, rfl, rfl⟩ := History.agree done locked
      exact ⟨⟨h, stands', .quiet⟩, .inl ⟨still.toAround, Action.workingDirectory locked⟩⟩
  | consider along done =>
      obtain ⟨-, rfl, rfl⟩ := History.agree done (stands.consider_ok at_ along)
      exact ⟨⟨h, stands, .quiet⟩, .inl (.refl _ _)⟩
  | choose => exact ⟨⟨h, stands, .quiet⟩, .inl (.refl _ _)⟩
  | read => exact ⟨⟨h, stands, .read⟩, .inl (.refl _ _)⟩
  | apply gave admits done =>
      obtain ⟨s', w', applied, stands', around, -⟩ := stands.apply_ok at_ admits
      obtain ⟨-, rfl, rfl⟩ := History.agree done applied
      exact ⟨⟨_, stands', .applied admits _⟩, .inl ⟨around, Action.workingDirectory done⟩⟩
  | @clear _ _ _ _ _ _ _ _ uri done =>
      obtain ⟨s₁, w₁, cleared, stands₁, still₁⟩ := stands.clear_ok uri
      obtain ⟨s₂, w₂, flushed, stands₂, still₂⟩ := stands₁.flushIfFull_ok at_
      obtain ⟨-, rfl, rfl⟩ := History.agree done ((Action.outcome_bind_ok cleared).trans flushed)
      exact ⟨⟨_, stands₂, .cleared⟩, .inl ⟨(still₁.trans still₂).toAround, Action.workingDirectory done⟩⟩
  | @fail _ _ _ _ _ _ _ _ _ reading _ done =>
      obtain ⟨marks, s', w', marked, stands', still, grown, there⟩ := stands.mark_ok reading.1.uri
      obtain ⟨-, rfl, rfl⟩ := History.agree done marked
      exact ⟨⟨_, stands', .marked grown there⟩, .inl ⟨still.toAround, Action.workingDirectory done⟩⟩
  | finishFile done =>
      obtain ⟨s', w', flushed, stands', still⟩ := stands.flush_ok at_
      obtain ⟨-, rfl, rfl⟩ := History.agree done flushed
      exact ⟨⟨h, stands', .ended⟩, .inl ⟨still.toAround, Action.workingDirectory done⟩⟩
  | @finish _ _ _ _ _ _ _ stats flushed done =>
      obtain ⟨s₁, w₁, flushed', stands₁, still₁⟩ := stands.flush_ok at_
      obtain ⟨-, rfl, rfl⟩ := History.agree flushed flushed'
      obtain ⟨time, w₂, noted, stands₂, around₂⟩ := stands₁.built_ok at_ stats
      obtain ⟨-, rfl, rfl⟩ := History.agree done noted
      exact ⟨⟨_, stands₂, .built time⟩, .inl ⟨still₁.toAround.trans around₂,
        (Action.workingDirectory done).trans (Action.workingDirectory flushed)⟩⟩
  | @mark _ _ _ _ _ _ uri done =>
      obtain ⟨marks, s', w', marked, stands', still, grown, there⟩ := stands.mark_ok uri
      obtain ⟨-, rfl, rfl⟩ := History.agree done marked
      exact ⟨⟨_, stands', .marked grown there⟩, .inl ⟨still.toAround, Action.workingDirectory done⟩⟩
  | edit same hosts => exact ⟨⟨h, stands.same same hosts, .edited⟩, .inr ⟨_, rfl⟩⟩
  | wait =>
      exact ⟨⟨h, stands.same (fun _ => ⟨fun _ _ => rfl, rfl⟩) stands.hosts, .quiet⟩,
        .inl ⟨⟨fun _ _ => rfl, id⟩, rfl⟩⟩

/-- What is read and not applied was so before, or is read now. -/
theorem found (step : Step x site e m m') {reading : Reading} (there : reading ∈ m'.phase.found) :
    reading ∈ m.phase.found ∨ ∃ c, e = .read c ∧ reading = (c, c.documentIn m.world) := by
  cases step with
  | begin | beginFile | consider | choose | finishFile | finish => cases there
  | clear | mark | edit | wait => exact .inl there
  | @read _ _ _ _ _ _ _ c =>
      rcases List.mem_append.1 there with there | new
      · exact .inl there
      · exact .inr ⟨c, rfl, List.mem_singleton.1 new⟩
  | apply | fail =>
      refine .inl ?_
      rcases List.mem_append.1 there with there | there
      · exact List.mem_append.2 (.inl there)
      · exact List.mem_append.2 (.inr (List.mem_cons_of_mem _ there))

/-- What is applied was extracted from what was read. -/
theorem source {uri : String} {records : List Record} (step : Step x site (.applied uri records) m m') :
    ∃ c document, (c, .ok document) ∈ m.phase.found ∧ document.uri = uri ∧ x.extract document = some records := by
  cases step with
  | @apply _ _ _ _ _ _ _ _ _ c document _ _ gave =>
      exact ⟨c, document, List.mem_append.2 (.inr List.mem_cons_self), rfl, gave⟩

end Step

theorem Interleaved.stands {x : Indexer} {c : IndexConfig} {site : Site} {m : Moment}
    (before : Interleaved x c site m) (made : x.Made c site) : ∃ h, site.Stands h m.state m.world := by
  induction before with
  | start history =>
      obtain ⟨h, stands, -⟩ := history.stands made
      exact ⟨h, stands⟩
  | step _ step ih =>
      obtain ⟨h, stands⟩ := ih
      obtain ⟨⟨h', stands', -⟩, -⟩ := step.change made stands
      exact ⟨h', stands'⟩

/-! ## A pass that nothing comes between -/

/-- A step that changes no file around the index. -/
def Event.Inner : Event → Prop
  | .edited .. => False
  | _ => True

/-- Steps with no edit between them. -/
def Undisturbed (x : Indexer) (site : Site) (m m' : Moment) : Prop :=
  ∃ events, Steps x site events m m' ∧ ∀ e ∈ events, e.Inner

namespace Undisturbed

variable {x : Indexer} {site : Site} {h : Holdings} {s s' : IndexState} {w w' w₀ : World} {told : Int64}
  {builds force : Bool} {choice : Choice} {paths : List Path} {due : List Candidate} {found : List Reading}
  {stats stats' : IndexStats} {c : Candidate}

theorem refl (x : Indexer) (site : Site) (m : Moment) : Undisturbed x site m m :=
  ⟨[], .done, fun _ none_ => absurd none_ List.not_mem_nil⟩

theorem step {e : Event} {m m' m'' : Moment} (first : Step x site e m m') (inner : e.Inner)
    (onward : Undisturbed x site m' m'') : Undisturbed x site m m'' := by
  obtain ⟨events, steps, rest⟩ := onward
  exact ⟨e :: events, .step first steps, List.forall_mem_cons.2 ⟨inner, rest⟩⟩

theorem one {e : Event} {m m' : Moment} (first : Step x site e m m') (inner : e.Inner) :
    Undisturbed x site m m' := step first inner (.refl x site m')

theorem trans {m m' m'' : Moment} (first : Undisturbed x site m m') (second : Undisturbed x site m' m'') :
    Undisturbed x site m m'' := by
  obtain ⟨events, steps, inner⟩ := first
  obtain ⟨events', steps', inner'⟩ := second
  exact ⟨events ++ events', steps.trans steps', List.forall_mem_append.2 ⟨inner, inner'⟩⟩

theorem considered (stands : site.Stands h s w) (at_ : x.At site)
    (along : Action.Along (x.Told site .any) (paths.foldlM (x.consider force) choice) s w) :
    Undisturbed x site ⟨s, w, .choosing builds force paths choice, told⟩
      ⟨s, w, .choosing builds force [] (paths.foldl (h.considered w force) choice), told⟩ := by
  induction paths generalizing choice with
  | nil => exact .refl _ _ _
  | cons path paths ih =>
      rw [List.foldlM_cons] at along
      have first := stands.consider_ok at_ along.first
      exact .step (.consider along.first first) trivial (ih ((Action.along_bind first).1 along).2)

theorem reads (chunk : List Candidate) :
    Undisturbed x site ⟨s, w, .indexing builds (chunk ++ due) found, told⟩
      ⟨s, w, .indexing builds due (found ++ chunk.map fun c => (c, c.documentIn w)), told⟩ := by
  induction chunk generalizing found with
  | nil =>
      rw [List.map_nil, List.append_nil]
      exact .refl _ _ _
  | cons c chunk ih =>
      have first : Step x site (.read c) ⟨s, w, .indexing builds ([] ++ c :: (chunk ++ due)) found, told⟩
          ⟨s, w, .indexing builds ([] ++ (chunk ++ due)) (found ++ [(c, c.documentIn w)]), told⟩ := .read
      rw [List.map_cons, List.append_cons]
      exact .step first trivial ih

/-- A file that was read is applied and its mark cleared, or it is marked. -/
theorem taken (own : c = .ofPath c.path)
    (read : x.Told site .any _ (.read c.path) (w₀.disk.read c.path))
    (done : outcome (x.indexRead stats (c, c.documentIn w₀)) s w = (.ok stats', s', w')) :
    ∃ told', Undisturbed x site ⟨s, w, .indexing builds due ((c, c.documentIn w₀) :: found), told⟩
      ⟨s', w', .indexing builds due found, told'⟩ := by
  have failed : (∀ document, c.documentIn w₀ = .ok document → x.extract document = none) →
      outcome (Indexer.fail stats c.uri) s w = (.ok stats', s', w') →
      ∃ told', Undisturbed x site ⟨s, w, .indexing builds due ((c, c.documentIn w₀) :: found), told⟩
        ⟨s', w', .indexing builds due found, told'⟩ := by
    intro nothing done
    obtain ⟨⟨⟩, s₁, w₁, marked, rest⟩ := Action.outcome_bind_eq_ok.1 done
    cases rest
    exact ⟨told, .one (@Step.fail _ _ _ _ _ _ _ _ _ [] found (c, _) nothing marked) trivial⟩
  cases there : c.documentIn w₀ with
  | error e =>
      rw [there] at done failed
      exact failed nofun done
  | ok document =>
      rw [there] at done failed
      have uri : document.uri = c.uri := by
        obtain ⟨-, -, -, -, rfl⟩ := Candidate.documentIn_eq_ok.1 there
        rfl
      have extracting : outcome (x.indexDocument stats document) s w = (.ok stats', s', w') := done
      rw [Indexer.indexDocument] at extracting
      cases gave : x.extract document with
      | none =>
          rw [gave] at extracting
          refine failed (fun d same => ?_) (uri ▸ extracting)
          cases same
          exact gave
      | some records =>
          rw [gave] at extracting
          obtain ⟨written, s₁, w₁, applied, rest⟩ := Action.outcome_bind_eq_ok.1 extracting
          obtain ⟨⟨⟩, s₂, w₂, cleared, rest⟩ := Action.outcome_bind_eq_ok.1 rest
          obtain ⟨⟨⟩, s₃, w₃, flushed, rest⟩ := Action.outcome_bind_eq_ok.1 rest
          cases rest
          have apply : Step x site (.applied document.uri records)
              ⟨s, w, .indexing builds due ([] ++ (c, .ok document) :: found), told⟩
              ⟨s₁, w₁, .clearing builds due ([] ++ found) document.uri, w.clock⟩ :=
            .apply gave (read.document own there gave).1 applied
          have clear : Step x site (.cleared document.uri)
              ⟨s₁, w₁, .clearing builds due found document.uri, w.clock⟩
              ⟨s₃, w₃, .indexing builds due found, w.clock⟩ :=
            .clear ((Action.outcome_bind_ok cleared).trans flushed)
          exact ⟨_, .step apply trivial (.one clear trivial)⟩

theorem takenAll {cs : List Candidate} (own : ∀ c ∈ cs, c = .ofPath c.path)
    (read : ∀ c ∈ cs, x.Told site .any _ (.read c.path) (w₀.disk.read c.path))
    (done : outcome ((cs.map fun c => (c, c.documentIn w₀)).foldlM x.indexRead stats) s w = (.ok stats', s', w')) :
    ∃ told', Undisturbed x site
      ⟨s, w, .indexing builds due (cs.map fun c => (c, c.documentIn w₀)), told⟩
      ⟨s', w', .indexing builds due [], told'⟩ := by
  induction cs generalizing s w stats told with
  | nil =>
      cases done
      exact ⟨told, .refl _ _ _⟩
  | cons c cs ih =>
      rw [List.map_cons, List.foldlM_cons] at done
      obtain ⟨stats₁, s₁, w₁, first, rest⟩ := Action.outcome_bind_eq_ok.1 done
      obtain ⟨told₁, one⟩ := @taken x site s s₁ w w₁ w₀ told builds due
        (cs.map fun c => (c, c.documentIn w₀)) stats stats₁ c (own c (by simp)) (read c (by simp)) first
      obtain ⟨told', onward⟩ := @ih s₁ w₁ told₁ stats₁ (fun c' member => own c' (by simp [member]))
        (fun c' member => read c' (by simp [member])) rest
      exact ⟨told', one.trans onward⟩

theorem chunksTaken {pieces : List (List Candidate)}
    (own : ∀ chunk ∈ pieces, ∀ c ∈ chunk, c = .ofPath c.path)
    (along : Action.Along (x.Told site .any) (pieces.foldlM x.indexChunk stats) s w)
    (done : outcome (pieces.foldlM x.indexChunk stats) s w = (.ok stats', s', w')) :
    ∃ told', Undisturbed x site ⟨s, w, .indexing builds pieces.flatten [], told⟩
      ⟨s', w', .indexing builds [] [], told'⟩ := by
  induction pieces generalizing s w stats told with
  | nil =>
      cases done
      exact ⟨told, .refl _ _ _⟩
  | cons chunk pieces ih =>
      rw [List.foldlM_cons] at along done
      obtain ⟨stats₁, s₁, w₁, first, rest⟩ := Action.outcome_bind_eq_ok.1 done
      have alongs := (Action.along_bind first).1 along
      have readAll := Candidate.outcome_readAll chunk s w
      have inner := alongs.1
      rw [Indexer.indexChunk] at first inner
      rw [Action.outcome_bind_ok readAll] at first
      have reading := @reads x site s w told builds pieces.flatten [] chunk
      obtain ⟨told₁, taking⟩ := @takenAll x site s s₁ w w₁ w told builds pieces.flatten stats stats₁ chunk
        (own chunk (by simp)) (Candidate.along_readAll inner.first) first
      obtain ⟨told', onward⟩ := @ih s₁ w₁ told₁ stats₁
        (fun chunk' member => own chunk' (by simp [member])) alongs.2 rest
      rw [List.flatten_cons]
      exact ⟨told', reading.trans (taking.trans onward)⟩

/-- A pass over some candidates is a run of steps, up to the last flush. -/
theorem of_indexCandidates (stands : site.Stands h s w) (at_ : x.At site)
    (along : Action.Along (x.Told site .any) (x.indexCandidates force paths) s w)
    (done : outcome (x.indexCandidates force paths) s w = (.ok stats', s', w')) :
    ∃ told' s₁ w₁, Undisturbed x site
        ⟨s, w, .choosing builds force paths { stats := { candidates := paths.length } }, told⟩
        ⟨s₁, w₁, .indexing builds [] [], told'⟩ ∧ outcome x.flush s₁ w₁ = (.ok (), s', w') := by
  rw [Indexer.indexCandidates] at along done
  have choosing := stands.considerAll_ok at_ along.first
  have chose := @considered x site h s w told builds force _ paths stands at_ along.first
  rw [Action.outcome_bind_ok choosing] at done
  obtain ⟨stats₁, s₁, w₁, indexed, rest⟩ := Action.outcome_bind_eq_ok.1 done
  obtain ⟨⟨⟩, s₂, w₂, flushed, rest⟩ := Action.outcome_bind_eq_ok.1 rest
  cases rest
  have along₂ := ((Action.along_bind choosing).1 along).2.first
  have own : ∀ chunk ∈ chunks x.readWidth (h.chosen w force paths).due.reverse, ∀ c ∈ chunk,
      c = .ofPath c.path := by
    intro chunk member c inside
    have listed : c ∈ (h.chosen w force paths).due := by
      rw [← List.mem_reverse, ← flatten_chunks x.readWidth (h.chosen w force paths).due.reverse]
      exact List.mem_flatten.2 ⟨chunk, member, inside⟩
    exact Holdings.due_considered (fun _ none_ => by cases none_) c listed
  obtain ⟨told', onward⟩ := @chunksTaken x site s s₁ w w₁ told builds _ _ _ own along₂ indexed
  rw [flatten_chunks] at onward
  exact ⟨told', s₁, w₁, chose.trans (.step .choose trivial onward), flushed⟩

/-- Indexing one file is a run of steps. -/
theorem of_indexFile {path : Path} (stands : site.Stands h s w) (at_ : x.At site)
    (along : Action.Along (x.Told site .any) (x.indexFile path) s w)
    (done : outcome (x.indexFile path) s w = (.ok stats', s', w')) :
    ∃ told', Undisturbed x site ⟨s, w, .idle, told⟩ ⟨s', w', .idle, told'⟩ := by
  rw [Indexer.indexFile] at along done
  obtain ⟨v, locked, stands₁, -⟩ := stands.lock_ok at_
  rw [Action.outcome_bind_ok locked] at done
  obtain ⟨told', s₁, w₁, passed, flushed⟩ :=
    of_indexCandidates stands₁ at_ ((Action.along_bind locked).1 along).2 done
  exact ⟨told', .step (.beginFile locked) trivial (passed.trans (.one (.finishFile flushed) trivial))⟩

/-- A whole run is a run of steps. -/
theorem of_run {c : IndexConfig} (stands : site.Stands h s w) (made : x.Made c site)
    (along : Action.Along (x.Told site .any) (x.run force) s w)
    (done : outcome (x.run force) s w = (.ok stats', s', w')) :
    ∃ told', Undisturbed x site ⟨s, w, .idle, told⟩ ⟨s', w', .idle, told'⟩ := by
  have at_ := made.at_
  obtain ⟨listings, asks⟩ := made.asks
  rw [Indexer.run] at along done
  obtain ⟨v, locked, stands₁, -⟩ := stands.lock_ok at_
  rw [Action.outcome_bind_ok locked] at done
  obtain ⟨paths, s₁, w₁, provided, rest⟩ := Action.outcome_bind_eq_ok.1 done
  obtain ⟨stats₁, s₂, w₂, indexed, noted⟩ := Action.outcome_bind_eq_ok.1 rest
  have along₁ := ((Action.along_bind provided).1 ((Action.along_bind locked).1 along).2).2.first
  have begin_ : Step x site .drained ⟨s, w, .idle, told⟩
      ⟨s₁, w₁, .choosing true force paths { stats := { candidates := paths.length } }, told⟩ :=
    .begin ((Action.outcome_bind_ok locked).trans provided)
  obtain ⟨⟨h₁, stands₂, -⟩, -⟩ := begin_.change made stands
  obtain ⟨told', s₃, w₃, passed, flushed⟩ := of_indexCandidates stands₂ at_ along₁ indexed
  obtain ⟨now, s₄, w₄, ticked, written⟩ := Action.outcome_bind_eq_ok.1 noted
  obtain ⟨⟨⟩, s₅, w₅, marked, rest⟩ := Action.outcome_bind_eq_ok.1 written
  rw [Action.outcome_pure] at rest
  cases rest
  exact ⟨_, .step begin_ trivial (passed.trans (.one (.finish flushed noted) trivial))⟩

end Undisturbed

end SymbolIndex
