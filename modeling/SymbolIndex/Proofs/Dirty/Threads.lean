import SymbolIndex.Proofs.Dirty.Crowd
import SymbolIndex.Proofs.Dirty.Handles

/-!
# Proofs.Dirty.Threads — one handle on a table of marks, used by several threads

A handle has two locks, on what it remembers and on the database. A mark and a drain hold the first one until they
are done, also while they use the database. A clear releases it when it has forgotten its file, and deletes the
rows after that. So a request is up to three sections (`Stage`), between which other threads come in where the locks
let them (`Hall.turn`, `Hall.run`). A thread that is alone does what the request does (`Hall.undisturbed`).

What the handle remembers has a row as long as no mark adds its row between the two sections of a clear of the same
file (`Hall.Crosses`), and then a mark reaches the next drain: `remembered_has_row`. A mark that comes between the
two is remembered without a row, and is not made again (`forgotten_row_lost`).
-/

namespace SymbolIndex

open Action (outcome)

set_option autoImplicit false

namespace TableLog

open FileLog (Request Answer Event)

/-! ## Requests, one section at a time -/

/-- A request as an action of the handle. -/
def act : Request → Action TableLog DirtyError (List String)
  | .mark path => do
    TableLog.mark path
    return []
  | .drain => TableLog.drain
  | .clear path => do
    TableLog.clear path
    return []

/-- Where a thread stands in a request. -/
inductive Stage where
  | idle
  /-- A mark has found that the handle does not remember it, and adds its row. -/
  | adding (path : String)
  /-- A mark has added its row, and is remembered next. -/
  | added (path : String)
  /-- A drain takes the rows. -/
  | taking
  /-- A clear is forgotten, and deletes its rows. -/
  | deleting (path : String)
  deriving DecidableEq

namespace Stage

/-- The request that a thread serves. -/
def request : Stage → Request
  | .idle | .taking => .drain
  | .adding path | .added path => .mark path
  | .deleting path => .clear path

/-- Whether a thread holds the lock on what the handle remembers. -/
def locks : Stage → Bool
  | .adding _ | .added _ | .taking => true
  | .idle | .deleting _ => false

/-- The first section of a request: what the handle remembers decides a mark, and a clear is forgotten. -/
def start (log : TableLog) : Request → Option Answer × Stage × TableLog
  | .mark path =>
    if log.pending.contains (Uri.normalize path) then (some (.ok []), .idle, log) else (none, .adding path, log)
  | .drain => (none, .taking, log)
  | .clear path => (none, .deleting path, log.forget (Uri.normalize path))

/-- The next section of a thread: the answer if the request is done, and what is left of the handle and the world. -/
def step (log : TableLog) (w : World) : Stage → Option Answer × Stage × TableLog × World
  | .idle => (none, .idle, log, w)
  | .adding path =>
    match (Call.transact (insertMark (Uri.normalize path))).perform w with
    | (.ok (), w) => (none, .added path, log, w)
    | (.error e, w) => (some (.error (.database e)), .idle, log, w)
  | .added path => (some (.ok []), .idle, ⟨log.pending.insert (Uri.normalize path)⟩, w)
  | .taking =>
    match (Call.transact takeMarks).perform w with
    | (.ok entries, w) =>
      (some (.ok (firstOccurrences entries)), .idle, if entries ≠ [] then fresh else log, w)
    | (.error e, w) => (some (.error (.database e)), .idle, log, w)
  | .deleting path =>
    match (Call.transact (deleteMarks (Uri.normalize path))).perform w with
    | (.ok (), w) => (some (.ok []), .idle, log, w)
    | (.error e, w) => (some (.error (.database e)), .idle, log, w)

end Stage

/-- Threads that use one handle, the one among them that holds the lock on what the handle remembers, and the world
that keeps the table. -/
structure Hall where
  stage : Nat → Stage
  holder : Option Nat
  log : TableLog
  world : World

/-- What happens next. -/
inductive Turn where
  /-- A thread is given a request. -/
  | start (i : Nat) (request : Request)
  /-- A thread goes through its next section. -/
  | go (i : Nat)
  deriving DecidableEq

namespace Hall

/-- A thread has come to another stage, and holds the lock there or not. -/
def moved (h : Hall) (i : Nat) (stage : Stage) (log : TableLog) (w : World) : Hall where
  stage := Function.update h.stage i stage
  holder := if stage.locks then some i else if (h.stage i).locks then none else h.holder
  log := log
  world := w

/-- One section of one thread. A thread waits with its request while another one holds the lock. -/
def turn (h : Hall) : Turn → Option Event × Hall
  | .start i request =>
    if h.stage i = .idle ∧ h.holder = none then
      let (answer, stage, log) := Stage.start h.log request
      (answer.map (⟨i, request, ·⟩), h.moved i stage log h.world)
    else (none, h)
  | .go i =>
    let (answer, stage, log, w) := (h.stage i).step h.log h.world
    (answer.map (⟨i, (h.stage i).request, ·⟩), h.moved i stage log w)

/-- Section after section, with the answers that are given. -/
def run (h : Hall) : List Turn → List Event × Hall
  | [] => ([], h)
  | t :: later => ((h.turn t).1.toList ++ (run (h.turn t).2 later).1, (run (h.turn t).2 later).2)

theorem run_append (h : Hall) (before after : List Turn) :
    (h.run (before ++ after)).2 = ((h.run before).2.run after).2 := by
  induction before generalizing h with
  | nil => rfl
  | cons t before ih => exact ih _

/-! ### A thread alone -/

/-- The sections that follow the start of a request. -/
def rest : Request → Nat
  | .mark _ => 2
  | .drain | .clear _ => 1

theorem outcome_mark_known {log : TableLog} {path : String} (w : World)
    (known : log.pending.contains (Uri.normalize path) = true) :
    outcome (act (.mark path)) log w = (.ok [], log, w) :=
  Action.outcome_bind_ok (mark_known known)

theorem outcome_mark_new {log : TableLog} {path : String} (w : World)
    (unknown : ¬ log.pending.contains (Uri.normalize path) = true) :
    outcome (act (.mark path)) log w =
      match (Call.transact (insertMark (Uri.normalize path))).perform w with
      | (.ok (), w) => (.ok [], ⟨log.pending.insert (Uri.normalize path)⟩, w)
      | (.error e, w) => (.error (.database e), log, w) := by
  simp only [act, TableLog.mark, Action.outcome_bind, Action.outcome_get, if_neg unknown, Action.outcome_ask]
  rcases (Call.transact (insertMark (Uri.normalize path))).perform w with ⟨_ | _, w'⟩ <;> rfl

theorem outcome_drain (log : TableLog) (w : World) :
    outcome (act .drain) log w =
      match (Call.transact takeMarks).perform w with
      | (.ok entries, w) => (.ok (firstOccurrences entries), if entries ≠ [] then fresh else log, w)
      | (.error e, w) => (.error (.database e), log, w) := by
  simp only [act, TableLog.drain]
  rw [Action.outcome_bind, Action.outcome_ask]
  rcases (Call.transact takeMarks).perform w with ⟨_ | entries, w'⟩
  · rfl
  · cases entries <;> rfl

theorem outcome_clear (log : TableLog) (w : World) (path : String) :
    outcome (act (.clear path)) log w =
      match (Call.transact (deleteMarks (Uri.normalize path))).perform w with
      | (.ok (), w) => (.ok [], log.forget (Uri.normalize path), w)
      | (.error e, w) => (.error (.database e), log.forget (Uri.normalize path), w) := by
  simp only [act, TableLog.clear, Action.outcome_bind, Action.outcome_modify, Action.outcome_ask]
  rcases (Call.transact (deleteMarks (Uri.normalize path))).perform w with ⟨_ | _, w'⟩ <;> rfl

section

variable {h : Hall} {i : Nat}

theorem moved_idle (idle : h.stage i = .idle) (log : TableLog) (w : World) :
    h.moved i .idle log w = { h with log := log, world := w } := by
  have same : Function.update h.stage i .idle = h.stage := by rw [← idle, Function.update_eq_self]
  simp only [moved, idle, same, Stage.locks, Bool.false_eq_true, if_false]

/-- A thread that goes on alone. -/
theorem run_go (idle : h.stage i = .idle) (free : h.holder = none) (s : Stage) (log : TableLog) (w : World)
    (later : List Turn) :
    (h.moved i s log w).run (.go i :: later) =
      (((s.step log w).1.map (Event.mk i s.request)).toList ++
          ((h.moved i (s.step log w).2.1 (s.step log w).2.2.1 (s.step log w).2.2.2).run later).1,
        ((h.moved i (s.step log w).2.1 (s.step log w).2.2.1 (s.step log w).2.2.2).run later).2) := by
  have here : (h.moved i s log w).stage i = s := Function.update_self ..
  have again : ∀ (s' : Stage) (log' : TableLog) (w' : World),
      (h.moved i s log w).moved i s' log' w' = h.moved i s' log' w' := by
    intro s' log' w'
    rw [moved, here, moved, moved, Function.update_idem, idle, free]
    cases s <;> rfl
  have turned : (h.moved i s log w).turn (.go i) = ((s.step log w).1.map (Event.mk i s.request),
      h.moved i (s.step log w).2.1 (s.step log w).2.2.1 (s.step log w).2.2.2) := by
    rw [turn, here, ← again (s.step log w).2.1 (s.step log w).2.2.1 (s.step log w).2.2.2]
    rfl
  rw [run, turned]

end

/-- **A thread that is alone does what its request does.** -/
theorem undisturbed (h : Hall) {i : Nat} (idle : h.stage i = .idle) (free : h.holder = none) (request : Request) :
    h.run (.start i request :: List.replicate (rest request) (.go i)) =
      ([⟨i, request, (outcome (act request) h.log h.world).1⟩],
        { h with log := (outcome (act request) h.log h.world).2.1,
                 world := (outcome (act request) h.log h.world).2.2 }) := by
  rw [run, turn, if_pos ⟨idle, free⟩]
  cases request with
  | mark path =>
      rw [Stage.start]
      by_cases known : h.log.pending.contains (Uri.normalize path) = true
      · rw [if_pos known, outcome_mark_known h.world known]
        simp only [rest, List.replicate]
        rw [run_go idle free, run_go idle free]
        simp only [Stage.step, moved_idle idle]
        rfl
      · rw [if_neg known, outcome_mark_new h.world known]
        simp only [rest, List.replicate]
        rw [run_go idle free, run_go idle free, Stage.step]
        rcases (Call.transact (insertMark (Uri.normalize path))).perform h.world with ⟨_ | _, w'⟩ <;>
          simp only [Stage.step, moved_idle idle] <;> rfl
  | drain =>
      simp only [rest, List.replicate]
      rw [Stage.start, run_go idle free, Stage.step, outcome_drain]
      rcases (Call.transact takeMarks).perform h.world with ⟨_ | entries, w'⟩ <;>
        simp only [moved_idle idle] <;> rfl
  | clear path =>
      simp only [rest, List.replicate]
      rw [Stage.start, run_go idle free, Stage.step, outcome_clear]
      rcases (Call.transact (deleteMarks (Uri.normalize path))).perform h.world with ⟨_ | _, w'⟩ <;>
        simp only [moved_idle idle] <;> rfl

end Hall

/-! ## What a section can do -/

namespace Stage

/-- The next section of a thread when the table lists some marks. -/
def goes (log : TableLog) (marks : List String) : Stage → Option Answer × Stage × TableLog × List String
  | .idle => (none, .idle, log, marks)
  | .adding path => (none, .added path, log, marks ++ [Uri.normalize path])
  | .added path => (some (.ok []), .idle, ⟨log.pending.insert (Uri.normalize path)⟩, marks)
  | .taking => (some (.ok (firstOccurrences marks)), .idle, if marks ≠ [] then fresh else log, [])
  | .deleting path => (some (.ok []), .idle, log, marks.filter (· ≠ Uri.normalize path))

/-- A mark of a URI has added its row and is not remembered yet. -/
def Adds (uri : String) : Stage → Prop
  | .added path => Uri.normalize path = uri
  | _ => False

/-- A clear of a URI is forgotten and has not deleted its rows yet. -/
def Deletes (uri : String) : Stage → Prop
  | .deleting path => Uri.normalize path = uri
  | _ => False

theorem Adds.locks {uri : String} {s : Stage} (adds : s.Adds uri) : s.locks = true := by
  cases s with
  | added path => rfl
  | _ => exact adds.elim

end Stage

theorem perform_transact {α : Type} {action : Transaction α} {w : World} {a : α} {db : Database}
    (done : action w.database = .ok (a, db)) :
    (Call.transact action).perform w = (.ok a, { w with database := db }) := by
  rw [Call.perform, done]

/-- On a table that lists some marks every section succeeds. -/
theorem Stage.step_holds {w : World} {marks : List String} (holds : Holds w.database marks) (log : TableLog)
    (s : Stage) :
    ∃ db, s.step log w = ((s.goes log marks).1, (s.goes log marks).2.1, (s.goes log marks).2.2.1,
        { w with database := db }) ∧ Holds db (s.goes log marks).2.2.2 := by
  cases s with
  | idle => exact ⟨w.database, rfl, holds⟩
  | adding path =>
      obtain ⟨db, done, holds', -⟩ := holds.insertMark (Uri.normalize path)
      exact ⟨db, by rw [step, perform_transact done]; rfl, holds'⟩
  | added path => exact ⟨w.database, rfl, holds⟩
  | taking =>
      obtain ⟨db, done, holds', -⟩ := holds.takeMarks
      exact ⟨db, by rw [step, perform_transact done]; rfl, holds'⟩
  | deleting path =>
      obtain ⟨db, done, holds', -⟩ := holds.deleteMarks (Uri.normalize path)
      exact ⟨db, by rw [step, perform_transact done]; rfl, holds'⟩

namespace Hall

/-- Some thread has added the row of a URI that is not remembered yet. -/
def Adds (h : Hall) (uri : String) : Prop := ∃ i, (h.stage i).Adds uri

/-- Some thread is between the two sections of a clear of a URI. -/
def Deletes (h : Hall) (uri : String) : Prop := ∃ i, (h.stage i).Deletes uri

/-- A mark adds its row between the two sections of a clear of the same URI. -/
def Crosses (h : Hall) (uri : String) (t : Turn) : Prop :=
  h.Deletes uri ∧ ∃ i path, t = .go i ∧ h.stage i = .adding path ∧ Uri.normalize path = uri

/-- The threads that hold the lock are those that are in a section under it. -/
def Locked (h : Hall) : Prop := ∀ i, (h.stage i).locks = true ↔ h.holder = some i

section

variable {h : Hall} {i : Nat} {s : Stage} {log : TableLog} {w : World} {uri : String}

theorem stage_moved (h : Hall) (i : Nat) (s : Stage) (log : TableLog) (w : World) :
    (h.moved i s log w).stage i = s := Function.update_self ..

theorem stage_moved_of_ne (h : Hall) {i j : Nat} (other : j ≠ i) (s : Stage) (log : TableLog) (w : World) :
    (h.moved i s log w).stage j = h.stage j := Function.update_of_ne other ..

theorem Locked.free (locked : h.Locked) (free : h.holder = none) (i : Nat) : (h.stage i).locks = false := by
  cases locks : (h.stage i).locks with
  | false => rfl
  | true =>
      rw [(locked i).1 locks] at free
      cases free

theorem Locked.alone (locked : h.Locked) {i j : Nat} (one : (h.stage i).locks = true)
    (two : (h.stage j).locks = true) : i = j :=
  Option.some.inj (((locked i).1 one).symm.trans ((locked j).1 two))

/-- The lock is taken only by a thread that holds it or finds it free. -/
theorem Locked.moved (locked : h.Locked)
    (may : s.locks = true → (h.stage i).locks = true ∨ h.holder = none) : (h.moved i s log w).Locked := by
  intro j
  by_cases own : j = i
  · subst own
    rw [stage_moved, Hall.moved]
    cases s.locks with
    | true => simp
    | false =>
        cases held : (h.stage j).locks with
        | true => simp
        | false => simp [← locked j, held]
  · rw [stage_moved_of_ne h own, Hall.moved]
    cases locks : s.locks with
    | true =>
        have other : (h.stage j).locks = false := by
          rcases may locks with held | free
          · cases also : (h.stage j).locks with
            | false => rfl
            | true => exact absurd (locked.alone also held) own
          · exact locked.free free j
        simp [other, Ne.symm own]
    | false =>
        cases held : (h.stage i).locks with
        | true =>
            have other : (h.stage j).locks = false := by
              cases also : (h.stage j).locks with
              | false => rfl
              | true => exact absurd (locked.alone also held) own
            simp [other]
        | false => simp [locked j]

theorem adds_moved (adds : (h.moved i s log w).Adds uri) :
    s.Adds uri ∨ ∃ j, j ≠ i ∧ (h.stage j).Adds uri := by
  obtain ⟨j, there⟩ := adds
  by_cases own : j = i
  · subst own
    rw [stage_moved] at there
    exact .inl there
  · rw [stage_moved_of_ne h own] at there
    exact .inr ⟨j, own, there⟩

theorem deletes_moved (deletes : (h.moved i s log w).Deletes uri) : s.Deletes uri ∨ h.Deletes uri := by
  obtain ⟨j, there⟩ := deletes
  by_cases own : j = i
  · subst own
    rw [stage_moved] at there
    exact .inl there
  · rw [stage_moved_of_ne h own] at there
    exact .inr ⟨j, there⟩

end

/-- The table lists some marks; a URI that is remembered, or that a mark is about to remember, is among them, and
one that a clear is about to delete is neither. -/
structure Guarded (uri : String) (marks : List String) (h : Hall) : Prop where
  holds : Holds h.world.database marks
  locked : h.Locked
  remembered : uri ∈ h.log.pending → uri ∈ marks
  adds : h.Adds uri → uri ∈ marks
  deletes : h.Deletes uri → ¬ uri ∈ h.log.pending ∧ ¬ h.Adds uri

/-- The marks that a turn leaves. -/
def leaves (h : Hall) (marks : List String) : Turn → List String
  | .start _ _ => marks
  | .go i => ((h.stage i).goes h.log marks).2.2.2

variable {uri : String} {marks : List String} {h : Hall}

theorem Guarded.turn_go (guarded : Guarded uri marks h) (i : Nat) :
    ∃ db, h.turn (.go i) = (((h.stage i).goes h.log marks).1.map (Event.mk i (h.stage i).request),
        h.moved i ((h.stage i).goes h.log marks).2.1 ((h.stage i).goes h.log marks).2.2.1
          { h.world with database := db }) ∧ Holds db (h.leaves marks (.go i)) := by
  obtain ⟨db, step, holds⟩ := (h.stage i).step_holds guarded.holds h.log
  refine ⟨db, ?_, holds⟩
  rw [turn, step]

/-- What a thread that has come to another stage must see to, for what is remembered to stay in the table. -/
theorem Guarded.moved (guarded : Guarded uri marks h) {i : Nat} {s : Stage} {log : TableLog} {db : Database}
    {marks' : List String} (holds : Holds db marks')
    (may : s.locks = true → (h.stage i).locks = true ∨ h.holder = none)
    (remembered : uri ∈ log.pending → uri ∈ marks')
    (adds : (s.Adds uri ∨ ∃ j, j ≠ i ∧ (h.stage j).Adds uri) → uri ∈ marks')
    (deletes : (s.Deletes uri ∨ h.Deletes uri) →
      ¬ uri ∈ log.pending ∧ ¬ (s.Adds uri ∨ ∃ j, j ≠ i ∧ (h.stage j).Adds uri)) :
    Guarded uri marks' (h.moved i s log { h.world with database := db }) where
  holds := holds
  locked := guarded.locked.moved may
  remembered := remembered
  adds := fun there => adds (adds_moved there)
  deletes := fun there => ⟨(deletes (deletes_moved there)).1, fun also =>
    (deletes (deletes_moved there)).2 (adds_moved also)⟩

/-- A thread comes to a stage where it is about neither. -/
theorem Guarded.passes (guarded : Guarded uri marks h) {i : Nat} {s : Stage} {log : TableLog} {db : Database}
    {marks' : List String} (holds : Holds db marks')
    (may : s.locks = true → (h.stage i).locks = true ∨ h.holder = none) (neither : ¬ s.Adds uri ∧ ¬ s.Deletes uri)
    (remembered : uri ∈ log.pending → uri ∈ marks') (adds : h.Adds uri → uri ∈ marks')
    (deletes : h.Deletes uri → ¬ uri ∈ log.pending) :
    Guarded uri marks' (h.moved i s log { h.world with database := db }) := by
  have others : (s.Adds uri ∨ ∃ j, j ≠ i ∧ (h.stage j).Adds uri) → h.Adds uri := fun there =>
    (there.resolve_left neither.1).imp fun _ => And.right
  refine guarded.moved holds may remembered (fun there => adds (others there)) fun there => ?_
  have before : h.Deletes uri := there.resolve_left neither.2
  exact ⟨deletes before, fun also => (guarded.deletes before).2 (others also)⟩

/-- A thread that holds the lock, and is not about to remember an entry, leaves none that is. -/
theorem Guarded.unadded (guarded : Guarded uri marks h) {i : Nat} (locks : (h.stage i).locks = true)
    (not_ : ¬ (h.stage i).Adds uri) : ¬ h.Adds uri := fun ⟨_, adds⟩ =>
  not_ (guarded.locked.alone adds.locks locks ▸ adds)

/-- The first section of a request keeps what is remembered in the table. -/
theorem Guarded.turn_start (guarded : Guarded uri marks h) (i : Nat) (request : Request) :
    Guarded uri marks (h.turn (.start i request)).2 := by
  have passes : ∀ {s : Stage}, (s.locks = true → (h.stage i).locks = true ∨ h.holder = none) →
      ¬ s.Adds uri ∧ ¬ s.Deletes uri → Guarded uri marks (h.moved i s h.log h.world) := fun may neither =>
    guarded.passes guarded.holds may neither guarded.remembered guarded.adds fun there => (guarded.deletes there).1
  rw [Hall.turn]
  split
  next may =>
    cases request with
    | mark path =>
        rw [Stage.start]
        by_cases known : h.log.pending.contains (Uri.normalize path) = true
        · rw [if_pos known]
          exact passes (fun _ => .inr may.2) ⟨not_false, not_false⟩
        · rw [if_neg known]
          exact passes (fun _ => .inr may.2) ⟨not_false, not_false⟩
    | drain => exact passes (fun _ => .inr may.2) ⟨not_false, not_false⟩
    | clear path =>
        -- no thread is about to remember the URI: it would hold the lock
        have unheld : ∀ j, ¬ (h.stage j).Adds uri := fun j adds => by
          have free := guarded.locked.free may.2 j
          rw [adds.locks] at free
          cases free
        have apart : ¬ ((Stage.deleting path).Adds uri ∨ ∃ j, j ≠ i ∧ (h.stage j).Adds uri) := by
          rintro (own | ⟨j, -, adds⟩)
          · exact own
          · exact unheld j adds
        refine guarded.moved guarded.holds (fun _ => .inr may.2)
          (fun member => guarded.remembered (SortedSet.mem_erase.1 member).1) (fun adds => absurd adds apart)
          fun there => ⟨fun member => ?_, apart⟩
        obtain ⟨member, other⟩ := SortedSet.mem_erase.1 member
        rcases there with own | before
        · exact other own.symm
        · exact (guarded.deletes before).1 member
  next => exact guarded

/-- The next section of a thread keeps what is remembered in the table, unless a mark crosses a clear in it. -/
theorem Guarded.turn_next (guarded : Guarded uri marks h) {i : Nat} (uncrossed : ¬ h.Crosses uri (.go i)) :
    Guarded uri (h.leaves marks (.go i)) (h.turn (.go i)).2 := by
  obtain ⟨db, turned, holds⟩ := guarded.turn_go i
  rw [turned]
  rw [leaves] at holds ⊢
  cases here : h.stage i with
  | idle =>
      rw [here] at holds
      exact guarded.passes holds (fun locks => absurd locks Bool.false_ne_true) ⟨not_false, not_false⟩
        guarded.remembered guarded.adds fun there => (guarded.deletes there).1
  | adding path =>
      rw [here] at holds
      refine guarded.moved holds (fun _ => .inl (by rw [here]; rfl))
        (fun member => List.mem_append_left _ (guarded.remembered member)) ?_
        (fun there => (guarded.deletes (there.resolve_left id)).imp id ?_)
      · rintro (own | ⟨j, -, adds⟩)
        · exact List.mem_append_right _ (List.mem_singleton.2 own.symm)
        · exact List.mem_append_left _ (guarded.adds ⟨j, adds⟩)
      · rintro free (own | ⟨j, -, adds⟩)
        · exact uncrossed ⟨there.resolve_left id, i, path, rfl, here, own⟩
        · exact free ⟨j, adds⟩
  | added path =>
      rw [here] at holds
      have own : Uri.normalize path = uri → h.Adds uri := fun own => ⟨i, by rw [here]; exact own⟩
      refine guarded.passes holds (fun locks => absurd locks Bool.false_ne_true) ⟨not_false, not_false⟩
        (fun member => ?_) guarded.adds fun there member => ?_
      · rcases SortedSet.mem_insert.1 member with same | member
        · exact guarded.adds (own same.symm)
        · exact guarded.remembered member
      · obtain ⟨free, unadded⟩ := guarded.deletes there
        rcases SortedSet.mem_insert.1 member with same | member
        · exact unadded (own same.symm)
        · exact free member
  | taking =>
      rw [here] at holds
      have unadded : ¬ h.Adds uri := guarded.unadded (i := i) (by rw [here]; rfl) (by rw [here]; exact id)
      have forgotten : ¬ uri ∈ (if marks ≠ [] then fresh else h.log).pending := by
        split
        next => simp [fresh]
        next nothing =>
          intro member
          have listed := guarded.remembered member
          rw [not_not.1 nothing] at listed
          cases listed
      exact guarded.passes holds (fun locks => absurd locks Bool.false_ne_true) ⟨not_false, not_false⟩
        (fun member => absurd member forgotten) (fun there => absurd there unadded) fun _ => forgotten
  | deleting path =>
      have stays : uri ∈ marks → (uri ∈ h.log.pending ∨ h.Adds uri) →
          uri ∈ marks.filter (· ≠ Uri.normalize path) := fun listed kept => by
        refine List.mem_filter.2 ⟨listed, decide_eq_true fun own => ?_⟩
        obtain ⟨free, unadded⟩ := guarded.deletes ⟨i, by rw [here]; exact own.symm⟩
        exact kept.elim free unadded
      rw [here] at holds
      exact guarded.passes holds (fun locks => absurd locks Bool.false_ne_true) ⟨not_false, not_false⟩
        (fun member => stays (guarded.remembered member) (.inl member))
        (fun there => stays (guarded.adds there) (.inr there)) fun there => (guarded.deletes there).1

/-- **A turn keeps what is remembered in the table**, unless a mark crosses a clear in it. -/
theorem Guarded.turn (guarded : Guarded uri marks h) {t : Turn} (uncrossed : ¬ h.Crosses uri t) :
    Guarded uri (h.leaves marks t) (h.turn t).2 := by
  cases t with
  | start i request => exact guarded.turn_start i request
  | go i => exact guarded.turn_next uncrossed

/-! ### A mark until the next drain -/

/-- A turn gives a thread the clear of a URI. -/
def Clears (uri : String) : Turn → Prop
  | .start _ (.clear path) => Uri.normalize path = uri
  | _ => False

/-- A thread answers a drain. -/
def Drains (h : Hall) (t : Turn) : Prop := ∃ i answer, (h.turn t).1 = some ⟨i, .drain, answer⟩

/-- A thread answers that it has marked a URI. -/
def Marks (h : Hall) (uri : String) (t : Turn) : Prop :=
  ∃ i path, (h.turn t).1 = some ⟨i, .mark path, .ok []⟩ ∧ Uri.normalize path = uri

variable {t : Turn}

/-- Only a mark is answered in its first section, one that is remembered already. -/
theorem event_start {i j : Nat} {request request' : Request} {answer : Answer}
    (event : (h.turn (.start j request')).1 = some ⟨i, request, answer⟩) :
    ∃ path, request = .mark path ∧ request' = .mark path ∧ Uri.normalize path ∈ h.log.pending := by
  rw [turn] at event
  split at event
  next =>
    cases request' with
    | mark path =>
        rw [Stage.start] at event
        by_cases known : h.log.pending.contains (Uri.normalize path) = true
        · rw [if_pos known] at event
          cases event
          exact ⟨path, rfl, rfl, FileLog.contains_iff.1 known⟩
        · rw [if_neg known] at event
          cases event
    | drain | clear path => cases event
  next => cases event

theorem Marks.uncleared (marks_ : h.Marks uri t) : ¬ Clears uri t := by
  obtain ⟨i, path, event, -⟩ := marks_
  cases t with
  | start j request =>
      obtain ⟨_, -, same, -⟩ := event_start event
      rw [same]
      exact id
  | go j => exact id

/-- A mark that is answered has its row. -/
theorem Guarded.marked (guarded : Guarded uri marks h) (marks_ : h.Marks uri t) : uri ∈ h.leaves marks t := by
  obtain ⟨i, path, event, rfl⟩ := marks_
  cases t with
  | start j request =>
      obtain ⟨_, same, -, known⟩ := event_start event
      cases same
      exact guarded.remembered known
  | go j =>
      obtain ⟨db, turned, -⟩ := guarded.turn_go j
      rw [turned] at event
      rw [leaves]
      cases here : h.stage j with
      | added path' =>
          rw [here] at event
          cases event
          exact guarded.adds ⟨_, by rw [here]; rfl⟩
      | _ =>
          rw [here] at event
          cases event

/-- A drain answers what the table lists. -/
theorem Guarded.drained (guarded : Guarded uri marks h) {i : Nat} {answer : Answer}
    (event : (h.turn t).1 = some ⟨i, .drain, answer⟩) : answer = .ok (firstOccurrences marks) := by
  cases t with
  | start j request =>
      obtain ⟨_, same, -⟩ := event_start event
      cases same
  | go j =>
      obtain ⟨db, turned, -⟩ := guarded.turn_go j
      rw [turned] at event
      cases here : h.stage j with
      | taking =>
          rw [here] at event
          cases event
          rfl
      | _ =>
          rw [here] at event
          cases event

/-- A row waits while no thread clears its URI, and no drain is answered. -/
theorem Guarded.waits (guarded : Guarded uri marks h) (kept : ¬ h.Deletes uri) (undrained : ¬ h.Drains t)
    (listed : uri ∈ marks) : uri ∈ h.leaves marks t := by
  cases t with
  | start i request => exact listed
  | go i =>
      obtain ⟨db, turned, -⟩ := guarded.turn_go i
      rw [leaves]
      cases here : h.stage i with
      | idle | added path => exact listed
      | adding path => exact List.mem_append_left _ listed
      | taking =>
          rw [here] at turned
          exact absurd ⟨i, _, by rw [turned]; rfl⟩ undrained
      | deleting path =>
          refine List.mem_filter.2 ⟨listed, decide_eq_true fun own => kept ⟨i, ?_⟩⟩
          rw [here]
          exact own.symm

/-- A clear of a URI begins with its first section. -/
theorem Guarded.deletes_turn (guarded : Guarded uri marks h) (deletes : (h.turn t).2.Deletes uri) :
    Clears uri t ∨ h.Deletes uri := by
  cases t with
  | start i request =>
      rw [Hall.turn] at deletes
      split at deletes
      next =>
        cases request with
        | mark path =>
            rw [Stage.start] at deletes
            by_cases known : h.log.pending.contains (Uri.normalize path) = true
            · rw [if_pos known] at deletes
              exact .inr ((deletes_moved deletes).resolve_left id)
            · rw [if_neg known] at deletes
              exact .inr ((deletes_moved deletes).resolve_left id)
        | drain => exact .inr ((deletes_moved deletes).resolve_left id)
        | clear path => exact deletes_moved deletes
      next => exact .inr deletes
  | go i =>
      obtain ⟨db, turned, -⟩ := guarded.turn_go i
      rw [turned] at deletes
      refine .inr ((deletes_moved deletes).resolve_left ?_)
      cases h.stage i <;> exact id

/-! ### Runs -/

/-- No mark adds its row between the two sections of a clear of the same URI, in a run. -/
def Uncrossed (h : Hall) (uri : String) (turns : List Turn) : Prop :=
  ∀ earlier t later, turns = earlier ++ t :: later → ¬ (h.run earlier).2.Crosses uri t

theorem uncrossed_nil (h : Hall) (uri : String) : h.Uncrossed uri [] := fun earlier _ _ split =>
  absurd split.symm (by simp)

theorem Uncrossed.cons {later : List Turn} (first : ¬ h.Crosses uri t) (rest : (h.turn t).2.Uncrossed uri later) :
    h.Uncrossed uri (t :: later) := by
  intro earlier t' later' split
  cases earlier with
  | nil =>
      cases split
      exact first
  | cons t'' earlier =>
      cases split
      exact rest earlier t' later' rfl

theorem Uncrossed.first {later : List Turn} (uncrossed : h.Uncrossed uri (t :: later)) : ¬ h.Crosses uri t :=
  uncrossed [] t later rfl

theorem Uncrossed.rest {later : List Turn} (uncrossed : h.Uncrossed uri (t :: later)) :
    (h.turn t).2.Uncrossed uri later := fun earlier t' later' split =>
  uncrossed (t :: earlier) t' later' (by rw [split]; rfl)

theorem Uncrossed.before {before after : List Turn} (uncrossed : h.Uncrossed uri (before ++ after)) :
    h.Uncrossed uri before := fun earlier t later split =>
  uncrossed earlier t (later ++ after) (by rw [split]; simp)

theorem Uncrossed.after {before after : List Turn} (uncrossed : h.Uncrossed uri (before ++ after)) :
    (h.run before).2.Uncrossed uri after := fun earlier t later split => by
  rw [← run_append]
  exact uncrossed (before ++ earlier) t later (by rw [split, List.append_assoc])

/-- A run keeps what is remembered in the table. -/
theorem Guarded.run (guarded : Guarded uri marks h) {turns : List Turn} (uncrossed : h.Uncrossed uri turns) :
    ∃ marks', Guarded uri marks' (h.run turns).2 := by
  induction turns generalizing h marks with
  | nil => exact ⟨marks, guarded⟩
  | cons t later ih => exact ih (guarded.turn uncrossed.first) uncrossed.rest

/-- What a run is that clears a URI no more and drains nothing: at no turn is such a clear begun or a drain
answered. -/
def Calm (h : Hall) (uri : String) (turns : List Turn) : Prop :=
  ∀ earlier t later, turns = earlier ++ t :: later → ¬ Clears uri t ∧ ¬ (h.run earlier).2.Drains t

theorem Calm.rest {later : List Turn} (calm : h.Calm uri (t :: later)) : (h.turn t).2.Calm uri later :=
  fun earlier t' later' split => calm (t :: earlier) t' later' (by rw [split]; rfl)

/-- A row waits in a calm run. -/
theorem Guarded.run_waits (guarded : Guarded uri marks h) {turns : List Turn} (uncrossed : h.Uncrossed uri turns)
    (kept : ¬ h.Deletes uri) (calm : h.Calm uri turns) (listed : uri ∈ marks) :
    ∃ marks', Guarded uri marks' (h.run turns).2 ∧ uri ∈ marks' := by
  induction turns generalizing h marks with
  | nil => exact ⟨marks, guarded, listed⟩
  | cons t later ih =>
      obtain ⟨uncleared, undrained⟩ := calm [] t later rfl
      exact ih (guarded.turn uncrossed.first) uncrossed.rest
        (fun deletes => (guarded.deletes_turn deletes).elim uncleared kept) calm.rest
        (guarded.waits kept undrained listed)

/-- Threads at rest on a new handle. -/
def opened (w : World) : Hall := ⟨fun _ => .idle, none, fresh, w⟩

theorem guarded_opened {w : World} (holds : Holds w.database marks) (uri : String) :
    Guarded uri marks (opened w) where
  holds := holds
  locked _ := iff_of_false Bool.false_ne_true (nomatch ·)
  remembered member := absurd member (SortedSet.not_mem_empty uri)
  adds := fun ⟨_, adds⟩ => adds.elim
  deletes := fun ⟨_, deletes⟩ => deletes.elim

end Hall

/-! ## What is remembered has a row -/

/-- **What a handle remembers has a row**, in every run of its threads in which no mark of the URI crosses a clear of
it. Then a mark that is answered when no such clear is in progress is in the answer of the next drain, if no such
clear is begun before. -/
theorem remembered_has_row {w : World} {marks : List String} (holds : Holds w.database marks) {uri : String}
    {turns : List Turn} (uncrossed : (Hall.opened w).Uncrossed uri turns) :
    (uri ∈ ((Hall.opened w).run turns).2.log.pending → HasRow ((Hall.opened w).run turns).2.world.database uri) ∧
      ∀ before t after, turns = before ++ t :: after →
        ((Hall.opened w).run before).2.Marks uri t →
        ¬ ((Hall.opened w).run before).2.Deletes uri →
        (((Hall.opened w).run before).2.turn t).2.Calm uri after →
        ∀ last i answer, (((Hall.opened w).run turns).2.turn last).1 = some ⟨i, .drain, answer⟩ →
          ∃ uris, answer = .ok uris ∧ uri ∈ uris := by
  have start := Hall.guarded_opened holds uri
  constructor
  · intro member
    obtain ⟨marks', guarded⟩ := start.run uncrossed
    exact guarded.holds.hasRow_iff.2 (guarded.remembered member)
  · rintro before t after rfl marked kept calm last i answer event
    obtain ⟨marks₁, guarded₁⟩ := start.run uncrossed.before
    have onward := uncrossed.after
    have kept' : ¬ (((Hall.opened w).run before).2.turn t).2.Deletes uri := fun deletes =>
      (guarded₁.deletes_turn deletes).elim marked.uncleared kept
    obtain ⟨marks₂, guarded₂, listed⟩ :=
      (guarded₁.turn onward.first).run_waits onward.rest kept' calm (guarded₁.marked marked)
    rw [Hall.run_append] at event
    exact ⟨_, guarded₂.drained event, mem_firstOccurrences.2 listed⟩

/-- A table without marks. -/
def sampleTable : World := ⟨Disk.single [105], { dirty := some [] }, 0⟩

theorem sampleTable_holds : Holds sampleTable.database [] := ⟨[], rfl, rfl⟩

/-- A mark that waits for the lock while a clear of its file goes on: the clear deletes its rows first. -/
def sampleTurns : List Turn :=
  [.start 1 (.clear "/x"), .start 0 (.mark "/x"), .go 1, .go 0, .go 0]

/-- The mark has its row in the end, and the drain answers it. -/
theorem sample_remembered_has_row :
    HasRow ((Hall.opened sampleTable).run sampleTurns).2.world.database "file:///x" ∧
      ∃ uris, (((Hall.opened sampleTable).run (sampleTurns ++ [.start 1 .drain])).2.turn (.go 1)).1 =
        some ⟨1, .drain, .ok uris⟩ ∧ "file:///x" ∈ uris := by
  have uncrossed : (Hall.opened sampleTable).Uncrossed "file:///x" (sampleTurns ++ [.start 1 .drain]) := by
    refine .cons ?_ (.cons ?_ (.cons ?_ (.cons ?_ (.cons ?_ (.cons ?_ (Hall.uncrossed_nil _ _))))))
    · rintro ⟨-, i, path, turn, -⟩
      cases turn
    · rintro ⟨-, i, path, turn, -⟩
      cases turn
    · rintro ⟨-, i, path, turn, stage, -⟩
      cases turn
      cases stage
    · rintro ⟨⟨i, deletes⟩, -⟩
      rcases i with _ | _ | i <;> exact deletes
    · rintro ⟨⟨i, deletes⟩, -⟩
      rcases i with _ | _ | i <;> exact deletes
    · rintro ⟨⟨i, deletes⟩, -⟩
      rcases i with _ | _ | i <;> exact deletes
  have event : (((Hall.opened sampleTable).run (sampleTurns ++ [.start 1 .drain])).2.turn (.go 1)).1 =
      some ⟨1, .drain, .ok ["file:///x"]⟩ := by decide +kernel
  have member : "file:///x" ∈ ((Hall.opened sampleTable).run sampleTurns).2.log.pending :=
    FileLog.contains_iff.1 (by decide +kernel)
  refine ⟨(remembered_has_row sampleTable_holds uncrossed.before).1 member, ?_⟩
  have kept : ¬ ((Hall.opened sampleTable).run (sampleTurns.take 4)).2.Deletes "file:///x" := by
    rintro ⟨i, deletes⟩
    rcases i with _ | _ | i <;> exact deletes
  have calm : ((Hall.opened sampleTable).run sampleTurns).2.Calm "file:///x" [.start 1 .drain] := by
    intro earlier t later split
    rcases earlier with _ | ⟨_, _ | ⟨_, earlier⟩⟩ <;> cases split
    exact ⟨id, fun ⟨_, _, event⟩ => nomatch event⟩
  obtain ⟨uris, same, member⟩ := (remembered_has_row sampleTable_holds uncrossed).2 (sampleTurns.take 4) (.go 0)
    [.start 1 .drain] rfl ⟨0, "/x", by decide +kernel, by decide +kernel⟩ kept calm (.go 1) 1 _ event
  exact ⟨uris, event.trans (by rw [same]), member⟩

/-- A mark that adds its row between the two sections of a clear of its file. -/
def crossedTurns : List Turn :=
  [.start 1 (.clear "/x"), .start 0 (.mark "/x"), .go 0, .go 0, .go 1]

/-- **A mark that crosses a clear is remembered without a row**: no call is in progress any more, the next mark of the
file is answered as made, and the drain after it answers nothing. -/
theorem forgotten_row_lost :
    (∀ i, ((Hall.opened sampleTable).run crossedTurns).2.stage i = .idle) ∧
      "file:///x" ∈ ((Hall.opened sampleTable).run crossedTurns).2.log.pending ∧
      ¬ HasRow ((Hall.opened sampleTable).run crossedTurns).2.world.database "file:///x" ∧
      (((Hall.opened sampleTable).run crossedTurns).2.run [.start 0 (.mark "/x"), .start 0 .drain, .go 0]).1 =
        [⟨0, .mark "/x", .ok []⟩, ⟨0, .drain, .ok []⟩] := by
  have empty : ((Hall.opened sampleTable).run crossedTurns).2.world.database.dirty = some [] := by decide +kernel
  refine ⟨fun i => ?_, FileLog.contains_iff.1 (by decide +kernel), fun ⟨rows, there, row, member, _⟩ => ?_,
    by decide +kernel⟩
  · rcases i with _ | _ | i <;> rfl
  · rw [empty] at there
    cases there
    cases member

end TableLog

end SymbolIndex
