import SymbolIndex.Proofs.Dirty.Handles
import SymbolIndex.Proofs.Dirty.Places
import SymbolIndex.Proofs.System.Faults

/-!
# Proofs.Dirty.Failing — the operations of a log when calls fail

An operation of a log that fails leaves every entry listed, wherever its calls failed: a mark adds its entry with the
last call, a clear takes its own out with the last call, and a drain moves the log aside before it removes it. So a
drain that fails loses nothing, unless it has moved the log in place of what another drain left (`Awaits`). The line
of a mark is one call, and a call that fails writes nothing of it.

A log lists its entries, whatever lies aside (`Enlists`); when nothing does, these are all (`Tidy`). A mark or a clear
that succeeds does what it does when no call fails, and one that fails leaves the entries as they are
(`Enlists.goes_mark`, `Enlists.goes_clear`). Neither moves anything aside.
-/

namespace SymbolIndex

set_option autoImplicit false

namespace FileLog

open Disk (Hosts)

variable {root : Path} {base : Address} {σ : Slots} {known : SortedSet String} {l l' : FileLog} {w w' : World}
  {t : List Answered}

/-- A handle on the log under a root. -/
abbrev handle (root : Path) (known : SortedSet String) : FileLog := ⟨root.child fileName, known⟩

theorem drainingPath_handle : drainingPath (handle root known).path = Part.draining.path root := drainingPath_below root

/-! ## Calls that may fail -/

namespace Filed

variable {p q : Part}

theorem goes_read (filed : Filed root base σ w.disk) {answer : Except DiskError Text.Bytes}
    (goes : (Call.read (p.path root)).Goes w answer w') :
    w' = w ∧ (found answer = .ok (σ.entries p) ∨ ∃ e, found answer = .error e) := by
  cases goes with
  | performed =>
      obtain ⟨answer, performed, told⟩ := filed.read p
      rw [performed]
      exact ⟨rfl, .inl told⟩
  | failed fault =>
      obtain ⟨e, there, rfl⟩ : DiskFault answer := fault
      refine ⟨rfl, .inr ⟨e, ?_⟩⟩
      cases e <;> first | exact absurd rfl there | rfl

theorem goes_openFile (filed : Filed root base σ w.disk) (truncate : Bool) {answer : Except DiskError Nat}
    (goes : (cond truncate (Call.create (p.path root)) (Call.openAppend (p.path root))).Goes w answer w') :
    (answer = .ok (σ.numberAt p) ∧ Filed root base (σ.openFile truncate p) w'.disk ∧
        Own base w'.disk (σ.numberAt p)) ∨ (w' = w ∧ ∃ e, answer = .error e) := by
  cases goes with
  | performed =>
      obtain ⟨d, opened, filed', -, own⟩ := filed.openFile truncate p
      have performed : (cond truncate (Call.create (p.path root)) (Call.openAppend (p.path root))).perform w =
          (.ok (σ.numberAt p), { w with disk := d }) := by
        cases truncate <;> rw [cond, Call.perform, opened] <;> rfl
      rw [performed]
      exact .inl ⟨rfl, filed', own⟩
  | failed fault =>
      obtain ⟨e, -, rfl⟩ : DiskFault answer := by cases truncate <;> exact fault
      exact .inr ⟨rfl, e, rfl⟩

theorem goes_append (filed : Filed root base σ w.disk) {number : Nat} (own : Own base w.disk number)
    {added : List String} {answer : Except DiskError Unit}
    (goes : (Call.append number (contentOf added)).Goes w answer w') :
    (answer = .ok () ∧ Filed root base (σ.append number added) w'.disk) ∨ (w' = w ∧ ∃ e, answer = .error e) := by
  cases goes with
  | performed => exact .inl ⟨rfl, (filed.append own added).1⟩
  | failed fault =>
      obtain ⟨e, -, rfl⟩ : DiskFault answer := fault
      exact .inr ⟨rfl, e, rfl⟩

theorem goes_rename (filed : Filed root base σ w.disk) (other : p ≠ q) {answer : Except DiskError Unit}
    (goes : (Call.rename (p.path root) (q.path root)).Goes w answer w') :
    (answer = .ok () ∧ σ.place p ≠ none ∧ Filed root base (σ.rename p q) w'.disk) ∨
      (w' = w ∧ ((answer = .error .notFound ∧ σ.place p = none) ∨ ∃ e, e ≠ .notFound ∧ answer = .error e)) := by
  cases goes with
  | performed =>
      have renamed := filed.rename other
      cases place : σ.place p with
      | none =>
          rw [place] at renamed
          rw [renamed]
          exact .inr ⟨rfl, .inl ⟨rfl, rfl⟩⟩
      | some sheet =>
          rw [place] at renamed
          obtain ⟨d, performed, filed', -⟩ := renamed
          rw [performed]
          exact .inl ⟨rfl, by simp, filed'⟩
  | failed fault => exact .inr ⟨rfl, .inr fault⟩

theorem goes_removeFile (filed : Filed root base σ w.disk) {answer : Except DiskError Unit}
    (goes : (Call.removeFile (p.path root)).Goes w answer w') :
    ((answer = .ok () ∨ answer = .error .notFound) ∧ Filed root base (σ.put p none) w'.disk) ∨
      (w' = w ∧ ∃ e, e ≠ .notFound ∧ answer = .error e) := by
  cases goes with
  | performed =>
      obtain ⟨answer, d, performed, told, filed', -⟩ := filed.removeFile p
      rw [performed]
      exact .inl ⟨told, filed'⟩
  | failed fault => exact .inr ⟨rfl, fault⟩

variable {α : Type} {r : Except DirtyError α}

/-- What begins by opening a place goes on with its file, or has failed. -/
theorem goes_openFile_bind (filed : Filed root base σ w.disk) (truncate : Bool)
    {next : Nat → Action FileLog DirtyError α}
    (goes : (Action.ask DirtyError.io (cond truncate (.create (p.path root)) (.openAppend (p.path root))) >>=
      next).Goes l w t r l' w') :
    (∃ e, r = .error e ∧ l' = l ∧ w' = w) ∨
      ∃ w₁ t', Filed root base (σ.openFile truncate p) w₁.disk ∧ Own base w₁.disk (σ.numberAt p) ∧
        (next (σ.numberAt p)).Goes l w₁ t' r l' w' := by
  rcases Action.goes_bind.1 goes with ⟨e, rfl, first⟩ | ⟨file, l₁, w₁, t₁, t₂, -, first, rest⟩
  all_goals
    obtain ⟨rfl, answer, same, -, called⟩ := Action.goes_ask.1 first
    rcases filed.goes_openFile truncate called with ⟨rfl, filed', own⟩ | ⟨rfl, e', rfl⟩ <;> cases same
  · exact .inl ⟨_, rfl, rfl, rfl⟩
  · exact .inr ⟨w₁, t₂, filed', own, rest⟩

/-- What begins by writing entries to a file goes on when they are there, or has failed. -/
theorem goes_append_bind (filed : Filed root base σ w.disk) {number : Nat} (own : Own base w.disk number)
    {added : List String} {next : Unit → Action FileLog DirtyError α}
    (goes : (Action.ask DirtyError.io (.append number (contentOf added)) >>= next).Goes l w t r l' w') :
    (∃ e, r = .error e ∧ l' = l ∧ w' = w) ∨
      ∃ w₁ t', Filed root base (σ.append number added) w₁.disk ∧ (next ()).Goes l w₁ t' r l' w' := by
  rcases Action.goes_bind.1 goes with ⟨e, rfl, first⟩ | ⟨_, l₁, w₁, t₁, t₂, -, first, rest⟩
  all_goals
    obtain ⟨rfl, answer, same, -, called⟩ := Action.goes_ask.1 first
    rcases filed.goes_append own called with ⟨rfl, filed'⟩ | ⟨rfl, e', rfl⟩ <;> cases same
  · exact .inl ⟨_, rfl, rfl, rfl⟩
  · exact .inr ⟨w₁, t₂, filed', rest⟩

end Filed

/-- Files in different places have different numbers. -/
theorem Filed.place_append_of_ne (filed : Filed root base σ w.disk) {p q : Part} (other : q ≠ p) {sheet : Sheet}
    (there : σ.place p = some sheet) (added : List String) :
    (σ.append sheet.number added).place q = σ.place q := by
  rw [Slots.place_append]
  cases place : σ.place q with
  | none => rfl
  | some sheet' =>
      obtain ⟨time, file⟩ := filed.some_of there
      obtain ⟨time', file'⟩ := filed.some_of place
      have apart : sheet'.number ≠ sheet.number := fun same =>
        Part.address_ne base other (filed.hosts.sound.identified (same ▸ file') file)
      rw [Option.map_some, if_neg apart]

/-! ## Drains -/

theorem readEntries_eq (path : Path) :
    readEntries path = Script.ask (.read path) >>= fun answer => .done (found answer) := by
  refine congrArg (Script.ask (.read path) >>= ·) (funext fun answer => ?_)
  rcases answer with e | bytes
  · cases e <;> rfl
  · cases read : Text.decode? bytes <;> simp only [found, read] <;> rfl

/-- Reading a place tells its entries, or fails. -/
theorem goes_entriesAt (filed : Filed root base σ w.disk) (p : Part) {r : Except DirtyError (List String)}
    (goes : (entriesAt (p.path root)).Goes l w t r l' w') :
    l' = l ∧ w' = w ∧ ∀ entries, r = .ok entries → entries = σ.entries p := by
  obtain ⟨rfl, ran⟩ := Action.goes_ofScript.1 goes
  obtain ⟨t₁, t₂, read, w₁, -, first, rest⟩ := Script.goes_bind.1 ran
  obtain ⟨-, rfl, rfl⟩ := Script.goes_done.1 rest
  rw [readEntries_eq] at first
  obtain ⟨t₃, t₄, answer, w₂, -, asked, told⟩ := Script.goes_bind.1 first
  obtain ⟨-, rfl, rfl⟩ := Script.goes_done.1 told
  obtain ⟨rfl, entries | ⟨e, failed⟩⟩ := filed.goes_read (Script.goes_ask.1 asked).2
  · rw [entries]
    exact ⟨rfl, rfl, fun _ ok => by cases ok; rfl⟩
  · rw [failed]
    exact ⟨rfl, rfl, fun _ ok => nomatch ok⟩

/-- A call that cannot fail as a step goes on with its answer. -/
theorem goes_plain_bind {α β : Type} {request : Call α} {next : α → Action FileLog DirtyError β}
    {r : Except DirtyError β} (goes : (Action.ofPlain (Script.ask request) >>= next).Goes l w t r l' w') :
    ∃ answer w₁ t', request.Goes w answer w₁ ∧ (next answer).Goes l w₁ t' r l' w' := by
  rcases Action.goes_bind.1 goes with ⟨e, -, first⟩ | ⟨answer, l₁, w₁, t₁, t₂, -, first, rest⟩
  · obtain ⟨-, b, same, -⟩ := Action.goes_ofPlain.1 first
    cases same
  · obtain ⟨rfl, b, same, asked⟩ := Action.goes_ofPlain.1 first
    cases same
    exact ⟨answer, w₁, t₂, (Script.goes_ask.1 asked).2, rest⟩

/-- Moving the log aside moves it in place of what lies there, or changes nothing. -/
theorem goes_moveAside (filed : Filed root base σ w.disk) {r : Except DirtyError Bool}
    (goes : moveAside.Goes (handle root known) w t r l' w') :
    l' = handle root known ∧
      ((r = .ok true ∧ σ.place .log ≠ none ∧ Filed root base (σ.rename .log .draining) w'.disk) ∨
        (w' = w ∧ ∀ moved, r = .ok moved → moved = false ∧ σ.place .log = none)) := by
  obtain ⟨answer, w₁, t', called, rest⟩ := goes_plain_bind (Action.goes_get_bind.1 goes)
  rw [drainingPath_handle] at called
  rcases filed.goes_rename (p := .log) (by decide) called with
    ⟨rfl, there, filed'⟩ | ⟨rfl, ⟨rfl, missing⟩ | ⟨e, found_, rfl⟩⟩
  · obtain ⟨-, rfl, rfl, rfl⟩ := Action.goes_pure.1 rest
    exact ⟨rfl, .inl ⟨rfl, there, filed'⟩⟩
  · obtain ⟨-, rfl, rfl, rfl⟩ := Action.goes_pure.1 rest
    exact ⟨rfl, .inr ⟨rfl, fun moved ok => by cases ok; exact ⟨rfl, missing⟩⟩⟩
  · have thrown : (throw (.io e) : Action FileLog DirtyError Bool).Goes (handle root known) w₁ t' r l' w' := by
      cases e <;> first | exact absurd rfl found_ | exact rest
    obtain ⟨-, rfl, rfl, rfl⟩ := Action.goes_throw.1 thrown
    exact ⟨rfl, .inr ⟨rfl, fun moved ok => nomatch ok⟩⟩

/-- Removing what lies aside removes it, or fails and changes nothing. -/
theorem goes_removeDraining (filed : Filed root base σ w.disk) {r : Except DirtyError Unit}
    (goes : removeDraining.Goes (handle root known) w t r l' w') :
    l' = handle root known ∧ ((r = .ok () ∧ Filed root base (σ.put .draining none) w'.disk) ∨
      (w' = w ∧ ∃ e, r = .error e)) := by
  obtain ⟨answer, w₁, t', called, rest⟩ := goes_plain_bind (Action.goes_get_bind.1 goes)
  rw [drainingPath_handle] at called
  rcases filed.goes_removeFile called with ⟨rfl | rfl, filed'⟩ | ⟨rfl, e, found_, rfl⟩
  · obtain ⟨-, rfl, rfl, rfl⟩ := Action.goes_pure.1 rest
    exact ⟨rfl, .inl ⟨rfl, filed'⟩⟩
  · obtain ⟨-, rfl, rfl, rfl⟩ := Action.goes_pure.1 rest
    exact ⟨rfl, .inl ⟨rfl, filed'⟩⟩
  · have thrown : (throw (.io e) : Action FileLog DirtyError Unit).Goes (handle root known) w₁ t' r l' w' := by
      cases e <;> first | exact absurd rfl found_ | exact rest
    obtain ⟨-, rfl, rfl, rfl⟩ := Action.goes_throw.1 thrown
    exact ⟨rfl, .inr ⟨rfl, _, rfl⟩⟩

/-- How a drain ends: it has answered what lay aside and what the log listed, and left neither, or it has failed.
Then the log is as it was, or it has been moved aside. -/
inductive DrainEnds (root : Path) (base : Address) (σ : Slots) (known : SortedSet String) (w : World) :
    Except DirtyError (List String) → FileLog → Prop where
  | failed {e : DirtyError} {σ' : Slots} (filed : Filed root base σ' w.disk)
      (which : σ' = σ ∨ (σ.place .log ≠ none ∧ σ' = σ.rename .log .draining)) :
      DrainEnds root base σ known w (.error e) (handle root known)
  | done {σ' : Slots} (filed : Filed root base σ' w.disk) (log : σ'.place .log = none)
      (draining : σ'.place .draining = none) :
      DrainEnds root base σ known w (.ok (firstOccurrences (σ.entries .draining ++ σ.entries .log)))
        (handle root .empty)

/-- A drain that has read everything removes what lies aside. -/
theorem goes_removing {σ' : Slots} (filed : Filed root base σ' w.disk) (vacant : σ'.place .log = none)
    (which : σ' = σ ∨ (σ.place .log ≠ none ∧ σ' = σ.rename .log .draining)) {r : Except DirtyError (List String)}
    (goes : Action.Goes (do
      removeDraining
      modify fun log => { log with pending := .empty }
      return firstOccurrences (σ.entries .draining ++ σ.entries .log)) (handle root known) w t r l' w') :
    DrainEnds root base σ known w' r l' := by
  rcases Action.goes_bind.1 goes with ⟨e, rfl, first⟩ | ⟨_, l₁, w₁, t₁, t₂, -, first, rest⟩
  · obtain ⟨rfl, ⟨same, -⟩ | ⟨rfl, -⟩⟩ := goes_removeDraining filed first
    · cases same
    · exact .failed filed which
  · obtain ⟨rfl, ⟨-, filed'⟩ | ⟨-, e, same⟩⟩ := goes_removeDraining filed first
    · rw [Action.goes_modify_bind] at rest
      obtain ⟨-, rfl, rfl, rfl⟩ := Action.goes_pure.1 rest
      exact .done filed' (by rw [Slots.place_put_of_ne _ (by decide), vacant]) (Slots.place_put _ _ _)
    · cases same

/-- **A drain answers everything and leaves nothing, or fails.** -/
theorem goes_drain (filed : Filed root base σ w.disk) {r : Except DirtyError (List String)}
    (goes : FileLog.drain.Goes (handle root known) w t r l' w') : DrainEnds root base σ known w' r l' := by
  have goes' := Action.goes_get_bind.1 goes
  rw [drainingPath_handle] at goes'
  rcases Action.goes_bind.1 goes' with ⟨e, rfl, first⟩ | ⟨left, l₁, w₁, t₁, t₂, -, first, rest⟩
  · obtain ⟨rfl, rfl, -⟩ := goes_entriesAt filed .draining first
    exact .failed filed (.inl rfl)
  obtain ⟨rfl, rfl, told⟩ := goes_entriesAt filed .draining first
  obtain rfl := told left rfl
  rcases Action.goes_bind.1 rest with ⟨e, rfl, second⟩ | ⟨moved, l₂, w₂, t₃, t₄, -, second, third⟩
  · obtain ⟨rfl, ⟨same, -⟩ | ⟨rfl, -⟩⟩ := goes_moveAside filed second
    · cases same
    · exact .failed filed (.inl rfl)
  obtain ⟨rfl, ⟨same, there, filed'⟩ | ⟨rfl, told'⟩⟩ := goes_moveAside filed second
  · cases same
    have aside : (σ.rename .log .draining).entries .draining = σ.entries .log :=
      Slots.entries_congr (σ.place_rename (by decide))
    simp only [if_true] at third
    rcases Action.goes_bind.1 third with ⟨e, rfl, fourth⟩ | ⟨fresh, l₃, w₃, t₅, t₆, -, fourth, fifth⟩
    · obtain ⟨rfl, rfl, -⟩ := goes_entriesAt filed' .draining fourth
      exact .failed filed' (.inr ⟨there, rfl⟩)
    · obtain ⟨rfl, rfl, told''⟩ := goes_entriesAt filed' .draining fourth
      obtain rfl := (told'' fresh rfl).trans aside
      exact goes_removing filed' (Slots.place_put _ _ _) (.inr ⟨there, rfl⟩) fifth
  · obtain ⟨rfl, vacant⟩ := told' moved rfl
    simp only [Bool.false_eq_true, if_false] at third
    refine goes_removing (t := t₄) filed vacant (.inl rfl) ?_
    rw [Slots.entries_none vacant]
    exact third

/-! ## Marks and clears -/

/-- A mark adds its lines with its last call, or fails. -/
theorem goes_mark (filed : Filed root base σ w.disk) {path : String}
    (unknown : ¬ known.contains (Uri.normalize path) = true) {r : Except DirtyError Unit}
    (goes : (FileLog.mark path).Goes (handle root known) w t r l' w') :
    ∃ σ', Filed root base σ' w'.disk ∧ (σ.place .draining = none → σ'.place .draining = none) ∧
      ((∃ e, r = .error e ∧ l' = handle root known ∧ σ'.entries .log = σ.entries .log) ∨
        (r = .ok () ∧ l' = handle root (known.insert (Uri.normalize path)) ∧
          σ'.entries .log = σ.entries .log ++ linesOf (Uri.normalize path))) := by
  have goes' := Action.goes_get_bind.1 goes
  rw [if_neg unknown] at goes'
  have apart : σ.place .draining = none → (σ.openFile false .log).place .draining = none := fun bare => by
    rw [Slots.place_openFile_of_ne σ false (by decide), bare]
  rcases filed.goes_openFile_bind (p := .log) false goes' with
    ⟨e, rfl, rfl, rfl⟩ | ⟨w₁, t₁, filed₁, own, rest⟩
  · exact ⟨σ, filed, id, .inl ⟨e, rfl, rfl, rfl⟩⟩
  rcases filed₁.goes_append_bind own rest with ⟨e, rfl, rfl, rfl⟩ | ⟨w₂, t₂, filed₂, last⟩
  · exact ⟨_, filed₁, apart, .inl ⟨e, rfl, rfl, σ.entries_openFile_append .log⟩⟩
  obtain ⟨-, rfl, rfl, rfl⟩ := Action.goes_modify.1 last
  obtain ⟨marks, there⟩ := σ.place_openFile false .log
  refine ⟨_, filed₂, fun bare => Slots.place_append_none (apart bare) _ _, .inr ⟨rfl, rfl, ?_⟩⟩
  have listed := Slots.entries_append there [Uri.normalize path]
  rw [σ.entries_openFile_append .log] at listed
  simpa using listed

/-- What has been written to the draft takes the place of the log, or the move fails. -/
theorem goes_placing (filed : Filed root base σ w.disk) {number : Nat} {entries : List String}
    (draft : σ.place .draft = some ⟨number, entries⟩) {r : Except DirtyError Unit}
    (goes : (Action.ask DirtyError.io (.rename (Part.draft.path root) (Part.log.path root)) :
      Action FileLog DirtyError Unit).Goes l w t r l' w') :
    l' = l ∧ ∃ σ', Filed root base σ' w'.disk ∧ σ'.place .draining = σ.place .draining ∧
      ((∃ e, r = .error e ∧ σ'.entries .log = σ.entries .log) ∨
        (r = .ok () ∧ σ'.entries .log = entries.flatMap linesOf)) := by
  obtain ⟨rfl, answer, rfl, -, called⟩ := Action.goes_ask.1 goes
  rcases filed.goes_rename (p := .draft) (q := .log) (by decide) called with
    ⟨rfl, -, filed'⟩ | ⟨rfl, ⟨rfl, missing⟩ | ⟨e, -, rfl⟩⟩
  · refine ⟨rfl, _, filed', σ.place_rename_of_ne (by decide) (by decide), .inr ⟨rfl, ?_⟩⟩
    rw [Slots.entries_some (show (σ.rename .draft .log).place .log = _ from (σ.place_rename (by decide)).trans draft)]
  · rw [draft] at missing
    cases missing
  · exact ⟨rfl, σ, filed, rfl, .inl ⟨_, rfl, rfl⟩⟩

/-- The log is written anew with its last call, or the writing fails. -/
theorem goes_rewrite (filed : Filed root base σ w.disk) {entries : List String}
    (lines : entries.flatMap linesOf = entries) {r : Except DirtyError Unit}
    (goes : Action.Goes (do
      let file ← Action.ask .io (.create (Part.draft.path root))
      if contentOf entries ≠ [] then Action.ask .io (.append file (contentOf entries))
      Action.ask .io (.rename (Part.draft.path root) (Part.log.path root))) l w t r l' w') :
    l' = l ∧ ∃ σ', Filed root base σ' w'.disk ∧ (σ.place .draining = none → σ'.place .draining = none) ∧
      ((∃ e, r = .error e ∧ σ'.entries .log = σ.entries .log) ∨ (r = .ok () ∧ σ'.entries .log = entries)) := by
  have draft := σ.place_openFile_create .draft
  have draining : (σ.openFile true .draft).place .draining = σ.place .draining :=
    Slots.place_openFile_of_ne σ true (by decide)
  have log : (σ.openFile true .draft).entries .log = σ.entries .log :=
    Slots.entries_congr (Slots.place_openFile_of_ne σ true (by decide))
  rcases filed.goes_openFile_bind (p := .draft) true goes with ⟨e, rfl, rfl, rfl⟩ | ⟨w₁, t₁, filed₁, own, rest⟩
  · exact ⟨rfl, σ, filed, id, .inl ⟨e, rfl, rfl⟩⟩
  split at rest
  next =>
    rcases filed₁.goes_append_bind own rest with ⟨e, rfl, rfl, rfl⟩ | ⟨w₂, t₂, filed₂, last⟩
    · exact ⟨rfl, _, filed₁, draining.trans, .inl ⟨e, rfl, log⟩⟩
    have others : ∀ q, q ≠ Part.draft → _ := fun q other => filed₁.place_append_of_ne other draft entries
    have written : ((σ.openFile true .draft).append (σ.numberAt .draft) entries).place .draft =
        some ⟨σ.numberAt .draft, entries⟩ := by
      rw [Slots.place_append, draft, Option.map_some, if_pos rfl, List.nil_append]
    obtain ⟨rfl, σ', filed', still, ends⟩ := goes_placing filed₂ written last
    rw [lines, Slots.entries_congr (others .log (by decide)), log] at ends
    exact ⟨rfl, σ', filed', ((still.trans (others .draining (by decide))).trans draining).trans, ends⟩
  next nothing =>
    obtain rfl := contentOf_eq_nil.1 (not_not.1 nothing)
    obtain ⟨rfl, σ', filed', still, ends⟩ := goes_placing filed₁ draft rest
    rw [log] at ends
    exact ⟨rfl, σ', filed', (still.trans draining).trans, ends⟩

/-- A clear takes its entry out with its last call, or fails. -/
theorem goes_clear (filed : Filed root base σ w.disk) {path : String} {r : Except DirtyError Unit}
    (goes : (FileLog.clear path).Goes (handle root known) w t r l' w') :
    l' = handle root (known.erase (Uri.normalize path)) ∧
      ∃ σ', Filed root base σ' w'.disk ∧ (σ.place .draining = none → σ'.place .draining = none) ∧
        ((∃ e, r = .error e ∧ σ'.entries .log = σ.entries .log) ∨
          (r = .ok () ∧ σ'.entries .log = (σ.entries .log).filter (· ≠ Uri.normalize path))) := by
  have goes' := Action.goes_get_bind.1 (Action.goes_modify_bind.1 goes)
  rw [show draftPath (FileLog.path ⟨(handle root known).path, _⟩) = Part.draft.path root from draftPath_below root]
    at goes'
  rcases Action.goes_bind.1 goes' with ⟨e, rfl, first⟩ | ⟨entries, l₁, w₁, t₁, t₂, -, first, rest⟩
  · obtain ⟨rfl, rfl, -⟩ := goes_entriesAt (p := .log) filed first
    exact ⟨rfl, σ, filed, id, .inl ⟨e, rfl, rfl⟩⟩
  obtain ⟨rfl, rfl, told⟩ := goes_entriesAt (p := .log) filed first
  obtain rfl := told entries rfl
  split at rest
  next absent =>
    obtain ⟨-, rfl, rfl, rfl⟩ := Action.goes_pure.1 rest
    refine ⟨rfl, σ, filed, id, .inr ⟨rfl, (List.filter_eq_self.2 fun e member => decide_eq_true ?_).symm⟩⟩
    rintro rfl
    rw [List.contains_iff_mem.2 member] at absent
    cases absent
  next =>
    exact goes_rewrite filed
      (flatMap_linesOf fun e member => Slots.isLine_of_mem_entries (List.mem_filter.1 member).1) rest

end FileLog

/-! ## Logs of either kind -/

namespace DirtyLog

open FileLog (Filed Slots entriesIn)
open TableLog (Holds HasRow)

variable {root : Path} {base : Address} {backend : Backend} {marks : List String} {known : SortedSet String}
  {log log' : DirtyLog} {w w' : World} {t : List Answered}

/-- An entry is listed in a log of a kind, or in the log that was moved aside. -/
def Listed (base : Address) (backend : Backend) (w : World) (e : String) : Prop :=
  match backend with
  | .file => e ∈ entriesIn w.disk (FileLog.Part.log.address base) ∨
      e ∈ entriesIn w.disk (FileLog.Part.draining.address base)
  | .sqlite => HasRow w.database e

/-- An entry awaits the next drain: it is listed in the log, or in one that was moved aside before a new log was
begun. -/
def Awaits (base : Address) (backend : Backend) (w : World) (e : String) : Prop :=
  match backend with
  | .file => e ∈ entriesIn w.disk (FileLog.Part.log.address base) ∨
      (e ∈ entriesIn w.disk (FileLog.Part.draining.address base) ∧
        w.disk.node? (FileLog.Part.log.address base) = none)
  | .sqlite => HasRow w.database e

/-- A log of a kind that is there, whatever lies aside. -/
inductive Stocked (root : Path) (base : Address) (w : World) : Backend → Prop where
  | file {σ : Slots} (filed : Filed root base σ w.disk) : Stocked root base w .file
  | table {marks : List String} (hosts : w.disk.Hosts root base) (holds : Holds w.database marks) :
      Stocked root base w .sqlite

/-- A log of a kind lists some entries, and nothing lies aside. -/
inductive Tidy (root : Path) (base : Address) (marks : List String) (w : World) : Backend → Prop where
  | file {σ : Slots} (filed : Filed root base σ w.disk) (bare : σ.place .draining = none)
      (listed : σ.entries .log = marks) : Tidy root base marks w .file
  | table (hosts : w.disk.Hosts root base) (holds : Holds w.database marks) : Tidy root base marks w .sqlite

/-- An entry is listed in the log itself, whatever lies aside. -/
def Logged (base : Address) (backend : Backend) (w : World) (e : String) : Prop :=
  match backend with
  | .file => e ∈ entriesIn w.disk (FileLog.Part.log.address base)
  | .sqlite => HasRow w.database e

/-- A log of a kind lists some entries, whatever lies aside. -/
inductive Enlists (root : Path) (base : Address) (marks : List String) (w : World) : Backend → Prop where
  | file {σ : Slots} (filed : Filed root base σ w.disk) (listed : σ.entries .log = marks) :
      Enlists root base marks w .file
  | table (hosts : w.disk.Hosts root base) (holds : Holds w.database marks) : Enlists root base marks w .sqlite

/-- No log lies aside. -/
def Bare (base : Address) (w : World) : Backend → Prop
  | .file => w.disk.node? (FileLog.Part.draining.address base) = none
  | .sqlite => True

theorem Enlists.logged_iff (lists : Enlists root base marks w backend) {e : String} :
    Logged base backend w e ↔ e ∈ marks := by
  cases lists with
  | file filed listed => rw [Logged, filed.entriesIn_eq, listed]
  | table hosts holds => exact holds.hasRow_iff

theorem Logged.listed {e : String} (logged : Logged base backend w e) : Listed base backend w e := by
  cases backend with
  | file => exact .inl logged
  | sqlite => exact logged

theorem Enlists.tidy (lists : Enlists root base marks w backend) (bare : Bare base w backend) :
    Tidy root base marks w backend := by
  cases lists with
  | file filed listed => exact .file filed (filed.vacant_of bare) listed
  | table hosts holds => exact .table hosts holds

theorem Enlists.stocked (lists : Enlists root base marks w backend) : Stocked root base w backend := by
  cases lists with
  | file filed listed => exact .file filed
  | table hosts holds => exact .table hosts holds

theorem Stocked.lists (stocked : Stocked root base w backend) : ∃ marks, Enlists root base marks w backend := by
  cases stocked with
  | file filed => exact ⟨_, .file filed rfl⟩
  | table hosts holds => exact ⟨_, .table hosts holds⟩

theorem Tidy.lists (tidy : Tidy root base marks w backend) : Enlists root base marks w backend := by
  cases tidy with
  | file filed bare listed => exact .file filed listed
  | table hosts holds => exact .table hosts holds

theorem Tidy.bare (tidy : Tidy root base marks w backend) : Bare base w backend := by
  cases tidy with
  | file filed bare listed => exact filed.none_of bare
  | table hosts holds => trivial

theorem Tidy.listed_iff (tidy : Tidy root base marks w backend) {e : String} : Listed base backend w e ↔ e ∈ marks := by
  cases tidy with
  | file filed bare listed =>
      rw [Listed, filed.entriesIn_eq, filed.entriesIn_eq, Slots.entries_none bare, listed]
      simp
  | table hosts holds => exact holds.hasRow_iff

theorem goes_onEither_file {α : Type} {onFile : Action FileLog DirtyError α} {onTable : Action TableLog DirtyError α}
    {l : FileLog} {r : Except DirtyError α} (goes : (onEither onFile onTable).Goes (.file l) w t r log' w') :
    ∃ l', log' = .file l' ∧ onFile.Goes l w t r l' w' := by
  obtain ⟨t₁, t₂, ⟨r₁, l₁⟩, w₁, rfl, first, rest⟩ := Script.goes_bind.1 goes
  obtain ⟨rfl, same, rfl⟩ := Script.goes_done.1 rest
  cases same
  exact ⟨l₁, rfl, by rwa [List.append_nil]⟩

theorem goes_onEither_table {α : Type} {onFile : Action FileLog DirtyError α} {onTable : Action TableLog DirtyError α}
    {l : TableLog} {r : Except DirtyError α} (goes : (onEither onFile onTable).Goes (.table l) w t r log' w') :
    ∃ l', log' = .table l' ∧ onTable.Goes l w t r l' w' := by
  obtain ⟨t₁, t₂, ⟨r₁, l₁⟩, w₁, rfl, first, rest⟩ := Script.goes_bind.1 goes
  obtain ⟨rfl, same, rfl⟩ := Script.goes_done.1 rest
  cases same
  exact ⟨l₁, rfl, by rwa [List.append_nil]⟩

/-- A transaction that would succeed does so, or fails and changes nothing. -/
theorem goes_transact {α σ : Type} {action : Transaction α} {a : α} {db : Database} {s s' : σ}
    (done : action w.database = .ok (a, db)) {r : Except DirtyError α}
    (goes : (Action.ask DirtyError.database (.transact action) : Action σ DirtyError α).Goes s w t r s' w') :
    s' = s ∧ ((r = .ok a ∧ w' = { w with database := db }) ∨ (w' = w ∧ ∃ e, r = .error e)) := by
  obtain ⟨rfl, answer, rfl, -, called⟩ := Action.goes_ask.1 goes
  cases called with
  | performed =>
      rw [Call.perform, done]
      exact ⟨rfl, .inl ⟨rfl, rfl⟩⟩
  | failed fault =>
      obtain ⟨e, rfl⟩ := fault
      exact ⟨rfl, .inr ⟨rfl, _, rfl⟩⟩

/-- What begins with a transaction that would succeed goes on with its answer, or has failed. -/
theorem goes_transact_bind {α β σ : Type} {action : Transaction α} {a : α} {db : Database} {s s' : σ}
    (done : action w.database = .ok (a, db)) {next : α → Action σ DirtyError β} {r : Except DirtyError β}
    (goes : (Action.ask DirtyError.database (.transact action) >>= next).Goes s w t r s' w') :
    (∃ e, r = .error e ∧ s' = s ∧ w' = w) ∨
      ∃ t', (next a).Goes s { w with database := db } t' r s' w' := by
  rcases Action.goes_bind.1 goes with ⟨e, rfl, first⟩ | ⟨_, s₁, w₁, t₁, t₂, -, first, rest⟩
  all_goals obtain ⟨rfl, ⟨same, rfl⟩ | ⟨rfl, e', same⟩⟩ := goes_transact done first <;> cases same
  · exact .inl ⟨_, rfl, rfl, rfl⟩
  · exact .inr ⟨t₂, rest⟩

theorem Tidy.stocked (tidy : Tidy root base marks w backend) : Stocked root base w backend := tidy.lists.stocked

/-- **A drain that fails leaves listed what awaited it**, and one that succeeds answers all that was listed. -/
theorem Stocked.goes_drain (stocked : Stocked root base w backend) {r : Except DirtyError (List String)}
    (goes : DirtyLog.drain.Goes (remembering backend root known) w t r log' w') :
    (∃ e, r = .error e ∧ log' = remembering backend root known ∧ Stocked root base w' backend ∧
        (∀ uri, Awaits base backend w uri → Listed base backend w' uri) ∧
        ∀ uri, Listed base backend w' uri → Listed base backend w uri) ∨
      ∃ uris known', r = .ok uris ∧ log' = remembering backend root known' ∧ Tidy root base [] w' backend ∧
        (∀ uri, Listed base backend w uri → uri ∈ uris) ∧ (known' = .empty ∨ (uris = [] ∧ known' = known)) := by
  cases stocked with
  | @file σ filed =>
      obtain ⟨l', rfl, ran⟩ := goes_onEither_file goes
      cases FileLog.goes_drain filed ran with
      | @failed e σ' filed' which =>
          simp only [Listed, Awaits, filed.entriesIn_eq, filed'.entriesIn_eq]
          rcases which with rfl | ⟨there, rfl⟩
          · exact .inl
              ⟨e, rfl, rfl, .file filed', fun uri awaits => awaits.imp_right And.left, fun uri listed => listed⟩
          · have moved : (σ.rename .log .draining).entries .draining = σ.entries .log :=
              Slots.entries_congr (σ.place_rename (by decide))
            have vacant : (σ.rename .log .draining).entries .log = [] := Slots.entries_none (Slots.place_put _ _ _)
            obtain ⟨sheet, place⟩ := Option.ne_none_iff_exists'.1 there
            obtain ⟨time, file⟩ := filed.some_of place
            simp only [moved, vacant, file]
            refine .inl ⟨e, rfl, rfl, .file filed', fun uri awaits => .inr ?_, fun uri listed => .inl ?_⟩
            · exact awaits.resolve_right fun aside => nomatch aside.2
            · exact listed.resolve_left List.not_mem_nil
      | @done σ' filed' vacant bare =>
          refine .inr ⟨_, .empty, rfl, rfl, .file filed' bare (Slots.entries_none vacant), fun uri listed => ?_,
            .inl rfl⟩
          rw [Listed, filed.entriesIn_eq, filed.entriesIn_eq] at listed
          rw [mem_firstOccurrences, List.mem_append]
          exact listed.symm
  | @table marks hosts holds =>
      obtain ⟨l', rfl, ran⟩ := goes_onEither_table goes
      obtain ⟨db, taken, holds', -⟩ := holds.takeMarks
      rcases goes_transact_bind taken ran with ⟨e, rfl, rfl, rfl⟩ | ⟨t', rest⟩
      · exact .inl ⟨e, rfl, rfl, .table hosts holds, fun _ awaits => awaits, fun _ listed => listed⟩
      · have answered : ∀ e, Listed base .sqlite w e → e ∈ firstOccurrences marks := fun e listed =>
          mem_firstOccurrences.2 (holds.hasRow_iff.1 listed)
        split at rest
        next =>
          rw [Action.goes_set_bind] at rest
          obtain ⟨-, rfl, rfl, rfl⟩ := Action.goes_pure.1 rest
          exact .inr ⟨_, .empty, rfl, rfl, .table hosts holds', answered, .inl rfl⟩
        next nothing =>
          obtain rfl := not_not.1 nothing
          obtain ⟨-, rfl, rfl, rfl⟩ := Action.goes_pure.1 rest
          exact .inr ⟨_, known, rfl, rfl, .table hosts holds', answered, .inr ⟨rfl, rfl⟩⟩

namespace Enlists

/-- A mark that succeeds does what it does when no call fails, and one that fails leaves the entries. -/
theorem goes_mark (lists : Enlists root base marks w backend) {path : String} {r : Except DirtyError Unit}
    (goes : (DirtyLog.mark path).Goes (remembering backend root known) w t r log' w') :
    (Bare base w backend → Bare base w' backend) ∧
      ((∃ e, r = .error e ∧ log' = remembering backend root known ∧ Enlists root base marks w' backend) ∨
        (r = .ok () ∧ log' = remembering backend root ((Command.mark path).recalls backend known marks) ∧
          Enlists root base ((Command.mark path).leaves backend known marks) w' backend)) := by
  by_cases remembered : known.contains (Uri.normalize path) = true
  · rw [Command.recalls, Command.leaves, if_pos remembered, if_pos remembered]
    cases lists with
    | file filed listed =>
        obtain ⟨l', rfl, ran⟩ := goes_onEither_file goes
        replace ran := Action.goes_get_bind.1 ran
        rw [if_pos remembered] at ran
        obtain ⟨-, rfl, rfl, rfl⟩ := Action.goes_pure.1 ran
        exact ⟨id, .inr ⟨rfl, rfl, .file filed listed⟩⟩
    | table hosts holds =>
        obtain ⟨l', rfl, ran⟩ := goes_onEither_table goes
        replace ran := Action.goes_get_bind.1 ran
        rw [if_pos remembered] at ran
        obtain ⟨-, rfl, rfl, rfl⟩ := Action.goes_pure.1 ran
        exact ⟨id, .inr ⟨rfl, rfl, .table hosts holds⟩⟩
  · rw [Command.recalls, Command.leaves, if_neg remembered, if_neg remembered]
    cases lists with
    | file filed listed =>
        obtain ⟨l', rfl, ran⟩ := goes_onEither_file goes
        subst listed
        obtain ⟨σ', filed', bare', ends⟩ := FileLog.goes_mark filed remembered ran
        refine ⟨fun bare => filed'.none_of (bare' (filed.vacant_of bare)), ?_⟩
        rcases ends with ⟨e, rfl, rfl, same⟩ | ⟨rfl, rfl, same⟩
        · exact .inl ⟨e, rfl, rfl, .file filed' same⟩
        · exact .inr ⟨rfl, rfl, .file filed' same⟩
    | table hosts holds =>
        obtain ⟨l', rfl, ran⟩ := goes_onEither_table goes
        replace ran := Action.goes_get_bind.1 ran
        rw [if_neg remembered] at ran
        obtain ⟨db, inserted, holds', -⟩ := holds.insertMark (Uri.normalize path)
        rcases goes_transact_bind inserted ran with ⟨e, rfl, rfl, rfl⟩ | ⟨t', rest⟩
        · exact ⟨id, .inl ⟨e, rfl, rfl, .table hosts holds⟩⟩
        · obtain ⟨-, rfl, rfl, rfl⟩ := Action.goes_modify.1 rest
          exact ⟨id, .inr ⟨rfl, rfl, .table hosts holds'⟩⟩

/-- A clear that succeeds takes its entry out, and one that fails leaves the entries. -/
theorem goes_clear (lists : Enlists root base marks w backend) {path : String} {r : Except DirtyError Unit}
    (goes : (DirtyLog.clear path).Goes (remembering backend root known) w t r log' w') :
    (Bare base w backend → Bare base w' backend) ∧
      log' = remembering backend root (known.erase (Uri.normalize path)) ∧
      ((∃ e, r = .error e ∧ Enlists root base marks w' backend) ∨
        (r = .ok () ∧ Enlists root base (marks.filter (· ≠ Uri.normalize path)) w' backend)) := by
  cases lists with
  | file filed listed =>
      obtain ⟨l', rfl, ran⟩ := goes_onEither_file goes
      subst listed
      obtain ⟨rfl, σ', filed', bare', ends⟩ := FileLog.goes_clear filed ran
      refine ⟨fun bare => filed'.none_of (bare' (filed.vacant_of bare)), rfl, ?_⟩
      rcases ends with ⟨e, rfl, same⟩ | ⟨rfl, same⟩
      · exact .inl ⟨e, rfl, .file filed' same⟩
      · exact .inr ⟨rfl, .file filed' same⟩
  | table hosts holds =>
      obtain ⟨l', rfl, ran⟩ := goes_onEither_table goes
      obtain ⟨db, deleted, holds', -⟩ := holds.deleteMarks (Uri.normalize path)
      obtain ⟨rfl, ⟨rfl, rfl⟩ | ⟨rfl, e, rfl⟩⟩ := goes_transact deleted (Action.goes_modify_bind.1 ran)
      · exact ⟨id, rfl, .inr ⟨rfl, .table hosts holds'⟩⟩
      · exact ⟨id, rfl, .inl ⟨e, rfl, .table hosts holds⟩⟩

end Enlists

namespace Tidy

/-- A mark that succeeds does what it does when no call fails, and one that fails leaves the entries. -/
theorem goes_mark (tidy : Tidy root base marks w backend) {path : String} {r : Except DirtyError Unit}
    (goes : (DirtyLog.mark path).Goes (remembering backend root known) w t r log' w') :
    (∃ e, r = .error e ∧ log' = remembering backend root known ∧ Tidy root base marks w' backend) ∨
      (r = .ok () ∧ log' = remembering backend root ((Command.mark path).recalls backend known marks) ∧
        Tidy root base ((Command.mark path).leaves backend known marks) w' backend) := by
  obtain ⟨bare, ⟨e, failed, same, lists⟩ | ⟨done, recalled, lists⟩⟩ := tidy.lists.goes_mark goes
  · exact .inl ⟨e, failed, same, lists.tidy (bare tidy.bare)⟩
  · exact .inr ⟨done, recalled, lists.tidy (bare tidy.bare)⟩

/-- A clear that succeeds takes its entry out, and one that fails leaves the entries. -/
theorem goes_clear (tidy : Tidy root base marks w backend) {path : String} {r : Except DirtyError Unit}
    (goes : (DirtyLog.clear path).Goes (remembering backend root known) w t r log' w') :
    log' = remembering backend root (known.erase (Uri.normalize path)) ∧
      ((∃ e, r = .error e ∧ Tidy root base marks w' backend) ∨
        (r = .ok () ∧ Tidy root base (marks.filter (· ≠ Uri.normalize path)) w' backend)) := by
  obtain ⟨bare, forgot, ⟨e, failed, lists⟩ | ⟨done, lists⟩⟩ := tidy.lists.goes_clear goes
  · exact ⟨forgot, .inl ⟨e, failed, lists.tidy (bare tidy.bare)⟩⟩
  · exact ⟨forgot, .inr ⟨done, lists.tidy (bare tidy.bare)⟩⟩

end Tidy

end DirtyLog

end SymbolIndex
