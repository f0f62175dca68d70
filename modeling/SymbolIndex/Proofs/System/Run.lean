import SymbolIndex.Store.Basic

/-!
# Proofs.System.Run — what a computation comes to

`outcome` runs a computation that may fail, with or without a state of its own, to its end in a
world. The outcome of a sequence is that of its parts one after the other: forwards, a step whose
outcome is known is rewritten away (`outcome_bind_ok`); backwards, a sequence that succeeded is a
step that succeeded and the rest (`outcome_bind_eq_ok`).
-/

namespace SymbolIndex

set_option autoImplicit false

variable {α β σ ε δ : Type}

namespace Script

@[simp] theorem run_pure (a : α) (w : World) : (pure a : Script α).run w = (a, w) := rfl

@[simp] theorem run_done (a : α) (w : World) : (done a).run w = (a, w) := rfl

@[simp] theorem run_ask (request : Call α) (w : World) : (ask request).run w = request.perform w :=
  rfl

theorem run_bind (s : Script α) (f : α → Script β) (w : World) :
    (s >>= f).run w = (f (s.run w).1).run (s.run w).2 := by
  induction s generalizing w with
  | done a => rfl
  | call request next ih => exact ih _ _

theorem run_bind_of {s : Script α} {f : α → Script β} {w w' : World} {a : α}
    (first : s.run w = (a, w')) : (s >>= f).run w = (f a).run w' := by
  rw [run_bind, first]

@[simp] theorem run_map (f : α → β) (s : Script α) (w : World) :
    (f <$> s).run w = (f (s.run w).1, (s.run w).2) := by
  rw [← bind_pure_comp, run_bind, run_pure]

/-! ### Calls that the disk answers -/

section Disk

variable {w : World} {d : Disk} {path target : Path}

theorem run_create {id : Nat} (done : w.disk.openFile w.time true path = .ok (id, d)) :
    (ask (.create path)).run w = (.ok id, { w with disk := d }) := by
  rw [run_ask, Call.perform, done]
  rfl

theorem run_rename (done : w.disk.rename path target = .ok d) :
    (ask (.rename path target)).run w = (.ok (), { w with disk := d }) := by
  rw [run_ask, Call.perform, done]
  rfl

theorem run_removeFile (done : w.disk.removeFile path = .ok d) :
    (ask (.removeFile path)).run w = (.ok (), { w with disk := d }) := by
  rw [run_ask, Call.perform, done]
  rfl

theorem run_removeFile_error {e : DiskError} (failed : w.disk.removeFile path = .error e) :
    (ask (.removeFile path)).run w = (.error e, w) := by
  rw [run_ask, Call.perform, failed]
  rfl

theorem run_removeTree (done : w.disk.removeTree path = .ok d) :
    (ask (.removeTree path)).run w = (.ok (), { w with disk := d }) := by
  rw [run_ask, Call.perform, done]
  rfl

theorem run_createDirectories (done : w.disk.createDirectories w.time path = .ok d) :
    (ask (.createDirectories path)).run w = (.ok (), { w with disk := d }) := by
  rw [run_ask, Call.perform, done]
  rfl

end Disk

/-- What a script that may fail comes to. -/
def outcome (s : ExceptT ε Script α) (w : World) : Except ε α × World := run s.run w

@[simp] theorem outcome_pure (a : α) (w : World) :
    outcome (pure a : ExceptT ε Script α) w = (.ok a, w) := rfl

@[simp] theorem outcome_throw (e : ε) (w : World) :
    outcome (throw e : ExceptT ε Script α) w = (.error e, w) := rfl

@[simp] theorem outcome_lift (s : Script α) (w : World) :
    outcome (ExceptT.lift s : ExceptT ε Script α) w = (.ok (s.run w).1, (s.run w).2) := by
  rw [outcome, ExceptT.run_lift, run_map]

theorem outcome_bind (s : ExceptT ε Script α) (f : α → ExceptT ε Script β) (w : World) :
    outcome (s >>= f) w =
      match outcome s w with
      | (.ok a, w') => outcome (f a) w'
      | (.error e, w') => (.error e, w') := by
  rw [outcome, ExceptT.run_bind, run_bind]
  unfold outcome
  rcases s.run.run w with ⟨e | a, w'⟩ <;> rfl

theorem outcome_bind_ok {s : ExceptT ε Script α} {f : α → ExceptT ε Script β} {w w' : World} {a : α}
    (first : outcome s w = (.ok a, w')) : outcome (s >>= f) w = outcome (f a) w' := by
  rw [outcome_bind, first]

theorem outcome_bind_error {s : ExceptT ε Script α} {f : α → ExceptT ε Script β} {w w' : World}
    {e : ε} (first : outcome s w = (.error e, w')) : outcome (s >>= f) w = (.error e, w') := by
  rw [outcome_bind, first]

end Script

open Script (outcome)

namespace Stored

theorem outcome_disk (request : Call (Except DiskError α)) (w : World) :
    outcome (disk request) w = ((request.perform w).1.mapError .io, (request.perform w).2) := rfl

theorem outcome_database (request : Call (Except DatabaseError α)) (w : World) :
    outcome (database request) w =
      ((request.perform w).1.mapError .database, (request.perform w).2) := rfl

theorem outcome_transact (action : Transaction α) (w : World) :
    outcome (transact action) w =
      match action w.database with
      | .ok (a, db) => (.ok a, { w with database := db })
      | .error e => (.error (.database e), w) := by
  rw [transact, outcome_database]
  simp only [Call.perform]
  cases action w.database with
  | error e => rfl
  | ok r => rfl

theorem outcome_transact_ok {action : Transaction α} {w : World} {a : α} {db : Database}
    (done : action w.database = .ok (a, db)) :
    outcome (transact action) w = (.ok a, { w with database := db }) := by
  rw [outcome_transact, done]

end Stored

namespace Action

/-- What an action comes to: its result, its state and the world. -/
def outcome (a : Action σ ε α) (s : σ) (w : World) : Except ε α × σ × World :=
  let r := Script.run (a s) w
  (r.1.1, r.1.2, r.2)

@[simp] theorem outcome_pure (a : α) (s : σ) (w : World) :
    outcome (pure a : Action σ ε α) s w = (.ok a, s, w) := rfl

@[simp] theorem outcome_throw (e : ε) (s : σ) (w : World) :
    outcome (throw e : Action σ ε α) s w = (.error e, s, w) := rfl

@[simp] theorem outcome_get (s : σ) (w : World) :
    outcome (get : Action σ ε σ) s w = (.ok s, s, w) := rfl

@[simp] theorem outcome_set (s s' : σ) (w : World) :
    outcome (set s' : Action σ ε PUnit) s w = (.ok ⟨⟩, s', w) := rfl

@[simp] theorem outcome_modify (f : σ → σ) (s : σ) (w : World) :
    outcome (modify f : Action σ ε PUnit) s w = (.ok ⟨⟩, f s, w) := rfl

@[simp] theorem outcome_ofScript (script : Script (Except ε α)) (s : σ) (w : World) :
    outcome (ofScript script : Action σ ε α) s w = ((script.run w).1, s, (script.run w).2) := by
  have run : Script.run ((ofScript script : Action σ ε α) s) w =
      (((script.run w).1, s), (script.run w).2) :=
    Script.run_bind script (fun a => .done (a, s)) w
  rw [outcome, run]

@[simp] theorem outcome_ofPlain (script : Script α) (s : σ) (w : World) :
    outcome (ofPlain script : Action σ ε α) s w = (.ok (script.run w).1, s, (script.run w).2) := by
  have run : Script.run (script.bind (fun a => .done (.ok a : Except ε α))) w =
      (.ok (script.run w).1, (script.run w).2) :=
    Script.run_bind script (fun a => .done (.ok a : Except ε α)) w
  rw [ofPlain, outcome_ofScript, run]

@[simp] theorem outcome_ask (wrap : δ → ε) (request : Call (Except δ α)) (s : σ) (w : World) :
    outcome (ask wrap request : Action σ ε α) s w =
      ((request.perform w).1.mapError wrap, s, (request.perform w).2) := by
  rw [ask, outcome_ofScript]
  rfl

@[simp] theorem outcome_within {τ : Type} (view : σ → τ) (update : σ → τ → σ) (wrap : δ → ε)
    (a : Action τ δ α) (s : σ) (w : World) :
    outcome (within view update wrap a) s w =
      ((outcome a (view s) w).1.mapError wrap, update s (outcome a (view s) w).2.1,
        (outcome a (view s) w).2.2) := by
  have run : Script.run (within view update wrap a s) w =
      (((Script.run (a (view s)) w).1.1.mapError wrap,
        update s (Script.run (a (view s)) w).1.2), (Script.run (a (view s)) w).2) :=
    Script.run_bind (a (view s)) (fun r => .done (r.1.mapError wrap, update s r.2)) w
  rw [outcome, run]
  rfl

theorem outcome_transact_ok (wrap : DatabaseError → ε) {action : Transaction α} {s : σ} {w : World}
    {a : α} {db : Database} (done : action w.database = .ok (a, db)) :
    outcome (ask wrap (.transact action) : Action σ ε α) s w =
      (.ok a, s, { w with database := db }) := by
  rw [outcome_ask, Call.perform, done]
  rfl

theorem outcome_bind (a : Action σ ε α) (f : α → Action σ ε β) (s : σ) (w : World) :
    outcome (a >>= f) s w =
      match outcome a s w with
      | (.ok r, s', w') => outcome (f r) s' w'
      | (.error e, s', w') => (.error e, s', w') := by
  have run := Script.run_bind (a s)
    (fun r => ((ExceptT.bindCont f r.1 : StateT σ Script (Except ε β)) r.2)) w
  have unfolded : Script.run ((a >>= f) s) w = Script.run ((a s) >>=
      fun r => ((ExceptT.bindCont f r.1 : StateT σ Script (Except ε β)) r.2)) w := rfl
  rw [outcome, unfolded, run]
  unfold outcome
  rcases Script.run (a s) w with ⟨⟨e | r, s'⟩, w'⟩ <;> rfl

theorem outcome_bind_ok {a : Action σ ε α} {f : α → Action σ ε β} {s s' : σ} {w w' : World} {r : α}
    (first : outcome a s w = (.ok r, s', w')) : outcome (a >>= f) s w = outcome (f r) s' w' := by
  rw [outcome_bind, first]

theorem outcome_bind_error {a : Action σ ε α} {f : α → Action σ ε β} {s s' : σ} {w w' : World} {e : ε}
    (first : outcome a s w = (.error e, s', w')) : outcome (a >>= f) s w = (.error e, s', w') := by
  rw [outcome_bind, first]

theorem outcome_bind_eq_ok {a : Action σ ε α} {f : α → Action σ ε β} {s s'' : σ} {w w'' : World}
    {b : β} : outcome (a >>= f) s w = (.ok b, s'', w'') ↔
      ∃ r s' w', outcome a s w = (.ok r, s', w') ∧ outcome (f r) s' w' = (.ok b, s'', w'') := by
  rw [outcome_bind]
  rcases outcome a s w with ⟨e | r, s', w'⟩
  · simp
  · constructor
    · exact fun rest => ⟨r, s', w', rfl, rest⟩
    · rintro ⟨_, _, _, ⟨⟩, rest⟩
      exact rest

end Action

namespace Transaction

variable {first : Transaction α} {next : α → Transaction β} {db db' : Database} {a : α}

theorem bind_ok (done : first db = .ok (a, db')) : (first >>= next) db = next a db' := by
  show (first db >>= fun r => next r.1 r.2) = next a db'
  rw [done]
  rfl

theorem bind_error {e : DatabaseError} (failed : first db = .error e) :
    (first >>= next) db = .error e := by
  show (first db >>= fun r => next r.1 r.2) = .error e
  rw [failed]
  rfl

theorem bind_eq_ok {b : β} {db'' : Database} :
    (first >>= next) db = .ok (b, db'') ↔
      ∃ a db', first db = .ok (a, db') ∧ next a db' = .ok (b, db'') := by
  constructor
  · intro all
    cases done : first db with
    | error e =>
        rw [bind_error done] at all
        cases all
    | ok r => exact ⟨r.1, r.2, rfl, (bind_ok done).symm.trans all⟩
  · rintro ⟨a, db', done, rest⟩
    rw [bind_ok done, rest]

@[simp] theorem pure_apply (a : α) (db : Database) :
    (pure a : Transaction α) db = .ok (a, db) := rfl

end Transaction

end SymbolIndex
