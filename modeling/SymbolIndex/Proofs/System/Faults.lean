import SymbolIndex.Proofs.System.Run

/-!
# Proofs.System.Faults — runs in which calls fail

A call to the disk or to the database may fail at any time, for reasons that neither of them knows of: it is answered
by an error, and changes nothing (`Call.Goes`). A run is what the calls are answered, one after the other, and what
comes of it (`Script.Goes`); the run without a fault is one of many (`Script.goes_run`). A run of a sequence is a run
of its parts (`Script.goes_bind`, `Action.goes_bind`).

What a script does to the world is stated as a condition that it keeps, whatever its calls are answered
(`Script.Keeps`, `Action.Keeps`). That is so of a sequence when it is so of its parts.
-/

namespace SymbolIndex

set_option autoImplicit false

variable {α β σ ε δ τ : Type}

/-- A call that was made, and what it was answered. -/
structure Answered where
  {β : Type}
  request : Call β
  answer : β

/-- An error in place of what the disk would answer. That a file is missing is no fault: it is an answer. -/
def DiskFault (answer : Except DiskError α) : Prop := ∃ e, e ≠ .notFound ∧ answer = .error e

/-- What a call may be answered in place of what it does. The clock never fails. -/
def Call.Fault : {β : Type} → Call β → β → Prop
  | _, .read _, answer => DiskFault answer
  | _, .create _, answer => DiskFault answer
  | _, .openAppend _, answer => DiskFault answer
  | _, .append _ _, answer => DiskFault answer
  | _, .rename _ _, answer => DiskFault answer
  | _, .removeFile _, answer => DiskFault answer
  | _, .removeTree _, answer => DiskFault answer
  | _, .createDirectories _, answer => DiskFault answer
  | _, .stat _, answer => DiskFault answer
  | _, .readDirectory _, answer => DiskFault answer
  | _, .now, _ => False
  | _, .connect _, answer => ∃ e, answer = .error e
  | _, .transact _, answer => ∃ e, answer = .error e

/-- A call is performed, or fails and changes nothing. -/
inductive Call.Goes (request : Call β) (w : World) : β → World → Prop where
  | performed : Goes request w (request.perform w).1 (request.perform w).2
  | failed {answer : β} (fault : request.Fault answer) : Goes request w answer w

/-- A call that changes the disk has made its change, or has failed and changed nothing. -/
theorem Call.Goes.onDisk {request : Call (Except DiskError α)} {w w' : World} {answer : Except DiskError α}
    {change : Except DiskError (α × Disk)} (goes : request.Goes w answer w')
    (performs : request.perform w = w.onDisk change) (faults : ∀ answer, request.Fault answer → DiskFault answer) :
    (∃ a d, answer = .ok a ∧ change = .ok (a, d) ∧ w' = { w with disk := d }) ∨ (∃ e, answer = .error e) ∧ w' = w := by
  cases goes with
  | performed =>
      rw [performs]
      rcases change with e | ⟨a, d⟩
      · exact .inr ⟨⟨e, rfl⟩, rfl⟩
      · exact .inl ⟨a, d, rfl, rfl, rfl⟩
  | failed fault =>
      obtain ⟨e, -, rfl⟩ := faults answer fault
      exact .inr ⟨⟨e, rfl⟩, rfl⟩

theorem Call.Goes.withDisk {request : Call (Except DiskError Unit)} {w w' : World} {answer : Except DiskError Unit}
    {change : Except DiskError Disk} (goes : request.Goes w answer w')
    (performs : request.perform w = w.withDisk change) (faults : ∀ answer, request.Fault answer → DiskFault answer) :
    (∃ d, answer = .ok () ∧ change = .ok d ∧ w' = { w with disk := d }) ∨ (∃ e, answer = .error e) ∧ w' = w := by
  rcases goes.onDisk performs faults with ⟨a, d, rfl, changed, rfl⟩ | failed
  · cases change <;> cases changed
    exact .inl ⟨d, rfl, rfl, rfl⟩
  · exact .inr failed

/-- A run of a script: the calls with their answers, the result and the world. -/
inductive Script.Goes : Script α → World → List Answered → α → World → Prop where
  | done (a : α) (w : World) : Goes (.done a) w [] a w
  | call {γ : Type} {request : Call γ} {next : γ → Script α} {w w₁ w' : World} {answer : γ} {t : List Answered} {a : α}
      (first : request.Goes w answer w₁) (rest : Goes (next answer) w₁ t a w') :
      Goes (.call request next) w (⟨request, answer⟩ :: t) a w'

namespace Script

variable {s : Script α} {f : α → Script β} {w w' : World} {t : List Answered}

theorem goes_done {a b : α} : Goes (.done a) w t b w' ↔ t = [] ∧ b = a ∧ w' = w := by
  constructor
  · rintro ⟨⟩
    exact ⟨rfl, rfl, rfl⟩
  · rintro ⟨rfl, rfl, rfl⟩
    exact .done _ _

theorem goes_pure {a b : α} : Goes (pure a) w t b w' ↔ t = [] ∧ b = a ∧ w' = w := goes_done

theorem goes_ask {request : Call α} {a : α} :
    Goes (ask request) w t a w' ↔ t = [⟨request, a⟩] ∧ request.Goes w a w' := by
  constructor
  · intro goes
    cases goes with
    | call first rest =>
        obtain ⟨rfl, rfl, rfl⟩ := goes_done.1 rest
        exact ⟨rfl, first⟩
  · rintro ⟨rfl, goes⟩
    exact .call goes (.done _ _)

/-- A run of a sequence is a run of the first part, and one of the rest. -/
theorem goes_bind {b : β} : Goes (s >>= f) w t b w' ↔
    ∃ t₁ t₂ a w₁, t = t₁ ++ t₂ ∧ s.Goes w t₁ a w₁ ∧ (f a).Goes w₁ t₂ b w' := by
  induction s generalizing w t with
  | done a =>
      constructor
      · intro goes
        exact ⟨[], t, a, w, rfl, .done _ _, goes⟩
      · rintro ⟨t₁, t₂, a', w₁, rfl, first, rest⟩
        obtain ⟨rfl, rfl, rfl⟩ := goes_done.1 first
        exact rest
  | call request next ih =>
      constructor
      · intro goes
        cases goes with
        | call first rest =>
            obtain ⟨t₁, t₂, a, w₁, rfl, front, back⟩ := (ih _).1 rest
            exact ⟨_ :: t₁, t₂, a, w₁, rfl, .call first front, back⟩
      · rintro ⟨t₁, t₂, a, w₁, rfl, goes, back⟩
        cases goes with
        | call first front => exact .call first ((ih _).2 ⟨_, t₂, a, w₁, rfl, front, back⟩)

/-- A run of one call, of whose answer something is made. -/
theorem goes_ask_done {request : Call α} {g : α → β} {b : β} :
    Goes ((ask request).bind fun answer => .done (g answer)) w t b w' ↔
      ∃ answer, b = g answer ∧ t = [⟨request, answer⟩] ∧ request.Goes w answer w' := by
  constructor
  · intro goes
    obtain ⟨t₁, t₂, answer, w₁, rfl, first, rest⟩ := goes_bind.1 goes
    obtain ⟨rfl, rfl, rfl⟩ := goes_done.1 rest
    obtain ⟨rfl, called⟩ := goes_ask.1 first
    exact ⟨answer, rfl, rfl, called⟩
  · rintro ⟨answer, rfl, rfl, goes⟩
    exact goes_bind.2 ⟨_, [], answer, w', rfl, goes_ask.2 ⟨rfl, goes⟩, .done _ _⟩

theorem goes_map {g : α → β} {b : β} : Goes (g <$> s) w t b w' ↔ ∃ a, b = g a ∧ s.Goes w t a w' := by
  rw [← bind_pure_comp]
  constructor
  · intro goes
    obtain ⟨t₁, t₂, a, w₁, rfl, first, rest⟩ := goes_bind.1 goes
    obtain ⟨rfl, rfl, rfl⟩ := goes_pure.1 rest
    exact ⟨a, rfl, by rwa [List.append_nil]⟩
  · rintro ⟨a, rfl, goes⟩
    exact goes_bind.2 ⟨t, [], a, w', by simp, goes, .done _ _⟩

/-- A run of a sequence that may fail ends with an error of the first part, or goes on with the rest. -/
theorem goes_run_bind {s : ExceptT ε Script α} {f : α → ExceptT ε Script β} {r : Except ε β} :
    Goes (s >>= f).run w t r w' ↔
      (∃ e, r = .error e ∧ s.run.Goes w t (.error e) w') ∨
        ∃ a w₁ t₁ t₂, t = t₁ ++ t₂ ∧ s.run.Goes w t₁ (.ok a) w₁ ∧ (f a).run.Goes w₁ t₂ r w' := by
  refine Iff.trans (goes_bind (s := s.run) (f := ExceptT.bindCont f)) ?_
  constructor
  · rintro ⟨t₁, t₂, r₁, w₁, rfl, first, rest⟩
    cases r₁ with
    | error e =>
        obtain ⟨rfl, rfl, rfl⟩ := goes_done.1 rest
        exact .inl ⟨e, rfl, by rwa [List.append_nil]⟩
    | ok a => exact .inr ⟨a, w₁, t₁, t₂, rfl, first, rest⟩
  · rintro (⟨e, rfl, first⟩ | ⟨a, w₁, t₁, t₂, rfl, first, rest⟩)
    · exact ⟨t, [], .error e, w', by simp, first, .done _ _⟩
    · exact ⟨t₁, t₂, .ok a, w₁, rfl, first, rest⟩

theorem goes_lift_bind {f : α → ExceptT ε Script β} {r : Except ε β} :
    Goes (ExceptT.lift s >>= f).run w t r w' ↔
      ∃ a w₁ t₁ t₂, t = t₁ ++ t₂ ∧ s.Goes w t₁ a w₁ ∧ (f a).run.Goes w₁ t₂ r w' := by
  rw [goes_run_bind]
  constructor
  · rintro (⟨e, -, first⟩ | ⟨a, w₁, t₁, t₂, rfl, first, rest⟩)
    · obtain ⟨a, same, -⟩ := goes_map.1 first
      cases same
    · obtain ⟨a, same, ran⟩ := goes_map.1 first
      cases same
      exact ⟨a, w₁, t₁, t₂, rfl, ran, rest⟩
  · rintro ⟨a, w₁, t₁, t₂, rfl, ran, rest⟩
    exact .inr ⟨a, w₁, t₁, t₂, rfl, goes_map.2 ⟨a, rfl, ran⟩, rest⟩

theorem not_goes_throw {e : ε} {a : α} : ¬ Goes (throw e : ExceptT ε Script α).run w t (.ok a) w' := fun goes =>
  nomatch (goes_done.1 goes).2.1

theorem goes_adapt {s : ExceptT ε Script α} {f : ε → δ} {a : α} :
    Goes (s.adapt f).run w t (.ok a) w' ↔ s.run.Goes w t (.ok a) w' := by
  refine goes_map.trans ⟨?_, fun goes => ⟨.ok a, rfl, goes⟩⟩
  rintro ⟨r, same, goes⟩
  cases r with
  | error e => cases same
  | ok b =>
      cases same
      exact goes

/-- The run without a fault. -/
theorem goes_run (s : Script α) (w : World) : ∃ t, s.Goes w t (s.run w).1 (s.run w).2 := by
  induction s generalizing w with
  | done a => exact ⟨[], .done _ _⟩
  | call request next ih =>
      obtain ⟨t, rest⟩ := ih (request.perform w).1 (request.perform w).2
      exact ⟨_, .call .performed rest⟩

end Script

namespace Stored

variable {w w' : World} {t : List Answered}

theorem goes_disk {request : Call (Except DiskError α)} {r : Except StoreError α} :
    Script.Goes (disk request).run w t r w' ↔
      ∃ answer, r = answer.mapError .io ∧ t = [⟨request, answer⟩] ∧ request.Goes w answer w' :=
  Script.goes_ask_done

theorem goes_transact {action : Transaction α} {r : Except StoreError α} :
    Script.Goes (transact action).run w t r w' ↔
      ∃ answer, r = answer.mapError .database ∧ t = [⟨.transact action, answer⟩] ∧
        (Call.transact action).Goes w answer w' :=
  Script.goes_ask_done

end Stored

namespace Action

/-- A run of an action: the calls with their answers, the result, the state and the world. -/
def Goes (a : Action σ ε α) (s : σ) (w : World) (t : List Answered) (r : Except ε α) (s' : σ) (w' : World) : Prop :=
  Script.Goes (a s) w t (r, s') w'

variable {a : Action σ ε α} {f : α → Action σ ε β} {s s' : σ} {w w' : World} {t : List Answered} {r : Except ε α}

theorem goes_of_outcome (done : outcome a s w = (r, s', w')) : ∃ t, a.Goes s w t r s' w' := by
  obtain ⟨t, goes⟩ := Script.goes_run (a s) w
  cases done
  exact ⟨t, goes⟩

theorem goes_pure {b : α} : Goes (pure b : Action σ ε α) s w t r s' w' ↔ t = [] ∧ r = .ok b ∧ s' = s ∧ w' = w := by
  rw [Goes, show (pure b : Action σ ε α) s = .done (.ok b, s) from rfl, Script.goes_done, Prod.mk.injEq, and_assoc]

theorem goes_throw {e : ε} :
    Goes (throw e : Action σ ε α) s w t r s' w' ↔ t = [] ∧ r = .error e ∧ s' = s ∧ w' = w := by
  rw [Goes, show (throw e : Action σ ε α) s = .done (.error e, s) from rfl, Script.goes_done, Prod.mk.injEq, and_assoc]

theorem goes_get {r : Except ε σ} :
    Goes (get : Action σ ε σ) s w t r s' w' ↔ t = [] ∧ r = .ok s ∧ s' = s ∧ w' = w := by
  rw [Goes, show (get : Action σ ε σ) s = .done (.ok s, s) from rfl, Script.goes_done, Prod.mk.injEq, and_assoc]

theorem goes_set {s₁ : σ} {r : Except ε PUnit} :
    Goes (set s₁ : Action σ ε PUnit) s w t r s' w' ↔ t = [] ∧ r = .ok ⟨⟩ ∧ s' = s₁ ∧ w' = w := by
  rw [Goes, show (set s₁ : Action σ ε PUnit) s = .done (.ok ⟨⟩, s₁) from rfl, Script.goes_done, Prod.mk.injEq,
    and_assoc]

theorem goes_modify {g : σ → σ} {r : Except ε PUnit} :
    Goes (modify g : Action σ ε PUnit) s w t r s' w' ↔ t = [] ∧ r = .ok ⟨⟩ ∧ s' = g s ∧ w' = w := by
  rw [Goes, show (modify g : Action σ ε PUnit) s = .done (.ok ⟨⟩, g s) from rfl, Script.goes_done, Prod.mk.injEq,
    and_assoc]

theorem goes_ofScript {script : Script (Except ε α)} :
    Goes (ofScript script : Action σ ε α) s w t r s' w' ↔ s' = s ∧ script.Goes w t r w' := by
  constructor
  · intro goes
    obtain ⟨t₁, t₂, r', w₁, rfl, first, rest⟩ := Script.goes_bind.1 goes
    obtain ⟨rfl, same, rfl⟩ := Script.goes_done.1 rest
    cases same
    rw [List.append_nil]
    exact ⟨rfl, first⟩
  · rintro ⟨rfl, goes⟩
    exact Script.goes_bind.2 ⟨t, [], r, w', by simp, goes, .done _ _⟩

theorem goes_ofPlain {script : Script α} :
    Goes (ofPlain script : Action σ ε α) s w t r s' w' ↔ s' = s ∧ ∃ b, r = .ok b ∧ script.Goes w t b w' := by
  rw [ofPlain, goes_ofScript]
  refine and_congr_right fun _ => ?_
  constructor
  · intro goes
    obtain ⟨t₁, t₂, b, w₁, rfl, first, rest⟩ := Script.goes_bind.1 goes
    obtain ⟨rfl, rfl, rfl⟩ := Script.goes_done.1 rest
    exact ⟨b, rfl, by rwa [List.append_nil]⟩
  · rintro ⟨b, rfl, goes⟩
    exact Script.goes_bind.2 ⟨t, [], b, w', by simp, goes, .done _ _⟩

theorem goes_ask {wrap : δ → ε} {request : Call (Except δ α)} :
    Goes (ask wrap request : Action σ ε α) s w t r s' w' ↔
      s' = s ∧ ∃ answer, r = answer.mapError wrap ∧ t = [⟨request, answer⟩] ∧ request.Goes w answer w' := by
  rw [ask, goes_ofScript]
  exact and_congr_right fun _ => Script.goes_ask_done

theorem goes_within {view : σ → τ} {update : σ → τ → σ} {wrap : δ → ε} {b : Action τ δ α} :
    Goes (within view update wrap b) s w t r s' w' ↔
      ∃ r' v', b.Goes (view s) w t r' v' w' ∧ r = r'.mapError wrap ∧ s' = update s v' := by
  constructor
  · intro goes
    obtain ⟨t₁, t₂, ⟨r', v'⟩, w₁, rfl, first, rest⟩ := Script.goes_bind.1 goes
    obtain ⟨rfl, same, rfl⟩ := Script.goes_done.1 rest
    cases same
    exact ⟨r', v', by rwa [List.append_nil], rfl, rfl⟩
  · rintro ⟨r', v', goes, rfl, rfl⟩
    exact Script.goes_bind.2 ⟨t, [], (r', v'), w', by simp, goes, .done _ _⟩

/-- A run of a sequence ends with an error of the first part, or goes on with the rest. -/
theorem goes_bind {r : Except ε β} : Goes (a >>= f) s w t r s' w' ↔
    (∃ e, r = .error e ∧ a.Goes s w t (.error e) s' w') ∨
      ∃ b s₁ w₁ t₁ t₂, t = t₁ ++ t₂ ∧ a.Goes s w t₁ (.ok b) s₁ w₁ ∧ (f b).Goes s₁ w₁ t₂ r s' w' := by
  let onward : Except ε α × σ → Script (Except ε β × σ) := fun r =>
    (ExceptT.bindCont f r.1 : StateT σ Script (Except ε β)) r.2
  have parts : Script.Goes (a s >>= onward) w t (r, s') w' ↔ _ := Script.goes_bind
  refine Iff.trans parts ?_
  constructor
  · rintro ⟨t₁, t₂, ⟨r₁, s₁⟩, w₁, rfl, first, rest⟩
    cases r₁ with
    | error e =>
        obtain ⟨rfl, same, rfl⟩ := Script.goes_done.1 rest
        cases same
        rw [List.append_nil]
        exact .inl ⟨e, rfl, first⟩
    | ok b => exact .inr ⟨b, s₁, w₁, t₁, t₂, rfl, first, rest⟩
  · rintro (⟨e, rfl, first⟩ | ⟨b, s₁, w₁, t₁, t₂, rfl, first, rest⟩)
    · exact ⟨t, [], (.error e, s'), w', by simp, first, .done _ _⟩
    · exact ⟨t₁, t₂, (.ok b, s₁), w₁, rfl, first, rest⟩

/-- What begins with a call ends with its error, or goes on with its answer. -/
theorem goes_ask_bind {wrap : δ → ε} {request : Call (Except δ α)} {f : α → Action σ ε β} {r : Except ε β}
    (goes : Goes (ask wrap request >>= f) s w t r s' w') :
    (∃ e, r = .error (wrap e) ∧ s' = s ∧ request.Goes w (.error e) w') ∨
      ∃ b w₁ t', request.Goes w (.ok b) w₁ ∧ (f b).Goes s w₁ t' r s' w' := by
  rcases goes_bind.1 goes with ⟨e, rfl, first⟩ | ⟨b, s₁, w₁, t₁, t₂, -, first, rest⟩
  all_goals obtain ⟨rfl, answer, same, -, called⟩ := goes_ask.1 first
  all_goals cases answer <;> cases same
  · exact .inl ⟨_, rfl, rfl, called⟩
  · exact .inr ⟨b, w₁, t₂, called, rest⟩

/-- What goes on with a pure answer ends as the first part does. -/
theorem goes_bind_pure {g : α → β} {r : Except ε β} :
    Goes (a >>= fun b => pure (g b)) s w t r s' w' ↔ ∃ r₁, r = r₁.map g ∧ a.Goes s w t r₁ s' w' := by
  rw [goes_bind]
  constructor
  · rintro (⟨e, rfl, first⟩ | ⟨b, s₁, w₁, t₁, t₂, rfl, first, rest⟩)
    · exact ⟨_, rfl, first⟩
    · obtain ⟨rfl, rfl, rfl, rfl⟩ := goes_pure.1 rest
      exact ⟨_, rfl, by rwa [List.append_nil]⟩
  · rintro ⟨r₁, rfl, goes⟩
    cases r₁ with
    | error e => exact .inl ⟨e, rfl, goes⟩
    | ok b => exact .inr ⟨b, s', w', t, [], by simp, goes, goes_pure.2 ⟨rfl, rfl, rfl, rfl⟩⟩

theorem goes_get_bind {f : σ → Action σ ε β} {r : Except ε β} :
    Goes (get >>= f) s w t r s' w' ↔ Goes (f s) s w t r s' w' := Iff.rfl

theorem goes_set_bind {s₁ : σ} {f : PUnit → Action σ ε β} {r : Except ε β} :
    Goes (set s₁ >>= f) s w t r s' w' ↔ Goes (f ⟨⟩) s₁ w t r s' w' := Iff.rfl

theorem goes_modify_bind {g : σ → σ} {f : PUnit → Action σ ε β} {r : Except ε β} :
    Goes (modify g >>= f) s w t r s' w' ↔ Goes (f ⟨⟩) (g s) w t r s' w' := Iff.rfl

end Action

/-! ## What runs keep -/

/-- A condition on the world that no run of a script breaks. -/
def Script.Keeps (I : World → Prop) (s : Script α) : Prop := ∀ ⦃w t a w'⦄, I w → s.Goes w t a w' → I w'

namespace Script.Keeps

variable {I : World → Prop}

theorem pure (a : α) : Keeps I (Pure.pure a : Script α) := by
  intro w t b w' holds goes
  obtain ⟨-, -, rfl⟩ := goes_pure.1 goes
  exact holds

theorem ask {request : Call α} (performed : ∀ w, I w → I (request.perform w).2) : Keeps I (Script.ask request) := by
  intro w t b w' holds goes
  obtain ⟨-, called⟩ := goes_ask.1 goes
  cases called with
  | performed => exact performed w holds
  | failed fault => exact holds

theorem bind {s : Script α} {f : α → Script β} (first : Keeps I s) (rest : ∀ a, Keeps I (f a)) :
    Keeps I (s >>= f) := by
  intro w t b w' holds goes
  obtain ⟨t₁, t₂, a, w₁, -, front, back⟩ := goes_bind.1 goes
  exact rest a (first holds front) back

theorem mapM {f : α → Script β} (each : ∀ a, Keeps I (f a)) (l : List α) : Keeps I (l.mapM f) := by
  induction l with
  | nil => exact pure _
  | cons a l ih =>
      rw [List.mapM_cons]
      exact (each a).bind fun _ => ih.bind fun _ => pure _

theorem map {s : Script α} (kept : s.Keeps I) (g : α → β) : Keeps I (g <$> s) := by
  rw [← bind_pure_comp]
  exact kept.bind fun _ => pure _

theorem lift {s : Script α} (kept : s.Keeps I) : Keeps I (ExceptT.lift s : ExceptT ε Script α).run := by
  rw [ExceptT.run_lift]
  exact kept.map _

theorem run_bind {s : ExceptT ε Script α} {f : α → ExceptT ε Script β} (first : Keeps I s.run)
    (rest : ∀ a, Keeps I (f a).run) : Keeps I (s >>= f).run :=
  bind first fun r => by
    cases r with
    | error e => exact pure _
    | ok a => exact rest a

theorem stored_pure (a : α) : Keeps I (Pure.pure a : Stored α).run := pure (.ok a : Except StoreError α)

theorem stored_transact {action : Transaction α}
    (performed : ∀ w, I w → I ((Call.transact action).perform w).2) : Keeps I (Stored.transact action).run :=
  bind (ask performed) fun _ => pure _

end Script.Keeps

/-- A condition on the state and the world that no run of an action breaks. -/
def Action.Keeps (J : σ → World → Prop) (a : Action σ ε α) : Prop :=
  ∀ ⦃s w t r s' w'⦄, J s w → a.Goes s w t r s' w' → J s' w'

namespace Action.Keeps

variable {J : σ → World → Prop}

theorem pure (b : α) : Keeps J (Pure.pure b : Action σ ε α) := by
  intro s w t r s' w' holds goes
  obtain ⟨-, -, rfl, rfl⟩ := goes_pure.1 goes
  exact holds

theorem get : Keeps J (MonadState.get : Action σ ε σ) := by
  intro s w t r s' w' holds goes
  obtain ⟨-, -, rfl, rfl⟩ := goes_get.1 goes
  exact holds

theorem set {s₁ : σ} (always : ∀ s w, J s w → J s₁ w) : Keeps J (MonadState.set s₁ : Action σ ε PUnit) := by
  intro s w t r s' w' holds goes
  obtain ⟨-, -, rfl, rfl⟩ := goes_set.1 goes
  exact always s w' holds

theorem modify {g : σ → σ} (always : ∀ s w, J s w → J (g s) w) : Keeps J (modify g : Action σ ε PUnit) := by
  intro s w t r s' w' holds goes
  obtain ⟨-, -, rfl, rfl⟩ := goes_modify.1 goes
  exact always s w' holds

theorem ofScript {script : Script (Except ε α)} (kept : ∀ s, script.Keeps (J s)) :
    Keeps J (Action.ofScript script : Action σ ε α) := by
  intro s w t r s' w' holds goes
  obtain ⟨rfl, ran⟩ := goes_ofScript.1 goes
  exact kept _ holds ran

theorem ask {wrap : δ → ε} {request : Call (Except δ α)} (performed : ∀ s w, J s w → J s (request.perform w).2) :
    Keeps J (Action.ask wrap request : Action σ ε α) := by
  intro s w t r s' w' holds goes
  obtain ⟨rfl, answer, -, -, called⟩ := goes_ask.1 goes
  cases called with
  | performed => exact performed _ w holds
  | failed fault => exact holds

theorem bind {a : Action σ ε α} {f : α → Action σ ε β} (first : Keeps J a) (rest : ∀ b, Keeps J (f b)) :
    Keeps J (a >>= f) := by
  intro s w t r s' w' holds goes
  rcases goes_bind.1 goes with ⟨e, -, front⟩ | ⟨b, s₁, w₁, t₁, t₂, -, front, back⟩
  · exact first holds front
  · exact rest b (first holds front) back

theorem within {K : τ → World → Prop} {view : σ → τ} {update : σ → τ → σ} {wrap : δ → ε} {b : Action τ δ α}
    (kept : Keeps K b) (before : ∀ s w, J s w → K (view s) w)
    (after : ∀ s v w w', J s w → K v w' → J (update s v) w') : Keeps J (Action.within view update wrap b) := by
  intro s w t r s' w' holds goes
  obtain ⟨r', v', ran, -, rfl⟩ := goes_within.1 goes
  exact after s v' w w' holds (kept (before s w holds) ran)

theorem foldlM {f : β → α → Action σ ε β} (each : ∀ b a, Keeps J (f b a)) (l : List α) (b : β) :
    Keeps J (l.foldlM f b) := by
  induction l generalizing b with
  | nil => exact pure _
  | cons a l ih => exact (each b a).bind fun b => ih b

theorem forM {f : α → Action σ ε PUnit} (each : ∀ a, Keeps J (f a)) (l : List α) : Keeps J (l.forM f) := by
  induction l with
  | nil => exact pure _
  | cons a l ih => exact (each a).bind fun _ => ih

end Action.Keeps

end SymbolIndex
