import SymbolIndex.Proofs.System.Run

/-!
# Proofs.System.Consulting — what a script asks of somebody else

A sweep is handed a decision about URIs, a pass over files an extractor. Such a script has a part
that is not its own, and what matters is how often the part is called, with what and in which order.
The part can be told from the rest by the calls it makes: `requests` are the calls of a run, and a
script `Consults` its part about some questions if, whoever answers them and whatever calls the
answers take, the calls of the run are its own with those of the answers in between, one answer for
each question.

An answer here changes nothing and is the same each time (`Answering`). A part that makes no calls at
all is one of them, so what is said of all of them is said of a plain function.
-/

namespace SymbolIndex

set_option autoImplicit false

/-- A call, whatever the type of its answer. -/
structure Requested where
  {answer : Type}
  call : Call answer

namespace Script

variable {α β γ κ ε : Type}

/-- The calls of a run, in order. -/
def requests : Script α → World → List Requested
  | .done _, _ => []
  | .call request next, w =>
    let answer := request.perform w
    ⟨request⟩ :: (next answer.1).requests answer.2

@[simp] theorem requests_pure (a : α) (w : World) : (pure a : Script α).requests w = [] := rfl

theorem requests_bind (s : Script α) (f : α → Script β) (w : World) :
    (s >>= f).requests w = s.requests w ++ (f (s.run w).1).requests (s.run w).2 := by
  induction s generalizing w with
  | done a => rfl
  | call request next ih => exact congrArg (_ :: ·) (ih _ _)

/-- A part that answers questions: the answers do not depend on the world and leave it as it is. -/
structure Answering (ask : κ → Script β) (answer : κ → β) (calls : κ → List Requested) : Prop where
  run : ∀ k w, (ask k).run w = (answer k, w)
  requests : ∀ k w, (ask k).requests w = calls k

theorem answering_pure (answer : κ → β) :
    Answering (fun k => (pure (answer k) : Script β)) answer (fun _ => []) :=
  ⟨fun _ _ => rfl, fun _ _ => rfl⟩

/-- The calls of a run: its own, and those of the answer to each question. -/
def interleave (calls : κ → List Requested) (events : List (Requested ⊕ κ)) : List Requested :=
  events.flatMap (Sum.elim (fun request => [request]) calls)

/-- A script with a part that is not its own comes to a result and asks some questions, whoever
gives the answers. -/
def Consults (answer : κ → β) (s : (κ → Script β) → Script α) (w : World) (a : α) (w' : World)
    (asked : List κ) : Prop :=
  ∃ events : List (Requested ⊕ κ), events.filterMap Sum.getRight? = asked ∧
    ∀ ask calls, Answering ask answer calls →
      (s ask).run w = (a, w') ∧ (s ask).requests w = interleave calls events

namespace Consults

variable {answer : κ → β} {w w₁ w₂ : World}

/-- A part that makes no calls is seen in the result alone. -/
theorem run {s : (κ → Script β) → Script α} {a : α} {asked : List κ}
    (consults : Consults answer s w a w₁ asked) : (s fun k => pure (answer k)).run w = (a, w₁) := by
  obtain ⟨_, -, each⟩ := consults
  exact (each _ _ (answering_pure answer)).1

/-- What does not have the part asks nothing. -/
theorem const (answer : κ → β) {s : Script α} {a : α} (run : s.run w = (a, w₁)) :
    Consults answer (fun _ => s) w a w₁ [] := by
  refine ⟨(s.requests w).map .inl, ?_, fun ask calls _ => ⟨run, ?_⟩⟩
  · rw [List.filterMap_map]
    exact List.filterMap_eq_nil_iff.2 fun _ _ => rfl
  · rw [interleave, List.flatMap_map]
    exact (List.flatMap_singleton' _).symm

theorem ask (answer : κ → β) (k : κ) (w : World) :
    Consults answer (fun ask => ask k) w (answer k) w [k] := by
  refine ⟨[.inr k], rfl, fun ask calls answering => ⟨answering.run k w, ?_⟩⟩
  rw [answering.requests]
  exact (List.append_nil _).symm

theorem bind {s : (κ → Script β) → Script α} {f : (κ → Script β) → α → Script γ} {a : α} {c : γ}
    {asked more : List κ} (first : Consults answer s w a w₁ asked)
    (rest : Consults answer (fun ask => f ask a) w₁ c w₂ more) :
    Consults answer (fun ask => s ask >>= f ask) w c w₂ (asked ++ more) := by
  obtain ⟨events, rfl, each⟩ := first
  obtain ⟨events', rfl, each'⟩ := rest
  refine ⟨events ++ events', List.filterMap_append, fun ask calls answering => ?_⟩
  obtain ⟨run, requests⟩ := each ask calls answering
  obtain ⟨run', requests'⟩ := each' ask calls answering
  refine ⟨by rw [run_bind_of run, run'], ?_⟩
  rw [requests_bind, run, requests, requests', interleave, interleave, interleave,
    List.flatMap_append]

/-- After something that asks nothing. -/
theorem after {s : Script α} {f : (κ → Script β) → α → Script γ} {a : α} {c : γ} {asked : List κ}
    (first : s.run w = (a, w₁)) (rest : Consults answer (fun ask => f ask a) w₁ c w₂ asked) :
    Consults answer (fun ask => s >>= f ask) w c w₂ asked :=
  (const answer first).bind rest

/-- Before something that asks nothing. -/
theorem before {s : (κ → Script β) → Script α} {f : α → Script γ} {a : α} {c : γ} {asked : List κ}
    (first : Consults answer s w a w₁ asked) (rest : (f a).run w₁ = (c, w₂)) :
    Consults answer (fun ask => s ask >>= f) w c w₂ asked := by
  have both := first.bind (f := fun _ => f) (const answer rest)
  rwa [List.append_nil] at both

/-! ### Scripts that may fail -/

theorem bind_ok {s : (κ → Script β) → ExceptT ε Script α} {f : (κ → Script β) → α → ExceptT ε Script γ}
    {a : α} {r : Except ε γ} {asked more : List κ}
    (first : Consults answer (fun ask => (s ask).run) w (.ok a) w₁ asked)
    (rest : Consults answer (fun ask => (f ask a).run) w₁ r w₂ more) :
    Consults answer (fun ask => (s ask >>= f ask).run) w r w₂ (asked ++ more) := by
  simp only [ExceptT.run_bind]
  exact first.bind rest

theorem lift {s : (κ → Script β) → Script α} {a : α} {asked : List κ}
    (consults : Consults answer s w a w₁ asked) :
    Consults answer (fun ask => (ExceptT.lift (s ask) : ExceptT ε Script α).run) w (.ok a) w₁ asked := by
  simp only [ExceptT.run_lift, ← bind_pure_comp]
  exact consults.before rfl

/-! ### Actions -/

section Actions

variable {σ : Type} {t t' : σ}

/-- An action without the part asks nothing. -/
theorem action_const (answer : κ → β) {s : Action σ ε α} {r : Except ε α}
    (done : Action.outcome s t w = (r, t', w₁)) :
    Consults answer (fun _ => s t) w (r, t') w₁ [] := by
  have result : ((s t).run w).1.1 = r := congrArg (·.1) done
  have state : ((s t).run w).1.2 = t' := congrArg (·.2.1) done
  have world : ((s t).run w).2 = w₁ := congrArg (·.2.2) done
  exact const answer (Prod.ext (Prod.ext result state) world)

/-- A part that makes no calls is seen in the outcome alone. -/
theorem action_run {s : (κ → Script β) → Action σ ε α} {r : Except ε α} {asked : List κ}
    (consults : Consults answer (fun ask => s ask t) w (r, t') w₁ asked) :
    Action.outcome (s fun k => pure (answer k)) t w = (r, t', w₁) := by
  rw [Action.outcome, consults.run]

theorem action_bind {s : (κ → Script β) → Action σ ε α} {f : (κ → Script β) → α → Action σ ε γ}
    {a : α} {r : Except ε γ × σ} {asked more : List κ}
    (first : Consults answer (fun ask => s ask t) w (.ok a, t') w₁ asked)
    (rest : Consults answer (fun ask => f ask a t') w₁ r w₂ more) :
    Consults answer (fun ask => (s ask >>= f ask) t) w r w₂ (asked ++ more) := by
  let next : (κ → Script β) → Except ε α × σ → Script (Except ε γ × σ) := fun ask r =>
    (ExceptT.bindCont (f ask) r.1 : StateT σ Script (Except ε γ)) r.2
  exact first.bind (f := next) rest

theorem ofScript {s : (κ → Script β) → Script (Except ε α)} {r : Except ε α} {asked : List κ}
    (consults : Consults answer s w r w₁ asked) (t : σ) :
    Consults answer (fun ask => (Action.ofScript (s ask) : Action σ ε α) t) w (r, t) w₁ asked :=
  consults.before (f := fun r => (pure (r, t) : Script (Except ε α × σ))) rfl

theorem ofPlain {s : (κ → Script β) → Script α} {a : α} {asked : List κ}
    (consults : Consults answer s w a w₁ asked) (t : σ) :
    Consults answer (fun ask => (Action.ofPlain (s ask) : Action σ ε α) t) w (.ok a, t) w₁ asked :=
  (consults.before (f := fun a => (pure (.ok a) : Script (Except ε α))) rfl).ofScript t

/-- The part is asked once, and the rest asks nothing. -/
theorem action_ask {f : β → Action σ ε α} {k : κ} {r : Except ε α}
    (rest : Action.outcome (f (answer k)) t w = (r, t', w₁)) :
    Consults answer (fun ask => (Action.ofPlain (ask k) >>= f : Action σ ε α) t) w (r, t') w₁ [k] :=
  ((Consults.ask answer k w).ofPlain t).action_bind (f := fun _ => f) (action_const answer rest)

end Actions

end Consults

end Script

end SymbolIndex
