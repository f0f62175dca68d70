import SymbolIndex.Proofs.System.Along

/-!
# Proofs.System.Through — what holds of every world along a run

A condition on worlds holds through a run when it holds of every world that the run comes through, the first and the
last among them (`Script.Through`): at each of these points a process can die, or another one look. An action stays
among some worlds and states when it does so and ends in one of the states (`Action.Stays`); the parts of a sequence
are taken one by one (`Stays.bind`).

What nothing is written to holds on its disk and in its database what it held before (`World.Unwritten`).
-/

namespace SymbolIndex

open Action (outcome)

set_option autoImplicit false

variable {α β σ ε δ : Type} {P : World → Prop} {w : World}

/-- A condition holds of every world that a run comes through. -/
def Script.Through (P : World → Prop) : Script α → World → Prop
  | .done _, w => P w
  | .call request next, w => P w ∧ Through P (next (request.perform w).1) (request.perform w).2

namespace Script

theorem Through.last {s : Script α} (through : Through P s w) : P (s.run w).2 := by
  induction s generalizing w with
  | done a => exact through
  | call request next ih => exact ih _ through.2

theorem through_bind (s : Script α) (f : α → Script β) (w : World) :
    Through P (s >>= f) w ↔ Through P s w ∧ Through P (f (s.run w).1) (s.run w).2 := by
  induction s generalizing w with
  | done a =>
      have first : ∀ {s : Script β} {w}, Through P s w → P w := by
        rintro (_ | _) w through
        · exact through
        · exact through.1
      exact ⟨fun rest => ⟨first rest, rest⟩, And.right⟩
  | call request next ih =>
      constructor
      · rintro ⟨here, rest⟩
        obtain ⟨one, two⟩ := (ih _ _).1 rest
        exact ⟨⟨here, one⟩, two⟩
      · rintro ⟨⟨here, one⟩, two⟩
        exact ⟨here, (ih _ _).2 ⟨one, two⟩⟩

end Script

/-- Between two worlds nothing was written: the disk and the database are as they were, whatever the clock. -/
structure World.Unwritten (w w' : World) : Prop where
  disk : w'.disk = w.disk
  database : w'.database = w.database

theorem World.Unwritten.refl (w : World) : w.Unwritten w := ⟨rfl, rfl⟩

namespace Action

/-- A run stays among some worlds, and it ends in one of some states. -/
structure Stays (P : World → Prop) (J : σ → Prop) (a : Action σ ε α) (s : σ) (w : World) : Prop where
  through : Script.Through P (a s) w
  state : J (outcome a s w).2.1

namespace Stays

variable {J : σ → Prop} {a : Action σ ε α} {f : α → Action σ ε β} {s : σ}

theorem world (stays : Stays P J a s w) : P (outcome a s w).2.2 := stays.through.last

theorem of_pure (r : α) (world : P w) (state : J s) : Stays P J (pure r : Action σ ε α) s w := ⟨world, state⟩

theorem of_get (world : P w) (state : J s) : Stays P J (get : Action σ ε σ) s w := ⟨world, state⟩

theorem of_script {script : Script (Except ε α)} (through : script.Through P w) (state : J s) :
    Stays P J (ofScript script : Action σ ε α) s w :=
  ⟨(Script.through_bind script (fun a => .done (a, s)) w).2 ⟨through, through.last⟩, by rwa [outcome_ofScript]⟩

theorem of_plain {script : Script α} (through : script.Through P w) (state : J s) :
    Stays P J (ofPlain script : Action σ ε α) s w :=
  of_script ((Script.through_bind script (fun a => .done (.ok a : Except ε α)) w).2 ⟨through, through.last⟩) state

/-- An action on a part of the state stays where the part does. -/
theorem within {τ : Type} {view : σ → τ} {update : σ → τ → σ} {wrap : δ → ε} {a : Action τ δ α}
    (part : Stays P (fun t => J (update s t)) a (view s) w) : Stays P J (within view update wrap a) s w := by
  refine ⟨(Script.through_bind (a (view s)) (fun r => .done (r.1.mapError wrap, update s r.2)) w).2
    ⟨part.through, part.world⟩, ?_⟩
  rw [outcome_within]
  exact part.state

/-- A sequence stays where its parts do. -/
theorem bind (first : Stays P J a s w)
    (next : ∀ r s' w', outcome a s w = (.ok r, s', w') → J s' → P w' → Stays P J (f r) s' w') :
    Stays P J (a >>= f) s w := by
  have parts := (Script.through_bind (P := P) (a s)
    (fun r => ((ExceptT.bindCont f r.1 : StateT σ Script (Except ε β)) r.2)) w).2
  have whole := outcome_bind a f s w
  rcases ran : Script.run (a s) w with ⟨⟨e | r, s'⟩, w'⟩
  · have done : outcome a s w = (.error e, s', w') := by rw [outcome, ran]
    rw [ran] at parts
    refine ⟨parts ⟨first.through, ?_⟩, ?_⟩
    · have world := first.world
      rwa [done] at world
    · have state := first.state
      rw [done] at state whole
      rwa [whole]
  · have done : outcome a s w = (.ok r, s', w') := by rw [outcome, ran]
    have state := first.state
    have world := first.world
    rw [done] at state world whole
    have rest := next r s' w' done state world
    rw [ran] at parts
    refine ⟨parts ⟨first.through, rest.through⟩, ?_⟩
    rw [whole]
    exact rest.state

/-- Steps that stay where they are stay there in turn. -/
theorem foldlM {f : β → α → Action σ ε β} {l : List α} {b : β} (world : P w) (state : J s)
    (each : ∀ a ∈ l, ∀ b s w, P w → J s → Stays P J (f b a) s w) : Stays P J (l.foldlM f b) s w := by
  induction l generalizing b s w with
  | nil => exact of_pure b world state
  | cons a l ih =>
      rw [List.foldlM_cons]
      exact (each a (by simp) b s w world state).bind fun b' s' w' _ state' world' =>
        ih world' state' fun a' member => each a' (by simp [member])

theorem forM {f : α → Action σ ε PUnit} {l : List α} (world : P w) (state : J s)
    (each : ∀ a ∈ l, ∀ s w, P w → J s → Stays P J (f a) s w) : Stays P J (l.forM f) s w := by
  induction l generalizing s w with
  | nil => exact of_pure _ world state
  | cons a l ih =>
      exact (each a (by simp) s w world state).bind fun _ s' w' _ state' world' =>
        ih world' state' fun a' member => each a' (by simp [member])

end Stays

end Action

end SymbolIndex
