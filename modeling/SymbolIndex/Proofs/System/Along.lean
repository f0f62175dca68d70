import SymbolIndex.Proofs.System.Run

/-!
# Proofs.System.Along — what holds along a run

A rule is a condition on a call and its answer. It holds along a run when it holds of every call that
the run makes (`Script.Along`), so a hypothesis on what a run is told by the clock or by the disk can
be stated of a whole program and taken apart with it (`Script.along_bind`, `Action.along_bind`).

What every call does, every run does: none changes the working directory
(`Script.workingDirectory_run`).
-/

namespace SymbolIndex

set_option autoImplicit false

variable {α β σ ε δ : Type}

/-- A condition on a call and its answer. -/
abbrev Rule := (γ : Type) → Call γ → γ → Prop

/-- A rule holds of every call of a run and its answer. -/
def Script.Along (P : Rule) : Script α → World → Prop
  | .done _, _ => True
  | .call request next, w =>
    P _ request (request.perform w).1 ∧ Along P (next (request.perform w).1) (request.perform w).2

namespace Script

variable {P Q : Rule}

@[simp] theorem along_pure (a : α) (w : World) : Along P (pure a) w := trivial

@[simp] theorem along_done (a : α) (w : World) : Along P (done a) w := trivial

@[simp] theorem along_ask (request : Call α) (w : World) :
    Along P (ask request) w ↔ P α request (request.perform w).1 := by
  simp [ask, Along]

theorem along_bind (s : Script α) (f : α → Script β) (w : World) :
    Along P (s >>= f) w ↔ Along P s w ∧ Along P (f (s.run w).1) (s.run w).2 := by
  induction s generalizing w with
  | done a => simp [Along, run, Bind.bind, bind]
  | call request next ih =>
      have onward := ih (request.perform w).1 (request.perform w).2
      constructor
      · rintro ⟨here, rest⟩
        obtain ⟨first, second⟩ := onward.1 rest
        exact ⟨⟨here, first⟩, second⟩
      · rintro ⟨⟨here, first⟩, second⟩
        exact ⟨here, onward.2 ⟨first, second⟩⟩

theorem Along.mono {s : Script α} {w : World} (along : Along P s w)
    (weaker : ∀ γ (request : Call γ) answer, P γ request answer → Q γ request answer) :
    Along Q s w := by
  induction s generalizing w with
  | done a => trivial
  | call request next ih => exact ⟨weaker _ _ _ along.1, ih _ along.2⟩

/-- Two rules that hold along a run hold together. -/
theorem Along.and {s : Script α} {w : World} (one : Along P s w) (two : Along Q s w) :
    Along (fun γ request answer => P γ request answer ∧ Q γ request answer) s w := by
  induction s generalizing w with
  | done a => trivial
  | call request next ih => exact ⟨⟨one.1, two.1⟩, ih _ one.2 two.2⟩

/-- What every call keeps to holds along every run. -/
theorem along_of_all (all : ∀ γ (request : Call γ) answer, P γ request answer) (s : Script α) (w : World) :
    Along P s w := by
  induction s generalizing w with
  | done a => trivial
  | call request next ih => exact ⟨all _ _ _, ih _ _⟩

/-- A rule for the script of each element holds for all of them in turn. -/
theorem along_mapM {f : α → Script β} {l : List α} {w : World}
    (still : ∀ a ∈ l, ((f a).run w).2 = w) (along : Along P (l.mapM f) w) :
    ∀ a ∈ l, Along P (f a) w := by
  induction l with
  | nil => simp
  | cons a l ih =>
      rw [List.mapM_cons, along_bind, along_bind, still a (by simp)] at along
      intro b member
      rcases List.mem_cons.1 member with rfl | member
      · exact along.1
      · exact ih (fun a member => still a (by simp [member])) along.2.1 b member

/-- Scripts that leave the world alone answer one after the other as they do alone. -/
theorem run_mapM {f : α → Script β} {g : α → β} {l : List α} {w : World}
    (each : ∀ a ∈ l, (f a).run w = (g a, w)) : (l.mapM f).run w = (l.map g, w) := by
  induction l with
  | nil => rfl
  | cons a l ih =>
      rw [List.mapM_cons, run_bind_of (each a (by simp)),
        run_bind_of (ih fun b member => each b (by simp [member]))]
      rfl

end Script

namespace Disk

variable {d d' : Disk} {now : Int} {path target : Path}

theorem workingDirectory_openFile {truncate : Bool} {id : Nat}
    (opened : d.openFile now truncate path = .ok (id, d')) : d'.workingDirectory = d.workingDirectory := by
  rw [openFile] at opened
  repeat' split at opened
  all_goals cases opened
  all_goals rfl

theorem workingDirectory_rename (renamed : d.rename path target = .ok d') :
    d'.workingDirectory = d.workingDirectory := by
  rw [rename] at renamed
  repeat' split at renamed
  all_goals cases renamed
  all_goals rfl

theorem workingDirectory_removeFile (removed : d.removeFile path = .ok d') :
    d'.workingDirectory = d.workingDirectory := by
  rw [removeFile] at removed
  split at removed <;> cases removed
  rfl

theorem workingDirectory_removeTree (removed : d.removeTree path = .ok d') :
    d'.workingDirectory = d.workingDirectory := by
  rw [removeTree] at removed
  split at removed <;> cases removed
  rfl

theorem workingDirectory_createAlong (start : Address) {passed rest : List Name}
    (created : createAlong now start d passed rest = .ok d') : d'.workingDirectory = d.workingDirectory := by
  induction rest generalizing d passed with
  | nil => cases created; rfl
  | cons name rest ih =>
      simp only [createAlong] at created
      repeat' split at created
      all_goals first
        | exact (ih created).trans rfl
        | cases created

theorem workingDirectory_createDirectories (created : d.createDirectories now path = .ok d') :
    d'.workingDirectory = d.workingDirectory := by
  rw [createDirectories] at created
  split at created
  · cases created
  · split at created
    · cases created
    · exact workingDirectory_createAlong _ created

end Disk

theorem World.workingDirectory_onDisk {w : World} {result : Except DiskError (α × Disk)}
    (still : ∀ a d, result = .ok (a, d) → d.workingDirectory = w.disk.workingDirectory) :
    (w.onDisk result).2.disk.workingDirectory = w.disk.workingDirectory := by
  cases result with
  | error e => rfl
  | ok r => exact still r.1 r.2 rfl

theorem World.workingDirectory_withDisk {w : World} {result : Except DiskError Disk}
    (still : ∀ d, result = .ok d → d.workingDirectory = w.disk.workingDirectory) :
    (w.withDisk result).2.disk.workingDirectory = w.disk.workingDirectory := by
  cases result with
  | error e => rfl
  | ok d => exact still d rfl

/-- No call changes the working directory. -/
theorem Call.workingDirectory_perform (request : Call α) (w : World) :
    (request.perform w).2.disk.workingDirectory = w.disk.workingDirectory := by
  cases request with
  | read | stat | readDirectory | append | now => rfl
  | create | openAppend =>
      exact World.workingDirectory_onDisk fun _ _ => Disk.workingDirectory_openFile
  | rename => exact World.workingDirectory_withDisk fun _ => Disk.workingDirectory_rename
  | removeFile => exact World.workingDirectory_withDisk fun _ => Disk.workingDirectory_removeFile
  | removeTree => exact World.workingDirectory_withDisk fun _ => Disk.workingDirectory_removeTree
  | createDirectories =>
      exact World.workingDirectory_withDisk fun _ => Disk.workingDirectory_createDirectories
  | connect path =>
      rw [Call.perform]
      split
      · rfl
      · next opened => exact Disk.workingDirectory_openFile opened
      · rfl
  | transact action =>
      rw [Call.perform]
      split <;> rfl

theorem Script.workingDirectory_run (s : Script α) (w : World) :
    (s.run w).2.disk.workingDirectory = w.disk.workingDirectory := by
  induction s generalizing w with
  | done a => rfl
  | call request next ih => exact (ih _ _).trans (request.workingDirectory_perform w)

namespace Action

variable {P : Rule}

/-- A rule holds along the run of an action. -/
def Along (P : Rule) (a : Action σ ε α) (s : σ) (w : World) : Prop := Script.Along P (a s) w

theorem along_bind {a : Action σ ε α} {f : α → Action σ ε β} {s s' : σ} {w w' : World} {r : α}
    (first : outcome a s w = (.ok r, s', w')) :
    Along P (a >>= f) s w ↔ Along P a s w ∧ Along P (f r) s' w' := by
  have ran : Script.run (a s) w = ((.ok r, s'), w') := by
    rcases unfolded : Script.run (a s) w with ⟨⟨result, s''⟩, w''⟩
    rw [outcome, unfolded] at first
    cases first
    rfl
  have parts := Script.along_bind (P := P) (a s)
    (fun r => ((ExceptT.bindCont f r.1 : StateT σ Script (Except ε β)) r.2)) w
  rw [ran] at parts
  exact parts

/-- What holds along a run holds along its beginning, however that ends. -/
theorem Along.first {a : Action σ ε α} {f : α → Action σ ε β} {s : σ} {w : World}
    (along : Along P (a >>= f) s w) : Along P a s w :=
  ((Script.along_bind (P := P) (a s)
    (fun r => ((ExceptT.bindCont f r.1 : StateT σ Script (Except ε β)) r.2)) w).1 along).1

@[simp] theorem along_pure (a : α) (s : σ) (w : World) :
    Along P (pure a : Action σ ε α) s w := trivial

@[simp] theorem along_ofPlain (script : Script α) (s : σ) (w : World) :
    Along P (ofPlain script : Action σ ε α) s w ↔ script.Along P w := by
  have outer := Script.along_bind (P := P) (script.bind fun a => .done (.ok a : Except ε α))
    (fun a => .done (a, s)) w
  have inner := Script.along_bind (P := P) script (fun a => .done (.ok a : Except ε α)) w
  exact outer.trans ((and_iff_left trivial).trans (inner.trans (and_iff_left trivial)))

end Action

end SymbolIndex
