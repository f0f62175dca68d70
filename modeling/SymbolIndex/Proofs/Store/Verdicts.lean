import SymbolIndex.Proofs.Store.Ledger

/-!
# Proofs.Store.Verdicts — decisions that do not change

A sweep asks about each URI once and remembers the answer. Where the answer to a URI is always the same,
remembering it or asking again makes no difference: `Agree` says that every remembered answer is the
one that would be given.
-/

namespace SymbolIndex

set_option autoImplicit false

/-- Every remembered verdict is the one that would be given. -/
def Agree (keep : String → Bool) (verdicts : SortedMap String Bool) : Prop :=
  ∀ uri kept, verdicts.get? uri = some kept → kept = keep uri

variable {keep : String → Bool} {verdicts : SortedMap String Bool}

theorem Agree.empty : Agree keep .empty := fun _ _ found => by cases found

theorem verdict_run {decide : String → Script Bool} {w : World}
    (decides : ∀ uri, (decide uri).run w = (keep uri, w)) (agree : Agree keep verdicts)
    (uri : String) : ∃ verdicts', (verdict decide verdicts uri).run w =
        ((keep uri, verdicts'), w) ∧ Agree keep verdicts' := by
  rw [verdict]
  cases found : verdicts.get? uri with
  | some kept => exact ⟨verdicts, by rw [agree uri kept found]; rfl, agree⟩
  | none =>
      refine ⟨verdicts.insert uri (keep uri), Script.run_bind_of (decides uri),
        fun uri' kept found' => ?_⟩
      rw [SortedMap.get?_insert] at found'
      split at found'
      next same => rw [← same, ← Option.some.inj found']
      · exact agree uri' kept found'

/-- A decision that only looks at the world leaves it as it is. -/
theorem verdict_quiet {keep : String → Script Bool} (quiet : ∀ uri w, ((keep uri).run w).2 = w)
    (verdicts : SortedMap String Bool) (uri : String) (w : World) :
    ∃ kept verdicts', (verdict keep verdicts uri).run w = ((kept, verdicts'), w) := by
  rw [verdict]
  cases verdicts.get? uri with
  | some kept => exact ⟨kept, verdicts, rfl⟩
  | none =>
      have decided : (keep uri).run w = (((keep uri).run w).1, w) := Prod.ext rfl (quiet uri w)
      exact ⟨_, _, Script.run_bind_of decided⟩

namespace TableStore

theorem orphans_run {decide : String → Script Bool} {w : World}
    (decides : ∀ uri, (decide uri).run w = (keep uri, w)) (agree : Agree keep verdicts)
    (candidates : List (RecordKey × String)) :
    ∃ verdicts', (orphans decide verdicts candidates).run w =
      (((candidates.filter (fun c => !keep c.2)).map (·.1), verdicts'), w) ∧ Agree keep verdicts' := by
  induction candidates generalizing verdicts with
  | nil => exact ⟨verdicts, rfl, agree⟩
  | cons c rest ih =>
      obtain ⟨key, uri⟩ := c
      obtain ⟨verdicts₁, decided, agree₁⟩ := verdict_run decides agree uri
      obtain ⟨verdicts₂, done, agree₂⟩ := ih agree₁
      refine ⟨verdicts₂, ?_, agree₂⟩
      rw [orphans, Script.run_bind_of decided]
      simp only
      rw [Script.run_bind_of done]
      cases kept : keep uri <;> simp [kept]

end TableStore

end SymbolIndex
