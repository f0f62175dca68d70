import SymbolIndex.Proofs.Store.Tables
import SymbolIndex.Proofs.System.Faults

/-!
# Proofs.Store.Enduring — stores whose calls may fail

A store endures when an operation that fails may have done part of what it was asked for, but nothing else: a batch and
a removal leave the other keys as they are, a sweep the records that are to be kept (`RecordStore.Endures`). What is
asked of the operations is no more than that, so it is a matter of the store how much of a batch that failed is kept.

An operation that is a single transaction makes its change or fails and changes nothing (`Stored.Whole`). So a store of
such operations endures if it keeps a ledger as long as nothing fails (`RecordStore.Keeps.endures`), and the store of
tables is one (`TableStore.endures`).
-/

namespace SymbolIndex

open Script (outcome)

set_option autoImplicit false

variable {α β : Type}

/-- A batch leaves the other keys as they are. -/
theorem Ledger.get?_writeAll_other {rs : List Record} {key : RecordKey} (other : ∀ r ∈ rs, r.key ≠ key) (l : Ledger) :
    (l.writeAll rs).get? key = l.get? key := by
  induction rs generalizing l with
  | nil => rfl
  | cons r rs ih =>
      refine (ih (fun r' member => other r' (by simp [member])) (l.write r)).trans ?_
      cases firm : r.isSpeculative with
      | true => rw [write_speculative firm]
      | false => rw [get?_write firm, if_neg (other r (by simp))]

/-- What an operation that may fail makes of a ledger, whatever its calls are answered. -/
structure RecordStore.Endures (s : RecordStore) (S : String → Prop) (I : Ledger → World → Prop) : Prop where
  writeBatch {l : Ledger} {w : World} {rs : List Record} {t : List Answered} {r : Except StoreError Unit} {w' : World} :
    I l w → (∀ r ∈ rs, r.Within S) → (s.writeBatch rs).run.Goes w t r w' →
      ∃ l', I l' w' ∧ (r = .ok () → l' = l.writeAll rs) ∧ ∀ key, (∀ r ∈ rs, r.key ≠ key) → l'.get? key = l.get? key
  remove {l : Ledger} {w : World} {key : RecordKey} {t : List Answered} {r : Except StoreError Unit} {w' : World} :
    I l w → key.Within S → (s.remove key).run.Goes w t r w' →
      ∃ l', I l' w' ∧ ∀ key', key' ≠ key → l'.get? key' = l.get? key'
  reset {l : Ledger} {w : World} {t : List Answered} {r : Except StoreError Unit} {w' : World} :
    I l w → s.reset.run.Goes w t r w' → ∃ l', I l' w'
  markUpdated {l : Ledger} {w : World} {time : Int64} {t : List Answered} {r : Except StoreError Unit} {w' : World} :
    I l w → (s.markUpdated time).run.Goes w t r w' → ∃ l', I l' w' ∧ ∀ key, l'.get? key = l.get? key
  flush {l : Ledger} {w : World} {t : List Answered} {r : Except StoreError Unit} {w' : World} :
    I l w → s.flush.run.Goes w t r w' → ∃ l', I l' w' ∧ ∀ key, l'.get? key = l.get? key
  sweep {l : Ledger} {w : World} {keep : String → Bool} {t : List Answered} {r : Except StoreError SweepReport}
    {w' : World} : I l w → (s.sweep fun uri => return keep uri).run.Goes w t r w' →
      ∃ l', I l' w' ∧ ∀ key r, l.get? key = some r → Ledger.isOrphan keep r = false → l'.get? key = some r

/-! ## All or nothing -/

namespace Stored

/-- An operation is done as it would be if nothing failed, or there is an error and nothing has changed. -/
def Whole (op : Stored α) (w : World) : Prop :=
  ∀ t r w', op.run.Goes w t r w' → outcome op w = (r, w') ∨ (∃ e, r = .error e) ∧ w' = w

variable {w : World}

theorem whole_pure (a : α) (w : World) : Whole (pure a : Stored α) w := by
  intro t r w' goes
  obtain ⟨-, rfl, rfl⟩ := Script.goes_done.1 goes
  exact .inl rfl

theorem whole_transact (action : Transaction α) (w : World) : Whole (transact action) w := by
  intro t r w' goes
  obtain ⟨answer, rfl, -, called⟩ := goes_transact.1 goes
  cases called with
  | performed => exact .inl rfl
  | failed fault =>
      obtain ⟨e, rfl⟩ := fault
      exact .inr ⟨⟨_, rfl⟩, rfl⟩

theorem Whole.goes {op : Stored α} {r r₀ : Except StoreError α} {w₀ w' : World} {t : List Answered} (whole : Whole op w)
    (done : outcome op w = (r₀, w₀)) (goes : op.run.Goes w t r w') :
    r = r₀ ∧ w' = w₀ ∨ (∃ e, r = .error e) ∧ w' = w := by
  rcases whole t r w' goes with same | failed
  · cases done.symm.trans same
    exact .inl ⟨rfl, rfl⟩
  · exact .inr failed

/-- What goes on after it has read is whole if the rest is. -/
theorem Whole.after {op : Stored α} {next : α → Stored β} {a : α} (first : Whole op w)
    (read : outcome op w = (.ok a, w)) (rest : Whole (next a) w) : Whole (op >>= next) w := by
  intro t r w' goes
  rcases Script.goes_run_bind.1 goes with ⟨e, rfl, stopped⟩ | ⟨a', w₁, t₁, t₂, -, went, onward⟩
  · rcases first.goes read stopped with ⟨same, -⟩ | ⟨-, rfl⟩
    · cases same
    · exact .inr ⟨⟨e, rfl⟩, rfl⟩
  · rcases first.goes read went with ⟨same, rfl⟩ | ⟨⟨e, same⟩, -⟩
    · cases same
      rcases rest _ _ _ onward with done | failed
      · exact .inl ((Script.outcome_bind_ok read).trans done)
      · exact .inr failed
    · cases same

/-- So is what calls nothing after it. -/
theorem Whole.before {op : Stored α} {f : α → β} (first : Whole op w) :
    Whole (op >>= fun a => pure (f a)) w := by
  intro t r w' goes
  rcases Script.goes_run_bind.1 goes with ⟨e, rfl, stopped⟩ | ⟨a, w₁, t₁, t₂, -, went, onward⟩
  · rcases first _ _ _ stopped with done | ⟨-, rfl⟩
    · exact .inl (Script.outcome_bind_error done)
    · exact .inr ⟨⟨e, rfl⟩, rfl⟩
  · obtain ⟨-, rfl, rfl⟩ := Script.goes_done.1 onward
    rcases first _ _ _ went with done | ⟨⟨e, same⟩, -⟩
    · exact .inl (Script.outcome_bind_ok done)
    · cases same

end Stored

namespace RecordStore

variable {s : RecordStore} {S : String → Prop} {I : Ledger → World → Prop} {l : Ledger} {w : World}

/-- A store that keeps a ledger endures if each operation is done as a whole or not at all. -/
theorem Keeps.endures (keeps : s.Keeps S I) (writeBatch : ∀ rs w, Stored.Whole (s.writeBatch rs) w)
    (remove : ∀ key w, Stored.Whole (s.remove key) w) (reset : ∀ w, Stored.Whole s.reset w)
    (markUpdated : ∀ time w, Stored.Whole (s.markUpdated time) w) (flush : ∀ w, Stored.Whole s.flush w)
    (sweep : ∀ (keep : String → Bool) l w, I l w → Stored.Whole (s.sweep fun uri => return keep uri) w) : s.Endures S I where
  writeBatch {l w rs t r w'} stands within goes := by
    obtain ⟨w₁, wrote, stands'⟩ := keeps.writeBatch stands within
    rcases (writeBatch rs w).goes wrote goes with ⟨rfl, rfl⟩ | ⟨⟨e, rfl⟩, rfl⟩
    · exact ⟨_, stands', fun _ => rfl, fun _ other => Ledger.get?_writeAll_other other l⟩
    · exact ⟨l, stands, nofun, fun _ _ => rfl⟩
  remove {l w key t r w'} stands within goes := by
    obtain ⟨w₁, removed, stands'⟩ := keeps.remove stands within
    rcases (remove key w).goes removed goes with ⟨rfl, rfl⟩ | ⟨-, rfl⟩
    · exact ⟨_, stands', fun key' other => by rw [Ledger.get?_remove, if_neg (Ne.symm other)]⟩
    · exact ⟨l, stands, fun _ _ => rfl⟩
  reset {l w t r w'} stands goes := by
    obtain ⟨w₁, cleared, stands'⟩ := keeps.reset stands
    rcases (reset w).goes cleared goes with ⟨rfl, rfl⟩ | ⟨-, rfl⟩
    · exact ⟨_, stands'⟩
    · exact ⟨l, stands⟩
  markUpdated {l w time t r w'} stands goes := by
    obtain ⟨w₁, marked, stands'⟩ := keeps.markUpdated stands
    rcases (markUpdated time w).goes marked goes with ⟨rfl, rfl⟩ | ⟨-, rfl⟩
    · exact ⟨_, stands', fun _ => rfl⟩
    · exact ⟨l, stands, fun _ => rfl⟩
  flush {l w t r w'} stands goes := by
    rcases (flush w).goes (keeps.flush stands) goes with ⟨rfl, rfl⟩ | ⟨-, rfl⟩
    · exact ⟨l, stands, fun _ => rfl⟩
    · exact ⟨l, stands, fun _ => rfl⟩
  sweep {l w keep t r w'} stands goes := by
    obtain ⟨report, w₁, swept, -, stands'⟩ := keeps.sweep stands
    rcases (sweep keep l w stands).goes swept goes with ⟨rfl, rfl⟩ | ⟨-, rfl⟩
    · refine ⟨_, stands', fun key r found kept => ?_⟩
      rw [Ledger.get?_sweep, found, Option.filter_some, kept]
      rfl
    · exact ⟨l, stands, fun _ _ found _ => found⟩

end RecordStore

namespace TableStore

/-- To decide about candidates, nothing is called if the decisions call nothing. -/
theorem orphans_done (keep : String → Bool) (verdicts : SortedMap String Bool) (candidates : List (RecordKey × String)) :
    ∃ found, orphans (fun uri => return keep uri) verdicts candidates = .done found := by
  induction candidates generalizing verdicts with
  | nil => exact ⟨_, rfl⟩
  | cons c rest ih =>
      obtain ⟨key, uri⟩ := c
      obtain ⟨decided, verdict_⟩ : ∃ decided, verdict (fun uri => return keep uri) verdicts uri = .done decided := by
        rw [verdict]
        split
        · exact ⟨_, rfl⟩
        · exact ⟨_, rfl⟩
      obtain ⟨found, orphans_⟩ := ih decided.2
      refine ⟨(if decided.1 then found.1 else key :: found.1, found.2), ?_⟩
      rw [orphans, verdict_]
      show orphans _ decided.2 rest >>= _ = _
      rw [orphans_]
      rfl

theorem whole_sweep {l : Ledger} {w : World} (keep : String → Bool) (holds : Holds w.database l) :
    Stored.Whole (sweep fun uri => return keep uri) w := by
  obtain ⟨candidates, read, -⟩ := holds.toCarries.candidates_ok
  obtain ⟨found, decided⟩ := orphans_done keep .empty candidates
  refine (Stored.whole_transact _ w).after (Stored.outcome_transact_ok read) ?_
  rw [decided]
  exact (Stored.whole_transact (Records.removeAll found.1) w).before

/-- **The store of tables endures**: whatever fails, an operation is done as a whole or not at all. -/
theorem endures (S : String → Prop) : toStore.Endures S (fun l w => Holds w.database l) :=
  (keeps S).endures (fun _ => Stored.whole_transact _) (fun _ => Stored.whole_transact _) (Stored.whole_transact _)
    (fun _ => Stored.whole_transact _) (Stored.whole_pure _) fun keep _ _ holds => whole_sweep keep holds

end TableStore

end SymbolIndex
