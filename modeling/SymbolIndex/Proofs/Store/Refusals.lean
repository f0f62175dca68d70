import SymbolIndex.Proofs.Store.Enduring
import SymbolIndex.Proofs.Store.Transparency

/-!
# Proofs.Store.Refusals — writes that the store refuses

A buffer gives up its writes before the store has taken them: a flush clears it and then hands over what waited
(`Buffer.goes_flush`). A batch that the store refuses is gone, whether the flush was asked for, completed a batch or
came before a sweep, and what is read after it is what the store has without the writes.

So a write stays for as long as no batch with it is refused. What is left of the writes is followed along any run in
which any call may fail (`Buffer.Course`), and these are the writes that are read through the buffer, and that are in
the store after a flush that succeeds (`Buffer.kept_unless_refused`).
-/

namespace SymbolIndex

open Action (outcome)

set_option autoImplicit false

namespace BufferCommand

/-- Whether an operation is one. A batch is its writes, one after the other, each of which may fail. -/
def Single : BufferCommand → Prop
  | .store (.writeBatch _) => False
  | _ => True

/-- What waits when an operation hands it over to the store, if it does. -/
def hands (b : Buffer) : BufferCommand → Option Buffer
  | .store (.write r) =>
      if r.isSpeculative then none else if b.autoFlush && (b.insert r).isFull then some (b.insert r) else none
  | .store (.sweep _) | .flush => some b
  | _ => none

/-- A write takes the place of what was written to its key. -/
def written (kept : Record → Prop) (r x : Record) : Prop :=
  if r.isSpeculative then kept x else x = r ∨ kept x ∧ x.key ≠ r.key

theorem written_iff {kept : Record → Prop} {r x : Record} (firm : r.isSpeculative = false) :
    written kept r x ↔ x = r ∨ kept x ∧ x.key ≠ r.key := by
  rw [written, if_neg (by simp [firm])]

/-- The writes that an operation has neither overwritten, nor removed, nor swept out. -/
def leaves (kept : Record → Prop) : BufferCommand → Record → Prop
  | .store (.write r) => written kept r
  | .store (.writeBatch rs) => rs.foldl written kept
  | .store (.remove key) => fun x => kept x ∧ x.key ≠ key
  | .store .reset => fun _ => False
  | .store (.sweep keep) => fun x => kept x ∧ Ledger.isOrphan keep x = false
  | .store (.markUpdated _) | .flush | .setAutoFlush _ => kept

end BufferCommand

namespace Buffer

variable {α : Type} {s : RecordStore} {S : String → Prop} {I : Ledger → World → Prop} {b b' : Buffer} {w w' : World}
  {t : List Answered} {kept : Record → Prop}

/-- The calls are those of a batch of what waits, and the store answers it with an error. -/
def Refused (s : RecordStore) (b : Buffer) (w : World) (t : List Answered) (r : Except StoreError α) (w' : World) :
    Prop :=
  ∃ e, r = .error e ∧ (s.writeBatch b.pending.values).run.Goes w t (.error e) w'

theorem Refused.map {β : Type} {r : Except StoreError α} (refused : Refused s b w t r w') (g : α → β) :
    Refused s b w t (r.map g) w' := by
  obtain ⟨e, rfl, batch⟩ := refused
  exact ⟨e, rfl, batch⟩

/-- **A flush clears the buffer**, and then the store refuses what waited, or has taken it. -/
theorem goes_flush {r : Except StoreError Unit} (goes : (flush s).Goes b w t r b' w') :
    b' = b.clear ∧ (Refused s b w t r w' ∨ ∃ w₁ t₂, s.flush.run.Goes w₁ t₂ r w' ∧
      (b.pending = .empty ∧ w₁ = w ∨ ∃ t₁, (s.writeBatch b.pending.values).run.Goes w t₁ (.ok ()) w₁)) := by
  replace goes := Action.goes_get_bind.1 goes
  replace goes := Action.goes_set_bind.1 goes
  cases none_ : b.pending.isEmpty with
  | true =>
      simp only [none_, Bool.not_true, Bool.false_eq_true, if_false] at goes
      obtain ⟨cleared, flushed⟩ := Action.goes_ofScript.1 goes
      exact ⟨cleared, .inr ⟨w, t, flushed, .inl ⟨SortedMap.isEmpty_iff.1 none_, rfl⟩⟩⟩
  | false =>
      simp only [none_, Bool.not_false, if_true] at goes
      rcases Action.goes_bind.1 goes with ⟨e, rfl, handed⟩ | ⟨_, b₁, w₁, t₁, t₂, -, handed, rest⟩
      · obtain ⟨cleared, refused⟩ := Action.goes_ofScript.1 handed
        exact ⟨cleared, .inl ⟨e, rfl, refused⟩⟩
      · obtain ⟨cleared, took⟩ := Action.goes_ofScript.1 handed
        obtain ⟨same, flushed⟩ := Action.goes_ofScript.1 rest
        exact ⟨same.trans cleared, .inr ⟨w₁, t₂, flushed, .inr ⟨t₁, took⟩⟩⟩

/-- A write waits, and is handed over with what waits if it completes a batch. A class without a type is dropped. -/
theorem goes_write {x : Record} {r : Except StoreError Unit} (goes : (write s x).Goes b w t r b' w') :
    x.isSpeculative = true ∧ BufferCommand.hands b (.store (.write x)) = none ∧ b' = b ∧ w' = w ∨
      x.isSpeculative = false ∧
        (BufferCommand.hands b (.store (.write x)) = none ∧ b' = b.insert x ∧ w' = w ∨
          BufferCommand.hands b (.store (.write x)) = some (b.insert x) ∧ (flush s).Goes (b.insert x) w t r b' w') := by
  rw [write] at goes
  rw [BufferCommand.hands]
  cases firm : x.isSpeculative with
  | true =>
      simp only [firm, if_true] at goes
      obtain ⟨-, -, same, unchanged⟩ := Action.goes_pure.1 goes
      exact .inl ⟨rfl, rfl, same, unchanged⟩
  | false =>
      simp only [firm, Bool.false_eq_true, if_false] at goes
      replace goes := Action.goes_modify_bind.1 goes
      replace goes := Action.goes_get_bind.1 goes
      have auto : (b.insert x).autoFlush = b.autoFlush := rfl
      rw [auto] at goes
      refine .inr ⟨rfl, ?_⟩
      cases full : b.autoFlush && (b.insert x).isFull with
      | true =>
          simp only [full, if_true] at goes
          exact .inr ⟨rfl, goes⟩
      | false =>
          simp only [full, Bool.false_eq_true, if_false] at goes
          obtain ⟨-, -, waits, unchanged⟩ := Action.goes_pure.1 goes
          exact .inl ⟨rfl, waits, unchanged⟩

/-! ## What is kept -/

/-- Some writes are kept: they wait, or the store has them. -/
def Retains (S : String → Prop) (I : Ledger → World → Prop) (b : Buffer) (w : World) (kept : Record → Prop) : Prop :=
  ∃ l, I l w ∧ b.Sound S ∧ ∀ x, kept x → x.Within S ∧ (b.onto l).get? x.key = some x

namespace Retains

theorem mono {kept' : Record → Prop} (retains : Retains S I b w kept) (fewer : ∀ x, kept' x → kept x) :
    Retains S I b w kept' := by
  obtain ⟨l, stands, sound, there⟩ := retains
  exact ⟨l, stands, sound, fun x member => there x (fewer x member)⟩

theorem insert (retains : Retains S I b w kept) {r : Record} (firm : r.isSpeculative = false) (within : r.Within S) :
    Retains S I (b.insert r) w (BufferCommand.written kept r) := by
  obtain ⟨l, stands, sound, there⟩ := retains
  refine ⟨l, stands, sound.insert firm within, fun x left => ?_⟩
  rw [onto_insert sound.toFormed firm, Ledger.get?_write firm]
  rcases (BufferCommand.written_iff firm).1 left with rfl | ⟨old, other⟩
  · exact ⟨within, if_pos rfl⟩
  · rw [if_neg (Ne.symm other)]
    exact there x old

/-- What waits is lost if it is refused, and otherwise nothing is. -/
theorem flush (endures : s.Endures S I) (retains : Retains S I b w kept) {r : Except StoreError Unit}
    (goes : (Buffer.flush s).Goes b w t r b' w') :
    Retains S I b' w' fun x => kept x ∧ (Refused s b w t r w' → b.pending.get? x.key = none) := by
  obtain ⟨l, stands, sound, there⟩ := retains
  have within : ∀ r ∈ b.pending.values, r.Within S := fun r member => sound.within_values member
  obtain ⟨rfl, refused | ⟨w₁, t₂, flushed, taken⟩⟩ := goes_flush goes
  · -- How much of the batch the store has kept is open: only the other keys are known to be as they were.
    obtain ⟨e, -, batch⟩ := id refused
    obtain ⟨l', stands', -, others⟩ := endures.writeBatch stands within batch
    refine ⟨l', stands', sound_of_empty rfl, fun x ⟨old, spared⟩ => ⟨(there x old).1, ?_⟩⟩
    have absent := spared refused
    have other : ∀ r ∈ b.pending.values, r.key ≠ x.key := fun r member =>
      sound.toFormed.ne_of_mem_values member absent
    have found := (there x old).2
    rw [get?_onto sound.toFormed, absent, Option.none_or] at found
    rw [onto_of_empty rfl, others x.key other, found]
  · have stands₁ : I (b.onto l) w₁ := by
      rcases taken with ⟨none_, rfl⟩ | ⟨t₁, took⟩
      · rwa [onto_of_empty none_]
      · obtain ⟨l', stands', wrote, -⟩ := endures.writeBatch stands within took
        obtain rfl := wrote rfl
        exact stands'
    obtain ⟨l', stands', same⟩ := endures.flush stands₁ flushed
    refine ⟨l', stands', sound_of_empty rfl, fun x ⟨old, _⟩ => ⟨(there x old).1, ?_⟩⟩
    rw [onto_of_empty rfl, same]
    exact (there x old).2

/-- A write waits, or completes a batch, which may be refused. -/
theorem write (endures : s.Endures S I) (retains : Retains S I b w kept) {x : Record} (within : x.Within S)
    {r : Except StoreError Unit} (goes : (Buffer.write s x).Goes b w t r b' w') :
    Retains S I b' w' fun y => BufferCommand.written kept x y ∧
      ∀ handed, BufferCommand.hands b (.store (.write x)) = some handed →
        Refused s handed w t r w' → handed.pending.get? y.key = none := by
  rcases goes_write goes with ⟨speculative, -, rfl, rfl⟩ | ⟨firm, ⟨-, rfl, rfl⟩ | ⟨hands, flushed⟩⟩
  · refine retains.mono fun y left => ?_
    rw [BufferCommand.written, if_pos speculative] at left
    exact left.1
  · exact (retains.insert firm within).mono fun y => And.left
  · exact ((retains.insert firm within).flush endures flushed).mono fun y left => ⟨left.1, left.2 _ hands⟩

theorem remove (endures : s.Endures S I) (retains : Retains S I b w kept) {key : RecordKey} (within : key.Within S)
    {r : Except StoreError Unit} (goes : (Buffer.remove s key).Goes b w t r b' w') :
    Retains S I b' w' fun x => kept x ∧ x.key ≠ key := by
  obtain ⟨l, stands, sound, there⟩ := retains
  obtain ⟨rfl, removed⟩ := Action.goes_ofScript.1 (Action.goes_modify_bind.1 goes)
  obtain ⟨l', stands', others⟩ := endures.remove stands within removed
  refine ⟨l', stands', sound.erase key, fun x ⟨old, other⟩ => ⟨(there x old).1, ?_⟩⟩
  rw [get?_onto (sound.toFormed.erase key), erase, SortedMap.get?_erase, if_neg (Ne.symm other), others _ other,
    ← get?_onto sound.toFormed]
  exact (there x old).2

theorem reset (endures : s.Endures S I) (retains : Retains S I b w kept) {r : Except StoreError Unit}
    (goes : (Buffer.reset s).Goes b w t r b' w') : Retains S I b' w' fun _ => False := by
  obtain ⟨l, stands, -⟩ := retains
  obtain ⟨rfl, cleared⟩ := Action.goes_ofScript.1 (Action.goes_modify_bind.1 goes)
  obtain ⟨l', stands'⟩ := endures.reset stands cleared
  exact ⟨l', stands', sound_of_empty rfl, fun _ none_ => none_.elim⟩

theorem markUpdated (endures : s.Endures S I) (retains : Retains S I b w kept) {time : Int64}
    {r : Except StoreError Unit} (goes : (Action.ofScript (s.markUpdated time) : Buffered Unit).Goes b w t r b' w') :
    Retains S I b' w' kept := by
  obtain ⟨l, stands, sound, there⟩ := retains
  obtain ⟨rfl, marked⟩ := Action.goes_ofScript.1 goes
  obtain ⟨l', stands', same⟩ := endures.markUpdated stands marked
  refine ⟨l', stands', sound, fun x old => ⟨(there x old).1, ?_⟩⟩
  rw [get?_onto sound.toFormed, same, ← get?_onto sound.toFormed]
  exact (there x old).2

/-- A sweep flushes first. If that fails, nothing is swept out. -/
theorem sweep (endures : s.Endures S I) (retains : Retains S I b w kept) {keep : String → Bool}
    {r : Except StoreError SweepReport} (goes : (Buffer.sweep s fun uri => return keep uri).Goes b w t r b' w') :
    Retains S I b' w' fun x => (kept x ∧ Ledger.isOrphan keep x = false) ∧
      (Refused s b w t r w' → b.pending.get? x.key = none) := by
  rcases Action.goes_bind.1 goes with ⟨e, rfl, stopped⟩ | ⟨_, b₁, w₁, t₁, t₂, -, flushed, rest⟩
  · -- The error of the flush is the error of the sweep, so the sweep was refused what the flush was.
    refine (retains.flush endures stopped).mono fun x ⟨⟨old, _⟩, spared⟩ => ⟨old, fun refused => spared ?_⟩
    obtain ⟨e', same, batch⟩ := refused
    cases same
    exact ⟨e, rfl, batch⟩
  · obtain ⟨l, stands, sound, there⟩ := retains.flush endures flushed
    obtain ⟨cleared, -⟩ := goes_flush flushed
    obtain ⟨rfl, swept⟩ := Action.goes_ofScript.1 rest
    obtain ⟨l', stands', spares⟩ := endures.sweep stands swept
    refine ⟨l', stands', sound, fun x ⟨⟨old, placed⟩, _⟩ => ?_⟩
    obtain ⟨within, found⟩ := there x ⟨old, fun refused => nomatch refused.choose_spec.1⟩
    have empty : b'.pending = .empty := by rw [cleared, clear]
    rw [onto_of_empty empty] at found ⊢
    exact ⟨within, spares _ x found placed⟩

/-- **One operation**, in which any call may fail. -/
theorem perform (endures : s.Endures S I) (retains : Retains S I b w kept) {c : BufferCommand} (single : c.Single)
    (within : c.Within S) {r : Except StoreError (List Record)} (goes : (c.perform s).Goes b w t r b' w') :
    Retains S I b' w' fun x => c.leaves kept x ∧
      ∀ handed, c.hands b = some handed → Refused s handed w t r w' → handed.pending.get? x.key = none := by
  cases c with
  | store c =>
      cases c with
      | write x =>
          obtain ⟨r₁, rfl, wrote⟩ := Action.goes_bind_pure.1 goes
          exact (retains.write endures within wrote).mono fun y ⟨old, spared⟩ =>
            ⟨old, fun handed hands refused => spared handed hands (refused.map _)⟩
      | writeBatch rs => exact single.elim
      | remove key =>
          obtain ⟨r₁, -, removed⟩ := Action.goes_bind_pure.1 goes
          exact (retains.remove endures within removed).mono fun x => And.left
      | reset =>
          obtain ⟨r₁, -, cleared⟩ := Action.goes_bind_pure.1 goes
          exact (retains.reset endures cleared).mono fun x => And.left
      | markUpdated time =>
          obtain ⟨r₁, -, marked⟩ := Action.goes_bind_pure.1 goes
          exact (retains.markUpdated endures marked).mono fun x => And.left
      | sweep keep =>
          obtain ⟨r₁, rfl, swept⟩ := Action.goes_bind_pure.1 goes
          exact (retains.sweep endures swept).mono fun x ⟨old, spared⟩ =>
            ⟨old, fun refused => spared b rfl (refused.map _)⟩
  | flush =>
      obtain ⟨r₁, rfl, flushed⟩ := Action.goes_bind_pure.1 goes
      exact (retains.flush endures flushed).mono fun x ⟨old, spared⟩ =>
        ⟨old, fun refused => spared b rfl (refused.map _)⟩
  | setAutoFlush enabled =>
      obtain ⟨r₁, -, turned⟩ := Action.goes_bind_pure.1 goes
      obtain ⟨-, -, rfl, rfl⟩ := Action.goes_modify.1 turned
      obtain ⟨l, stands, sound, there⟩ := retains
      exact ⟨l, stands, ⟨⟨sound.keyed, sound.firm⟩, sound.within⟩, fun x left => there x left.1⟩

end Retains

/-! ## A run -/

/-- A run of operations, in any of which any call may fail, and the writes that are kept: those that were neither
overwritten, removed nor swept out, and that waited in no batch that was refused. -/
inductive Course (s : RecordStore) (S : String → Prop) (I : Ledger → World → Prop) :
    Buffer → World → (Record → Prop) → Prop where
  | start {l : Ledger} {b : Buffer} {w : World} (stands : I l w) (sound : b.Sound S) :
      Course s S I b w fun x => x.Within S ∧ (b.onto l).get? x.key = some x
  | performed {b b' : Buffer} {w w' : World} {kept : Record → Prop} {t : List Answered}
      {r : Except StoreError (List Record)} (course : Course s S I b w kept) (c : BufferCommand) (single : c.Single)
      (within : c.Within S) (goes : (c.perform s).Goes b w t r b' w') :
      Course s S I b' w' fun x => c.leaves kept x ∧
        ∀ handed, c.hands b = some handed → Refused s handed w t r w' → handed.pending.get? x.key = none

theorem Course.retains (endures : s.Endures S I) (course : Course s S I b w kept) : Retains S I b w kept := by
  induction course with
  | @start l b w stands sound => exact ⟨l, stands, sound, fun x there => there⟩
  | performed _ c single within goes ih => exact ih.perform endures single within goes

/-- A batch is a run of its writes. If it succeeds, none of them was refused. -/
theorem Course.writeBatch {rs : List Record} {r : Except StoreError Unit} (course : Course s S I b w kept)
    (within : ∀ x ∈ rs, x.Within S) (goes : (Buffer.writeBatch s rs).Goes b w t r b' w') :
    ∃ kept', Course s S I b' w' kept' ∧ (r = .ok () → kept' = rs.foldl BufferCommand.written kept) := by
  -- The first write that fails ends the batch. One that succeeds was not refused, so it leaves what it says.
  induction rs generalizing b w t kept with
  | nil =>
      obtain ⟨-, rfl, rfl, rfl⟩ := Action.goes_pure.1 goes
      exact ⟨kept, course, fun _ => rfl⟩
  | cons x rs ih =>
      have wrote {t₁ : List Answered} {r₁ : Except StoreError Unit} {b₁ : Buffer} {w₁ : World}
          (goes : (Buffer.write s x).Goes b w t₁ r₁ b₁ w₁) :=
        Course.performed course (.store (.write x)) trivial (within x (by simp)) (Action.goes_bind_pure.2 ⟨_, rfl, goes⟩)
      rcases Action.goes_bind.1 goes with ⟨e, rfl, stopped⟩ | ⟨_, b₁, w₁, t₁, t₂, -, first, rest⟩
      · exact ⟨_, wrote stopped, nofun⟩
      · obtain ⟨kept', course', all⟩ := ih (wrote first) (fun y member => within y (by simp [member])) rest
        refine ⟨kept', course', fun done => (all done).trans (congrArg (rs.foldl BufferCommand.written) ?_)⟩
        funext y
        exact propext (and_iff_left fun _ _ refused => nomatch refused.choose_spec.1)

/-! ## What is read -/

/-- What an operation hands over leaves the buffer, whatever comes of it. -/
theorem goes_hands {c : BufferCommand} {handed : Buffer} {r : Except StoreError (List Record)}
    (hands : c.hands b = some handed) (goes : (c.perform s).Goes b w t r b' w') : b' = handed.clear := by
  cases c with
  | store c =>
      cases c with
      | write x =>
          obtain ⟨r₁, -, wrote⟩ := Action.goes_bind_pure.1 goes
          rcases goes_write wrote with ⟨-, none_, -⟩ | ⟨-, ⟨none_, -⟩ | ⟨some_, flushed⟩⟩
          · cases none_.symm.trans hands
          · cases none_.symm.trans hands
          · cases some_.symm.trans hands
            exact (goes_flush flushed).1
      | sweep keep =>
          cases hands
          obtain ⟨r₁, -, swept⟩ := Action.goes_bind_pure.1 goes
          rcases Action.goes_bind.1 swept with ⟨e, -, stopped⟩ | ⟨_, b₁, w₁, t₁, t₂, -, flushed, rest⟩
          · exact (goes_flush stopped).1
          · obtain ⟨rfl, -⟩ := Action.goes_ofScript.1 rest
            exact (goes_flush flushed).1
      | writeBatch _ | remove _ | reset | markUpdated _ => cases hands
  | flush =>
      cases hands
      obtain ⟨r₁, -, flushed⟩ := Action.goes_bind_pure.1 goes
      exact (goes_flush flushed).1
  | setAutoFlush _ => cases hands

/-- What is handed over is what waits, with the write that completes the batch. -/
theorem Retains.handed {c : BufferCommand} {handed : Buffer} (retains : Retains S I b w kept) (within : c.Within S)
    (hands : c.hands b = some handed) : ∃ kept', Retains S I handed w kept' := by
  cases c with
  | store c =>
      cases c with
      | write x =>
          rw [BufferCommand.hands] at hands
          split at hands
          · cases hands
          next firm =>
            split at hands
            · cases hands
              exact ⟨_, retains.insert (by simpa using firm) within⟩
            · cases hands
      | sweep keep =>
          cases hands
          exact ⟨_, retains⟩
      | writeBatch _ | remove _ | reset | markUpdated _ => cases hands
  | flush =>
      cases hands
      exact ⟨_, retains⟩
  | setAutoFlush _ => cases hands

/-- A batch that is refused is no matter to the keys that are not in it. -/
theorem Retains.get_spared (endures : s.Endures S I) (answers : ∀ {l w}, I l w → s.Answers S l w)
    (retains : Retains S I b w kept) {r : Except StoreError α} (refused : Refused s b w t r w') {key : RecordKey}
    (within : key.Within S) (absent : b.pending.get? key = none) :
    (Script.outcome (s.get key) w').1 = (Script.outcome (s.get key) w).1 := by
  obtain ⟨l, stands, sound, -⟩ := retains
  obtain ⟨e, -, batch⟩ := refused
  have taken : ∀ r ∈ b.pending.values, r.Within S := fun r member => sound.within_values member
  obtain ⟨l', stands', -, others⟩ := endures.writeBatch stands taken batch
  rw [(answers stands).get key within, (answers stands').get key within,
    others key fun r member => sound.toFormed.ne_of_mem_values member absent]

/-- What is kept is read through the buffer. -/
theorem Retains.find (answers : ∀ {l w}, I l w → s.Answers S l w) (retains : Retains S I b w kept) {x : Record}
    (there : kept x) : Script.outcome (b.find? s x.key) w = (.ok (some x), w) := by
  obtain ⟨l, stands, sound, found⟩ := retains
  obtain ⟨within, found⟩ := found x there
  rw [get?_onto sound.toFormed] at found
  rw [find?]
  cases waiting : b.pending.get? x.key with
  | some r =>
      rw [waiting, Option.some_or] at found
      obtain rfl := Option.some.inj found
      rfl
  | none =>
      rw [waiting, Option.none_or] at found
      exact ((answers stands).get x.key within.key).trans (by rw [found])

/-- **A write is kept until it is overwritten, removed or refused.** A store is given whose operations may fail, and a
run of operations through a buffer in front of it, in any of which any call may fail. Then

* the writes that are kept are read through the buffer;
* a flush that succeeds puts all of them in the store;
* nothing waits any more after a flush, nor after one that completes a batch or comes before a sweep. What is read is
  what the store has, and if the batch was refused, that is the same as before, except for the keys in the batch. -/
theorem kept_unless_refused (endures : s.Endures S I) (answers : ∀ {l w}, I l w → s.Answers S l w)
    (course : Course s S I b w kept) :
    (∀ x, kept x → Script.outcome (b.find? s x.key) w = (.ok (some x), w)) ∧
    (∀ {t b' w'}, (flush s).Goes b w t (.ok ()) b' w' →
      ∀ x, kept x → Script.outcome (s.get x.key) w' = (.ok (some x), w')) ∧
    (∀ {c : BufferCommand} {handed t r b' w'}, c.Within S → c.hands b = some handed →
      (c.perform s).Goes b w t r b' w' →
      (∀ key, b'.find? s key = s.get key) ∧
      (Refused s handed w t r w' → ∀ key, key.Within S → handed.pending.get? key = none →
        (Script.outcome (b'.find? s key) w').1 = (Script.outcome (handed.find? s key) w).1)) := by
  have retains := course.retains endures
  refine ⟨fun x there => retains.find answers there, fun flushed x there => ?_, fun within hands goes => ?_⟩
  · obtain ⟨rfl, -⟩ := goes_flush flushed
    exact (retains.flush endures flushed).find answers ⟨there, fun refused => nomatch refused.choose_spec.1⟩
  · obtain rfl := goes_hands hands goes
    refine ⟨fun _ => rfl, fun refused key used absent => ?_⟩
    obtain ⟨_, whole⟩ := retains.handed within hands
    rw [find?, find?, absent]
    exact whole.get_spared endures answers refused used absent

/-! ## Poles -/

/-- A constant. -/
def sampleConstant : Record := .constant ⟨"A", none⟩

/-- An interface of the same name. -/
def sampleInterface : Record := .klass ⟨"A", some .interface, none, 0⟩

theorem sampleConstant_within : sampleConstant.Within sampleNames := ⟨⟨.inl rfl, nofun⟩, trivial⟩

theorem sampleInterface_within : sampleInterface.Within sampleNames := ⟨⟨.inl rfl, nofun⟩, trivial⟩

/-- The constant waits. -/
def sampleWaiting : Buffer := (Buffer.ofBatchSize 100).insert sampleConstant

/-- The database may answer the batch with an error. -/
theorem sample_refused (w : World) :
    ∃ t, (flush TableStore.toStore).Goes sampleWaiting w t (.error (.database .statement)) sampleWaiting.clear w ∧
      Refused TableStore.toStore sampleWaiting w t (.error (.database .statement) : Except StoreError Unit) w := by
  have batch : (TableStore.toStore.writeBatch sampleWaiting.pending.values).run.Goes w _
      (.error (.database .statement)) w :=
    Stored.goes_transact.2 ⟨.error .statement, rfl, rfl, .failed ⟨_, rfl⟩⟩
  exact ⟨_, Action.goes_get_bind.2 (Action.goes_set_bind.2 (Action.goes_bind.2 (.inl
    ⟨_, rfl, Action.goes_ofScript.2 ⟨rfl, batch⟩⟩))), _, rfl, batch⟩

/-- The worlds in which the store of tables stands for a ledger. -/
def inTables (l : Ledger) (w : World) : Prop := TableStore.Holds w.database l

/-- The constant was written, and waits. -/
theorem sample_course {w : World} (holds : inTables .empty w) :
    ∃ kept, Course TableStore.toStore sampleNames inTables sampleWaiting w kept := by
  have wrote : outcome ((BufferCommand.store (.write sampleConstant)).perform TableStore.toStore)
      (.ofBatchSize 100) w = (.ok [], sampleWaiting, w) := rfl
  obtain ⟨t, goes⟩ := Action.goes_of_outcome wrote
  exact ⟨_, .performed (.start holds (sound_of_empty rfl)) (.store (.write sampleConstant)) trivial
    sampleConstant_within goes⟩

/-- The interface, written after the constant was refused, is kept. -/
theorem sample_course_refused {w : World} (holds : inTables .empty w) :
    ∃ kept, Course TableStore.toStore sampleNames inTables (sampleWaiting.clear.insert sampleInterface) w kept ∧
      kept sampleInterface := by
  obtain ⟨kept, course⟩ := sample_course holds
  obtain ⟨t₁, refused, -⟩ := sample_refused w
  have wrote : outcome ((BufferCommand.store (.write sampleInterface)).perform TableStore.toStore)
      sampleWaiting.clear w = (.ok [], sampleWaiting.clear.insert sampleInterface, w) := rfl
  obtain ⟨t₂, goes⟩ := Action.goes_of_outcome wrote
  have firm : sampleInterface.isSpeculative = false := rfl
  have waits : BufferCommand.hands sampleWaiting.clear (.store (.write sampleInterface)) = none := rfl
  have cleared := course.performed .flush trivial trivial (Action.goes_bind_pure.2 ⟨_, rfl, refused⟩)
  refine ⟨_, cleared.performed (.store (.write sampleInterface)) trivial sampleInterface_within goes, ?_,
    fun handed hands => ?_⟩
  · rw [BufferCommand.leaves, BufferCommand.written_iff firm]
    exact .inl rfl
  · cases waits.symm.trans hands

/-- In front of the database, the refused batch is no matter to the interface, which was not in it; and the next flush
puts the interface in the store. -/
theorem sample_kept_unless_refused :
    ∃ w₀ b kept t b' w', Script.outcome (RecordStore.open .sqlite ⟨[47, 105]⟩) newIndex = (.ok (), w₀) ∧
      (Script.outcome (sampleWaiting.clear.find? TableStore.toStore sampleInterface.key) w₀).1 =
        (Script.outcome (sampleWaiting.find? TableStore.toStore sampleInterface.key) w₀).1 ∧
      Course TableStore.toStore sampleNames inTables b w₀ kept ∧ kept sampleInterface ∧
      (flush TableStore.toStore).Goes b w₀ t (.ok ()) b' w' ∧
      Script.outcome (TableStore.toStore.get sampleInterface.key) w' = (.ok (some sampleInterface), w') := by
  obtain ⟨w₀, opened, holds⟩ := RecordStore.open_fresh .sqlite sampleNames newIndex_fresh
  have keeps : TableStore.toStore.Keeps sampleNames inTables := TableStore.keeps sampleNames
  have endures : TableStore.toStore.Endures sampleNames inTables := TableStore.endures sampleNames
  obtain ⟨kept₁, course₁⟩ := sample_course holds
  obtain ⟨t₁, goes₁, refused⟩ := sample_refused w₀
  have flushing : (BufferCommand.flush.perform TableStore.toStore).Goes sampleWaiting w₀ t₁ _ sampleWaiting.clear w₀ :=
    Action.goes_bind_pure.2 ⟨_, rfl, goes₁⟩
  obtain ⟨-, -, spared⟩ := kept_unless_refused endures keeps.answers course₁
  obtain ⟨kept, course, there⟩ := sample_course_refused holds
  have stands : (sampleWaiting.clear.insert sampleInterface).Stands sampleNames inTables _ w₀ :=
    ⟨(sound_of_empty rfl).insert rfl sampleInterface_within, _, holds, rfl⟩
  obtain ⟨w', flushed, -⟩ := stands.flush keeps
  obtain ⟨t, goes⟩ := Action.goes_of_outcome flushed
  obtain ⟨-, stored, -⟩ := kept_unless_refused endures keeps.answers course
  have same := (@spared .flush sampleWaiting t₁ _ sampleWaiting.clear w₀ trivial rfl flushing).2 (refused.map _)
    sampleInterface.key sampleInterface_within.key rfl
  exact ⟨w₀, _, kept, t, _, w', opened, same, course, there, goes, stored goes _ there⟩

/-- A constant is written and can be read. A flush fails, with the store unchanged, and it cannot be read any more. The
next flush succeeds, and the store does not have it. -/
theorem refused_write_lost :
    ∃ w₀ t, Script.outcome (RecordStore.open .sqlite ⟨[47, 105]⟩) newIndex = (.ok (), w₀) ∧
      outcome (write TableStore.toStore sampleConstant) (.ofBatchSize 100) w₀ = (.ok (), sampleWaiting, w₀) ∧
      Script.outcome (sampleWaiting.find? TableStore.toStore sampleConstant.key) w₀ = (.ok (some sampleConstant), w₀) ∧
      (flush TableStore.toStore).Goes sampleWaiting w₀ t (.error (.database .statement)) sampleWaiting.clear w₀ ∧
      Refused TableStore.toStore sampleWaiting w₀ t (.error (.database .statement) : Except StoreError Unit) w₀ ∧
      Script.outcome (sampleWaiting.clear.find? TableStore.toStore sampleConstant.key) w₀ = (.ok none, w₀) ∧
      outcome (flush TableStore.toStore) sampleWaiting.clear w₀ = (.ok (), sampleWaiting.clear, w₀) ∧
      Script.outcome (TableStore.toStore.get sampleConstant.key) w₀ = (.ok none, w₀) := by
  obtain ⟨w₀, opened, holds⟩ := RecordStore.open_fresh .sqlite sampleNames newIndex_fresh
  obtain ⟨t, goes, refused⟩ := sample_refused w₀
  have missing := (TableStore.keeps sampleNames).get holds sampleConstant_within.key
  exact ⟨w₀, t, opened, rfl, rfl, goes, refused, missing, rfl, missing⟩

end Buffer

end SymbolIndex
