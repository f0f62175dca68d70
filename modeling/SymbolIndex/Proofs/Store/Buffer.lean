import SymbolIndex.Proofs.Store.Ledger
import SymbolIndex.Store.Buffer

/-!
# Proofs.Store.Buffer — a buffer on top of a ledger

A buffer in front of a store that keeps a ledger stands for that ledger with the writes that wait put on
top (`Buffer.onto`). Handing them over writes exactly that ledger to the store, in whatever order they
arrived, so it is no matter when it is done: each operation through the buffer is the same operation on
the ledger on top (`Stands.write`, `Stands.remove`, ...).
-/

namespace SymbolIndex

open Action (outcome)

set_option autoImplicit false

namespace Buffer

/-- The writes that wait stand under their own keys, and none is a class without a type. -/
structure Formed (b : Buffer) : Prop where
  keyed : ∀ key r, b.pending.get? key = some r → r.key = key
  firm : ∀ key r, b.pending.get? key = some r → r.isSpeculative = false

/-- Moreover they are such as a store takes. -/
structure Sound (S : String → Prop) (b : Buffer) : Prop extends Formed b where
  within : ∀ key r, b.pending.get? key = some r → r.Within S

/-- A ledger with the writes that wait on top. -/
def onto (b : Buffer) (l : Ledger) : Ledger := l.writeAll b.pending.values

section Onto

variable {S : String → Prop} {b : Buffer} {l : Ledger}

@[simp] theorem builtAt_onto (b : Buffer) (l : Ledger) : (b.onto l).builtAt = l.builtAt :=
  Ledger.builtAt_writeAll l _

theorem get?_onto (formed : b.Formed) (l : Ledger) (key : RecordKey) :
    (b.onto l).get? key = (b.pending.get? key).or (l.get? key) := by
  have firm : ∀ r ∈ b.pending.values, r.isSpeculative = false := by
    intro r member
    obtain ⟨key, there⟩ := SortedMap.mem_values.1 member
    exact formed.firm key r there
  rw [onto, Ledger.get?_writeAll firm (SortedMap.nodup_values formed.keyed),
    SortedMap.find?_values formed.keyed]

theorem onto_of_empty (none_ : b.pending = .empty) (l : Ledger) : b.onto l = l := by
  rw [onto, none_]
  rfl

theorem onto_keyed (formed : b.Formed) (keyed : l.Keyed) : (b.onto l).Keyed := by
  intro key r found
  rw [get?_onto formed, Option.or_eq_some_iff] at found
  rcases found with found | ⟨-, found⟩
  · exact formed.keyed key r found
  · exact keyed key r found

/-- What waits after one more write is that write or waited before. -/
theorem get?_insert {r r' : Record} {key : RecordKey} (found : (b.insert r).pending.get? key = some r') :
    r' = r ∧ r.key = key ∨ b.pending.get? key = some r' := by
  rw [Buffer.insert, SortedMap.get?_insert] at found
  split at found
  next same => exact .inl ⟨(Option.some.inj found).symm, same⟩
  · exact .inr found

/-- What waits without a key waited before. -/
theorem get?_erase {r : Record} {key key' : RecordKey}
    (found : (b.erase key).pending.get? key' = some r) : b.pending.get? key' = some r := by
  rw [Buffer.erase, SortedMap.get?_erase] at found
  split at found
  · cases found
  · exact found

theorem Formed.insert (formed : b.Formed) {r : Record} (firm : r.isSpeculative = false) :
    (b.insert r).Formed := by
  refine ⟨fun key r' found => ?_, fun key r' found => ?_⟩
  · rcases get?_insert found with ⟨rfl, same⟩ | found
    · exact same
    · exact formed.keyed key r' found
  · rcases get?_insert found with ⟨rfl, -⟩ | found
    · exact firm
    · exact formed.firm key r' found

theorem Formed.erase (formed : b.Formed) (key : RecordKey) : (b.erase key).Formed :=
  ⟨fun key' r found => formed.keyed key' r (get?_erase found),
    fun key' r found => formed.firm key' r (get?_erase found)⟩

theorem formed_of_empty (none_ : b.pending = .empty) : b.Formed := by
  have absent : ∀ {key r}, b.pending.get? key ≠ some r := fun found => by
    rw [none_] at found
    cases found
  exact ⟨fun _ _ found => absurd found absent, fun _ _ found => absurd found absent⟩

theorem Sound.insert (sound : b.Sound S) {r : Record} (firm : r.isSpeculative = false)
    (within : r.Within S) : (b.insert r).Sound S := by
  refine ⟨sound.toFormed.insert firm, fun key r' found => ?_⟩
  rcases get?_insert found with ⟨rfl, -⟩ | found
  · exact within
  · exact sound.within key r' found

theorem Sound.erase (sound : b.Sound S) (key : RecordKey) : (b.erase key).Sound S :=
  ⟨sound.toFormed.erase key, fun key' r found => sound.within key' r (get?_erase found)⟩

theorem sound_of_empty (none_ : b.pending = .empty) : b.Sound S :=
  ⟨formed_of_empty none_, fun _ _ found => by rw [none_] at found; cases found⟩

theorem Sound.within_values (sound : b.Sound S) {r : Record} (member : r ∈ b.pending.values) : r.Within S := by
  obtain ⟨key, waiting⟩ := SortedMap.mem_values.1 member
  exact sound.within key r waiting

/-- What waits does not have a key under which nothing waits. -/
theorem Formed.ne_of_mem_values (formed : b.Formed) {r : Record} {key : RecordKey} (member : r ∈ b.pending.values)
    (absent : b.pending.get? key = none) : r.key ≠ key := by
  obtain ⟨key', waiting⟩ := SortedMap.mem_values.1 member
  obtain rfl := formed.keyed key' r waiting
  rintro rfl
  cases absent.symm.trans waiting

/-- A write that waits is a write to the ledger on top. -/
theorem onto_insert (formed : b.Formed) {r : Record} (firm : r.isSpeculative = false) (l : Ledger) :
    (b.insert r).onto l = (b.onto l).write r := by
  refine Ledger.ext (fun key => ?_) (by simp)
  rw [get?_onto (formed.insert firm), Ledger.get?_write firm, get?_onto formed, Buffer.insert,
    SortedMap.get?_insert]
  split <;> rfl

/-- A key that is taken from both is taken from the ledger on top. -/
theorem onto_erase (formed : b.Formed) (key : RecordKey) (l : Ledger) :
    (b.erase key).onto (l.remove key) = (b.onto l).remove key := by
  refine Ledger.ext (fun key' => ?_) (by simp [Ledger.remove])
  rw [get?_onto (formed.erase key), Ledger.get?_remove, Ledger.get?_remove, get?_onto formed,
    Buffer.erase, SortedMap.get?_erase]
  split <;> rfl

theorem onto_markUpdated (formed : b.Formed) (time : Int64) (l : Ledger) :
    b.onto (l.markUpdated time) = (b.onto l).markUpdated time := by
  refine Ledger.ext (fun key => ?_) (by simp [Ledger.markUpdated])
  rw [get?_onto formed, Ledger.get?_markUpdated, Ledger.get?_markUpdated, get?_onto formed]

end Onto

/-! ## A buffer in front of a store -/

/-- A buffer in front of a store that stands for a ledger. -/
structure Stands (S : String → Prop) (I : Ledger → World → Prop) (l : Ledger) (b : Buffer)
    (w : World) : Prop where
  sound : b.Sound S
  below : ∃ l₀, I l₀ w ∧ l = b.onto l₀

/-- What is read through a buffer is what a ledger answers, and reading changes nothing. -/
structure Answers (b : Buffer) (s : RecordStore) (S : String → Prop) (l : Ledger) (w : World) :
    Prop where
  get : ∀ key, key.Within S → Script.outcome (b.find? s key) w = (.ok (l.get? key), w)
  has : ∀ key, key.Within S →
    Script.outcome (Option.isSome <$> b.find? s key) w = (.ok (l.get? key).isSome, w)
  isFresh : ∀ path mtime, S (Uri.normalize path) →
    Script.outcome (b.isFresh s path mtime) w = (.ok (l.isFresh path mtime), w)
  lastUpdate : Script.outcome s.lastUpdate w = (.ok l.builtAt, w)
  «exists» : Script.outcome s.exists w = (.ok (decide (0 < l.builtAt)), w)

/-- The buffer after a write, if the store takes what it is handed. -/
def received (b : Buffer) (r : Record) : Buffer :=
  if r.isSpeculative then b
  else if b.autoFlush && (b.insert r).isFull then (b.insert r).clear
  else b.insert r

namespace Stands

variable {S : String → Prop} {I : Ledger → World → Prop} {s : RecordStore} {l : Ledger} {b : Buffer}
  {w : World}

theorem answers (keeps : s.Keeps S I) (stands : Stands S I l b w) : b.Answers s S l w := by
  obtain ⟨l₀, below, rfl⟩ := stands.below
  have lower := keeps.answers below
  have get : ∀ key, key.Within S →
      Script.outcome (b.find? s key) w = (.ok ((b.onto l₀).get? key), w) := by
    intro key within
    rw [find?, get?_onto stands.sound.toFormed]
    cases b.pending.get? key with
    | some r => rfl
    | none => exact lower.get key within
  refine ⟨get, fun key within => ?_, fun path mtime used => ?_, ?_, ?_⟩
  · rw [map_eq_pure_bind, Script.outcome_bind_ok (get key within)]
    rfl
  · rw [isFresh, Ledger.isFresh, get?_onto stands.sound.toFormed]
    have inner := lower.isFresh path mtime used
    rw [Ledger.isFresh] at inner
    cases waiting : b.pending.get? (.ofFile path) with
    | none => exact inner
    | some r =>
        have kind : r.recordType = .file :=
          congrArg RecordKey.recordType (stands.sound.keyed _ r waiting)
        cases r with
        | file f => rfl
        | klass _ => cases kind
        | function _ => cases kind
        | constant _ => cases kind
        | member _ => cases kind
  · rw [builtAt_onto]
    exact lower.lastUpdate
  · rw [builtAt_onto]
    exact lower.exists

/-- Once everything is handed over, the store itself stands for the ledger. -/
theorem flush (keeps : s.Keeps S I) (stands : Stands S I l b w) :
    ∃ w', outcome (Buffer.flush s) b w = (.ok (), b.clear, w') ∧ I l w' := by
  obtain ⟨l₀, below, rfl⟩ := stands.below
  rw [Buffer.flush, Action.outcome_bind_ok (Action.outcome_get _ _),
    Action.outcome_bind_ok (Action.outcome_set _ _ _)]
  cases none_ : b.pending.isEmpty with
  | true =>
      rw [onto_of_empty (SortedMap.isEmpty_iff.1 none_)]
      refine ⟨w, ?_, below⟩
      have flushed : Script.run s.flush w = (.ok (), w) := keeps.flush below
      simp [flushed]
  | false =>
      obtain ⟨w', wrote, stands'⟩ := keeps.writeBatch below fun r member => stands.sound.within_values member
      have wrote' : Script.run (s.writeBatch b.pending.values) w = (.ok (), w') := wrote
      have flushed : Script.run s.flush w' = (.ok (), w') := keeps.flush stands'
      refine ⟨w', ?_, stands'⟩
      have handed : outcome (Action.ofScript (s.writeBatch b.pending.values) : Buffered Unit) b.clear w =
          (.ok (), b.clear, w') := by rw [Action.outcome_ofScript, wrote']
      simp only [Bool.not_false, if_true]
      rw [Action.outcome_bind_ok handed, Action.outcome_ofScript, flushed]

/-- A write through the buffer is a write to the ledger, whether or not it completes a batch. -/
theorem write (keeps : s.Keeps S I) (stands : Stands S I l b w) {r : Record} (within : r.Within S) :
    ∃ w', outcome (Buffer.write s r) b w = (.ok (), received b r, w') ∧
      Stands S I (l.write r) (received b r) w' := by
  rw [Buffer.write, received]
  cases firm : r.isSpeculative with
  | true =>
      rw [Ledger.write_speculative firm]
      exact ⟨w, rfl, stands⟩
  | false =>
      obtain ⟨l₀, below, rfl⟩ := stands.below
      have waits : Stands S I ((b.onto l₀).write r) (b.insert r) w :=
        ⟨stands.sound.insert firm within, l₀, below, (onto_insert stands.sound.toFormed firm l₀).symm⟩
      simp only [Bool.false_eq_true, if_false]
      rw [Action.outcome_bind_ok (Action.outcome_modify _ _ _),
        Action.outcome_bind_ok (Action.outcome_get _ _)]
      have auto : (b.insert r).autoFlush = b.autoFlush := rfl
      rw [auto]
      cases full : b.autoFlush && (b.insert r).isFull with
      | true =>
          obtain ⟨w', flushed, stands'⟩ := waits.flush keeps
          refine ⟨w', by simpa using flushed, sound_of_empty rfl, _, stands', ?_⟩
          exact (onto_of_empty rfl _).symm
      | false => exact ⟨w, rfl, waits⟩

theorem writeBatch (keeps : s.Keeps S I) (stands : Stands S I l b w) {rs : List Record}
    (within : ∀ r ∈ rs, r.Within S) :
    ∃ w', outcome (Buffer.writeBatch s rs) b w = (.ok (), rs.foldl received b, w') ∧
      Stands S I (l.writeAll rs) (rs.foldl received b) w' := by
  induction rs generalizing l b w with
  | nil => exact ⟨w, rfl, stands⟩
  | cons r rs ih =>
      obtain ⟨w₁, wrote, stands₁⟩ := stands.write keeps (within r (by simp))
      obtain ⟨w₂, rest, stands₂⟩ := ih stands₁ fun r' member => within r' (by simp [member])
      exact ⟨w₂, by rw [Buffer.writeBatch, Action.outcome_bind_ok wrote, rest]; rfl, stands₂⟩

theorem remove (keeps : s.Keeps S I) (stands : Stands S I l b w) {key : RecordKey}
    (within : key.Within S) :
    ∃ w', outcome (Buffer.remove s key) b w = (.ok (), b.erase key, w') ∧
      Stands S I (l.remove key) (b.erase key) w' := by
  obtain ⟨l₀, below, rfl⟩ := stands.below
  obtain ⟨w', removed, stands'⟩ := keeps.remove below within
  have removed' : Script.run (s.remove key) w = (.ok (), w') := removed
  refine ⟨w', ?_, stands.sound.erase key, _, stands', (onto_erase stands.sound.toFormed key l₀).symm⟩
  rw [Buffer.remove, Action.outcome_bind_ok (Action.outcome_modify _ _ _), Action.outcome_ofScript,
    removed']

theorem reset (keeps : s.Keeps S I) (stands : Stands S I l b w) :
    ∃ w', outcome (Buffer.reset s) b w = (.ok (), b.clear, w') ∧
      Stands S I .empty b.clear w' := by
  obtain ⟨l₀, below, rfl⟩ := stands.below
  obtain ⟨w', cleared, stands'⟩ := keeps.reset below
  have cleared' : Script.run s.reset w = (.ok (), w') := cleared
  refine ⟨w', ?_, sound_of_empty rfl, _, stands', (onto_of_empty rfl _).symm⟩
  rw [Buffer.reset, Action.outcome_bind_ok (Action.outcome_modify _ _ _), Action.outcome_ofScript,
    cleared']

/-- The time of the last build does not wait. -/
theorem markUpdated (keeps : s.Keeps S I) (stands : Stands S I l b w) (time : Int64) :
    ∃ w', outcome (Action.ofScript (s.markUpdated time) : Buffered Unit) b w = (.ok (), b, w') ∧
      Stands S I (l.markUpdated time) b w' := by
  obtain ⟨l₀, below, rfl⟩ := stands.below
  obtain ⟨w', marked, stands'⟩ := @RecordStore.Keeps.markUpdated _ _ _ keeps _ _ time below
  have marked' : Script.run (s.markUpdated time) w = (.ok (), w') := marked
  refine ⟨w', ?_, stands.sound, _, stands', (onto_markUpdated stands.sound.toFormed time l₀).symm⟩
  rw [Action.outcome_ofScript, marked']

theorem sweep (keeps : s.Keeps S I) (stands : Stands S I l b w) (keep : String → Bool) :
    ∃ report w', outcome (Buffer.sweep s fun uri => return keep uri) b w =
        (.ok report, b.clear, w') ∧ report.removed.Perm (l.orphans keep) ∧
      Stands S I (l.sweep keep) b.clear w' := by
  obtain ⟨w₁, flushed, below⟩ := stands.flush keeps
  obtain ⟨report, w₂, swept, same, stands'⟩ := @RecordStore.Keeps.sweep _ _ _ keeps _ _ keep below
  have swept' : Script.run (s.sweep fun uri => return keep uri) w₁ = (.ok report, w₂) := swept
  refine ⟨report, w₂, ?_, same, sound_of_empty rfl, _, stands', (onto_of_empty rfl _).symm⟩
  rw [Buffer.sweep, Action.outcome_bind_ok flushed, Action.outcome_ofScript, swept']

end Stands

end Buffer

end SymbolIndex
