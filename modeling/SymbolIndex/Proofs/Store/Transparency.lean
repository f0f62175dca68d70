import SymbolIndex.Proofs.Store.Agreement
import SymbolIndex.Proofs.Store.Buffer

/-!
# Proofs.Store.Transparency — a buffer is not seen

The same operations are done to a store through a buffer and to the same store without one. Whatever the
size of a batch, whatever is flushed when, and whether or not full batches flush on their own:

* what is read through the buffer is what is read without it, and each sweep removes the same records
  (`BufferCommand.transparent`);
* right after a flush the store behind the buffer answers the same, and nothing waits;
* no more records wait than were written since the last flush or reset, and fewer than a batch if full
  batches flush on their own all the time.

The buffer after some operations does not depend on the store (`BufferCommand.next`), so what waits is
counted without it.
-/

namespace SymbolIndex

open Action (outcome)

set_option autoImplicit false

/-- An operation on a buffer in front of a store. -/
inductive BufferCommand where
  | store (command : StoreCommand)
  | flush
  | setAutoFlush (enabled : Bool)

namespace BufferCommand

/-- Whether an operation is about records and keys with some identifiers. -/
def Within (S : String → Prop) : BufferCommand → Prop
  | .store c => c.Within S
  | .flush | .setAutoFlush _ => True

/-- Perform an operation through a buffer; the answer is the records that a sweep removed. -/
def perform (s : RecordStore) : BufferCommand → Buffered (List Record)
  | .store (.write r) => do
    Buffer.write s r
    return []
  | .store (.writeBatch rs) => do
    Buffer.writeBatch s rs
    return []
  | .store (.remove key) => do
    Buffer.remove s key
    return []
  | .store .reset => do
    Buffer.reset s
    return []
  | .store (.markUpdated time) => do
    Action.ofScript (s.markUpdated time)
    return []
  | .store (.sweep keep) => do
    let report ← Buffer.sweep s fun uri => return keep uri
    return report.removed
  | .flush => do
    Buffer.flush s
    return []
  | .setAutoFlush enabled => do
    modify (·.setAutoFlush enabled)
    return []

/-- Perform operations through a buffer, one after the other. -/
def performAll (s : RecordStore) : List BufferCommand → Buffered (List (List Record))
  | [] => return []
  | c :: rest => do
    let removed ← c.perform s
    return removed :: (← performAll s rest)

/-- Perform an operation without a buffer. -/
def performPlain (s : RecordStore) : BufferCommand → Stored (List Record)
  | .store c => c.perform s
  | .flush => do
    s.flush
    return []
  | .setAutoFlush _ => return []

/-- Perform operations without a buffer, one after the other. -/
def performAllPlain (s : RecordStore) : List BufferCommand → Stored (List (List Record))
  | [] => return []
  | c :: rest => do
    let removed ← c.performPlain s
    return removed :: (← performAllPlain s rest)

/-- The ledger after an operation. -/
def after (l : Ledger) : BufferCommand → Ledger
  | .store c => l.apply c
  | .flush | .setAutoFlush _ => l

/-- The records that an operation sweeps out. -/
def swept (l : Ledger) : BufferCommand → List Record
  | .store c => l.swept c
  | .flush | .setAutoFlush _ => []

/-- The records that each of some operations sweeps out. -/
def sweptAll (l : Ledger) : List BufferCommand → List (List Record)
  | [] => []
  | c :: rest => swept l c :: sweptAll (after l c) rest

/-- The buffer after an operation, if the store takes what it is handed. -/
def next (b : Buffer) : BufferCommand → Buffer
  | .store (.write r) => Buffer.received b r
  | .store (.writeBatch rs) => rs.foldl Buffer.received b
  | .store (.remove key) => b.erase key
  | .store (.markUpdated _) => b
  | .store .reset | .store (.sweep _) | .flush => b.clear
  | .setAutoFlush enabled => b.setAutoFlush enabled

section Runs

variable {s : RecordStore} {S : String → Prop} {I : Ledger → World → Prop} {l : Ledger} {b : Buffer}
  {w : World}

/-- One operation through a buffer. -/
theorem perform_ok (keeps : s.Keeps S I) (stands : b.Stands S I l w) {c : BufferCommand}
    (within : c.Within S) :
    ∃ removed w', outcome (c.perform s) b w = (.ok removed, next b c, w') ∧
      removed.Perm (swept l c) ∧ (next b c).Stands S I (after l c) w' := by
  cases c with
  | store c =>
      cases c with
      | write r =>
          obtain ⟨w', done, stands'⟩ := stands.write keeps within
          exact ⟨[], w', Action.outcome_bind_ok done, .nil, stands'⟩
      | writeBatch rs =>
          obtain ⟨w', done, stands'⟩ := stands.writeBatch keeps within
          exact ⟨[], w', Action.outcome_bind_ok done, .nil, stands'⟩
      | remove key =>
          obtain ⟨w', done, stands'⟩ := stands.remove keeps within
          exact ⟨[], w', Action.outcome_bind_ok done, .nil, stands'⟩
      | reset =>
          obtain ⟨w', done, stands'⟩ := stands.reset keeps
          exact ⟨[], w', Action.outcome_bind_ok done, .nil, stands'⟩
      | markUpdated time =>
          obtain ⟨w', done, stands'⟩ := stands.markUpdated keeps time
          exact ⟨[], w', Action.outcome_bind_ok done, .nil, stands'⟩
      | sweep keep =>
          obtain ⟨report, w', done, same, stands'⟩ := stands.sweep keeps keep
          exact ⟨report.removed, w', Action.outcome_bind_ok done, same, stands'⟩
  | flush =>
      obtain ⟨w', done, below⟩ := stands.flush keeps
      exact ⟨[], w', Action.outcome_bind_ok done, .nil, Buffer.sound_of_empty rfl, l, below,
        (Buffer.onto_of_empty rfl l).symm⟩
  | setAutoFlush enabled =>
      obtain ⟨l₀, below, same⟩ := stands.below
      refine ⟨[], w, Action.outcome_bind_ok (Action.outcome_modify _ _ _), .nil, ?_, l₀, below, same⟩
      exact ⟨⟨stands.sound.keyed, stands.sound.firm⟩, stands.sound.within⟩

/-- Any number of operations through a buffer. -/
theorem performAll_ok (keeps : s.Keeps S I) {commands : List BufferCommand}
    (within : ∀ c ∈ commands, c.Within S) (stands : b.Stands S I l w) :
    ∃ removed w', outcome (performAll s commands) b w = (.ok removed, commands.foldl next b, w') ∧
      List.Forall₂ List.Perm removed (sweptAll l commands) ∧
      (commands.foldl next b).Stands S I (commands.foldl after l) w' := by
  induction commands generalizing l b w with
  | nil => exact ⟨[], w, rfl, .nil, stands⟩
  | cons c rest ih =>
      obtain ⟨removed, w₁, done, same, stands₁⟩ := perform_ok keeps stands (within c (by simp))
      obtain ⟨more, w₂, done', same', stands₂⟩ := ih (fun c' member => within c' (by simp [member]))
        stands₁
      refine ⟨removed :: more, w₂, ?_, .cons same same', stands₂⟩
      rw [performAll, Action.outcome_bind_ok done, Action.outcome_bind_ok done']
      rfl

theorem performPlain_ok (keeps : s.Keeps S I) (stands : I l w) {c : BufferCommand}
    (within : c.Within S) : ∃ removed w', Script.outcome (c.performPlain s) w = (.ok removed, w') ∧
      removed.Perm (swept l c) ∧ I (after l c) w' := by
  cases c with
  | store c => exact keeps.perform stands within
  | flush => exact ⟨[], w, Script.outcome_bind_ok (keeps.flush stands), .nil, stands⟩
  | setAutoFlush enabled => exact ⟨[], w, rfl, .nil, stands⟩

theorem performAllPlain_ok (keeps : s.Keeps S I) {commands : List BufferCommand}
    (within : ∀ c ∈ commands, c.Within S) (stands : I l w) :
    ∃ removed w', Script.outcome (performAllPlain s commands) w = (.ok removed, w') ∧
      List.Forall₂ List.Perm removed (sweptAll l commands) ∧ I (commands.foldl after l) w' := by
  induction commands generalizing l w with
  | nil => exact ⟨[], w, rfl, .nil, stands⟩
  | cons c rest ih =>
      obtain ⟨removed, w₁, done, same, stands₁⟩ := performPlain_ok keeps stands (within c (by simp))
      obtain ⟨more, w₂, done', same', stands₂⟩ := ih (fun c' member => within c' (by simp [member]))
        stands₁
      refine ⟨removed :: more, w₂, ?_, .cons same same', stands₂⟩
      rw [performAllPlain, Script.outcome_bind_ok done, Script.outcome_bind_ok done']
      rfl

end Runs

/-! ## Counting -/

/-- How many records were written since the last flush or reset, and whether a full batch flushes on
its own. A class without a type is no write. -/
structure Arrivals where
  count : Nat
  auto : Bool

namespace Arrivals

/-- One more write; with auto flush on, the one that completes a batch flushes. -/
def write (batchSize : Nat) (a : Arrivals) (r : Record) : Arrivals :=
  if r.isSpeculative then a
  else if a.auto ∧ batchSize ≤ a.count + 1 then { a with count := 0 }
  else { a with count := a.count + 1 }

/-- The count after an operation. A sweep flushes first. -/
def next (batchSize : Nat) (a : Arrivals) : BufferCommand → Arrivals
  | .store (.write r) => a.write batchSize r
  | .store (.writeBatch rs) => rs.foldl (write batchSize) a
  | .store (.remove _) | .store (.markUpdated _) => a
  | .store .reset | .store (.sweep _) | .flush => { a with count := 0 }
  | .setAutoFlush enabled => { a with auto := enabled }

/-- A buffer counts what arrives, and holds no more than that. -/
structure Counts (batchSize : Nat) (a : Arrivals) (b : Buffer) : Prop where
  size : b.batchSize = batchSize
  auto : b.autoFlush = a.auto
  count : b.counter = a.count
  pending : b.pending.size ≤ a.count

variable {batchSize : Nat} {a : Arrivals} {b : Buffer}

theorem Counts.write (counts : Counts batchSize a b) (r : Record) :
    Counts batchSize (a.write batchSize r) (b.received r) := by
  obtain ⟨size, auto, count, pending⟩ := counts
  rw [Arrivals.write, Buffer.received]
  by_cases speculative : r.isSpeculative = true
  · rw [if_pos speculative, if_pos speculative]
    exact ⟨size, auto, count, pending⟩
  · rw [if_neg speculative, if_neg speculative]
    have grown : (b.insert r).pending.size ≤ a.count + 1 :=
      Nat.le_trans (SortedMap.size_insert_le _ _ _) (Nat.add_le_add_right pending 1)
    have full : (b.autoFlush && (b.insert r).isFull) = true ↔
        a.auto = true ∧ batchSize ≤ a.count + 1 := by
      rw [Bool.and_eq_true, Buffer.isFull, decide_eq_true_eq, auto, ← count, ← size]
      rfl
    by_cases whole : a.auto = true ∧ batchSize ≤ a.count + 1
    · rw [if_pos whole, if_pos (full.2 whole)]
      exact ⟨size, auto, rfl, Nat.zero_le _⟩
    · rw [if_neg whole, if_neg (full.not.2 whole)]
      exact ⟨size, auto, congrArg (· + 1) count, grown⟩

theorem Counts.next (counts : Counts batchSize a b) (c : BufferCommand) :
    Counts batchSize (a.next batchSize c) (BufferCommand.next b c) := by
  cases c with
  | store c =>
      cases c with
      | write r => exact counts.write r
      | writeBatch rs =>
          show Counts batchSize (rs.foldl (Arrivals.write batchSize) a) (rs.foldl Buffer.received b)
          induction rs generalizing a b with
          | nil => exact counts
          | cons r rs ih => exact ih (counts.write r)
      | remove key =>
          exact ⟨counts.size, counts.auto, counts.count,
            Nat.le_trans (SortedMap.size_erase_le _ _) counts.pending⟩
      | reset => exact ⟨counts.size, counts.auto, rfl, Nat.zero_le _⟩
      | markUpdated time => exact counts
      | sweep keep => exact ⟨counts.size, counts.auto, rfl, Nat.zero_le _⟩
  | flush => exact ⟨counts.size, counts.auto, rfl, Nat.zero_le _⟩
  | setAutoFlush enabled => exact ⟨counts.size, rfl, counts.count, counts.pending⟩

theorem Counts.run (counts : Counts batchSize a b) (commands : List BufferCommand) :
    Counts batchSize (commands.foldl (Arrivals.next batchSize) a)
      (commands.foldl BufferCommand.next b) := by
  induction commands generalizing a b with
  | nil => exact counts
  | cons c rest ih => exact ih (counts.next c)

/-- While full batches flush on their own, fewer than a batch arrive between two flushes. -/
def Short (batchSize : Nat) (a : Arrivals) : Prop := a.auto = true ∧ a.count < batchSize

theorem Short.write (short : Short batchSize a) (r : Record) : Short batchSize (a.write batchSize r) := by
  obtain ⟨auto, few⟩ := short
  rw [Arrivals.write]
  split
  · exact ⟨auto, few⟩
  · split
    · exact ⟨auto, Nat.lt_of_le_of_lt (Nat.zero_le _) few⟩
    next room => exact ⟨auto, Nat.lt_of_not_le fun full => room ⟨auto, full⟩⟩

theorem Short.next (short : Short batchSize a) {c : BufferCommand} (kept : c ≠ .setAutoFlush false) :
    Short batchSize (a.next batchSize c) := by
  have positive : 0 < batchSize := Nat.lt_of_le_of_lt (Nat.zero_le _) short.2
  cases c with
  | store c =>
      cases c with
      | write r => exact short.write r
      | writeBatch rs =>
          show Short batchSize (rs.foldl (Arrivals.write batchSize) a)
          induction rs generalizing a with
          | nil => exact short
          | cons r rs ih => exact ih (short.write r) (by simp)
      | remove key => exact short
      | reset => exact ⟨short.1, positive⟩
      | markUpdated time => exact short
      | sweep keep => exact ⟨short.1, positive⟩
  | flush => exact ⟨short.1, positive⟩
  | setAutoFlush enabled =>
      cases enabled with
      | true => exact ⟨rfl, short.2⟩
      | false => exact absurd rfl kept

theorem Short.run (short : Short batchSize a) {commands : List BufferCommand}
    (kept : ∀ c ∈ commands, c ≠ .setAutoFlush false) :
    Short batchSize (commands.foldl (Arrivals.next batchSize) a) := by
  induction commands generalizing a with
  | nil => exact short
  | cons c rest ih =>
      exact ih (short.next (kept c (by simp))) fun c' member => kept c' (by simp [member])

end Arrivals

/-! ## The theorem -/

/-- Lists of the same records as some others are lists of the same records as each other. -/
theorem perm_of_perm {lists lists' others : List (List Record)}
    (same : List.Forall₂ List.Perm lists others) (same' : List.Forall₂ List.Perm lists' others) :
    List.Forall₂ List.Perm lists lists' := by
  induction same generalizing lists' with
  | nil => cases same'; exact .nil
  | cons first rest ih =>
      cases same' with
      | cons first' rest' => exact .cons (first.trans first'.symm) (ih rest')

/-- What the operations come to through a buffer, and what they come to without one. -/
structure Transparent (s : RecordStore) (S : String → Prop) (batchSize : Nat) (w : World)
    (commands : List BufferCommand) (removed : List (List Record)) (b : Buffer) (w₁ : World)
    (removed' : List (List Record)) (w₂ : World) : Prop where
  /-- The operations succeed through the buffer. -/
  buffered : outcome (performAll s commands) (.ofBatchSize batchSize) w = (.ok removed, b, w₁)
  /-- They succeed without it. -/
  plain : Script.outcome (performAllPlain s commands) w = (.ok removed', w₂)
  /-- Each sweep removes the same records. -/
  swept : List.Forall₂ List.Perm removed removed'
  /-- Everything that is read is the same. -/
  read : ∃ l, b.Answers s S l w₁ ∧ s.Answers S l w₂
  /-- After a flush nothing waits, and the store behind the buffer answers the same. -/
  flushed : commands.getLast? = some .flush →
    b.pending.size = 0 ∧ ∃ l, s.Answers S l w₁ ∧ s.Answers S l w₂
  /-- No more waits than was written since the last flush or reset. -/
  few : b.pending.size ≤ (commands.foldl (Arrivals.next (max batchSize 1)) ⟨0, true⟩).count
  /-- With auto flush on throughout, less than a batch waits. -/
  below : (∀ c ∈ commands, c ≠ .setAutoFlush false) → b.pending.size < max batchSize 1

/-- **A buffer is transparent.** For either store, every size of a batch and every sequence of
operations. -/
theorem transparent {S : String → Prop} {root : Path} {base : Address} {w : World}
    (distinct : Sha256.DistinctOn S) (fresh : w.Fresh root base) (backend : Backend)
    (batchSize : Nat) {commands : List BufferCommand} (within : ∀ c ∈ commands, c.Within S) :
    ∃ w₀, Script.outcome (RecordStore.open backend root) w = (.ok (), w₀) ∧
      ∃ removed b w₁ removed' w₂, Transparent (.ofBackend backend root) S batchSize w₀ commands
        removed b w₁ removed' w₂ := by
  have keeps := RecordStore.keeps backend distinct root base
  obtain ⟨w₀, opened, start⟩ := RecordStore.open_fresh backend S fresh
  have stands : (Buffer.ofBatchSize batchSize).Stands S (RecordStore.Stands backend S root base)
      .empty w₀ := ⟨Buffer.sound_of_empty rfl, _, start, (Buffer.onto_of_empty rfl _).symm⟩
  obtain ⟨removed, w₁, buffered, swept, stands₁⟩ := performAll_ok keeps within stands
  obtain ⟨removed', w₂, plain, swept', stands₂⟩ := performAllPlain_ok keeps within start
  have counts : Arrivals.Counts (max batchSize 1) ⟨0, true⟩ (.ofBatchSize batchSize) :=
    ⟨rfl, rfl, rfl, Nat.le_refl 0⟩
  have few := (counts.run commands).pending
  refine ⟨w₀, opened, removed, _, w₁, removed', w₂, buffered, plain, ?_,
    ⟨_, stands₁.answers keeps, keeps.answers stands₂⟩, fun last => ?_, few, fun kept => ?_⟩
  · exact perm_of_perm swept swept'
  · obtain ⟨front, rfl⟩ := List.getLast?_eq_some_iff.1 last
    have cleared : ((front ++ [BufferCommand.flush]).foldl next (Buffer.ofBatchSize batchSize)).pending = .empty := by
      rw [List.foldl_append]
      rfl
    obtain ⟨l₀, below, same⟩ := stands₁.below
    rw [Buffer.onto_of_empty cleared] at same
    rw [cleared]
    exact ⟨rfl, _, keeps.answers (same ▸ below), keeps.answers stands₂⟩
  · have short : Arrivals.Short (max batchSize 1) ⟨0, true⟩ :=
      ⟨rfl, Nat.lt_of_lt_of_le Nat.zero_lt_one (Nat.le_max_right _ _)⟩
    exact Nat.lt_of_le_of_lt few (short.run kept).2

/-! ## Poles -/

/-- The operations of the sample, and a flush. -/
def sampleBuffered : List BufferCommand := sampleCommands.map .store ++ [.setAutoFlush true, .flush]

theorem sampleBuffered_within : ∀ c ∈ sampleBuffered, c.Within sampleNames := by
  intro c member
  rcases List.mem_append.1 member with member | member
  · obtain ⟨c, listed, rfl⟩ := List.mem_map.1 member
    exact sampleCommands_within c listed
  · simp only [List.mem_cons, List.not_mem_nil, or_false] at member
    rcases member with rfl | rfl <;> trivial

/-- In front of the database, with batches of two. -/
theorem sample_transparent :
    ∃ w₀ removed b w₁ removed' w₂,
      Script.outcome (RecordStore.open .sqlite ⟨[47, 105]⟩) newIndex = (.ok (), w₀) ∧
      Transparent (.ofBackend .sqlite ⟨[47, 105]⟩) sampleNames 2 w₀ sampleBuffered
        removed b w₁ removed' w₂ ∧ b.pending.size = 0 := by
  obtain ⟨w₀, opened, removed, b, w₁, removed', w₂, both⟩ :=
    transparent sampleNames_distinct newIndex_fresh .sqlite 2 sampleBuffered_within
  have last : sampleBuffered.getLast? = some .flush := by simp [sampleBuffered]
  exact ⟨w₀, removed, b, w₁, removed', w₂, opened, both, (both.flushed last).1⟩

end BufferCommand

end SymbolIndex
