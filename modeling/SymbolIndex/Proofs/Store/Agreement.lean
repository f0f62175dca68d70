import SymbolIndex.Proofs.Store.Opening

/-!
# Proofs.Store.Agreement — both stores answer as a ledger

A session opens a store in an empty directory and performs operations, one after the other. After
every sequence of them a store of either kind answers as the ledger to which the same was done
(`session_agrees`), and each sweep removed the records that are swept out of the ledger. So the two
kinds agree with each other, and reading in between changes nothing.

What is asked of the operations: the path of a file is the URI it is known by, a member has a name,
and the identifiers in use have digests of their own. The last is needed for files alone.
-/

namespace SymbolIndex

open Script (outcome)
open SymbolIndex.Text (encode)

set_option autoImplicit false

namespace StoreCommand

/-- Open a store and perform operations; the answer is what each of them swept out. -/
def session (backend : Backend) (root : Path) (commands : List StoreCommand) :
    Stored (List (List Record)) := do
  RecordStore.open backend root
  performAll (.ofBackend backend root) commands

end StoreCommand

variable {S : String → Prop} {root : Path} {base : Address} {w : World}

/-- **Either store answers as a ledger.** Since any sequence of operations may be performed, this holds
after each of them. -/
theorem session_agrees (distinct : Sha256.DistinctOn S) (fresh : w.Fresh root base)
    {commands : List StoreCommand} (within : ∀ c ∈ commands, c.Within S) (backend : Backend) :
    ∃ removed w', outcome (StoreCommand.session backend root commands) w = (.ok removed, w') ∧
      List.Forall₂ List.Perm removed (Ledger.empty.sweptAll commands) ∧
      (RecordStore.ofBackend backend root).Answers S (Ledger.empty.run commands) w' := by
  have keeps := RecordStore.keeps backend distinct root base
  obtain ⟨w₁, opened, stands⟩ := RecordStore.open_fresh backend S fresh
  obtain ⟨removed, w₂, performed, swept, stands'⟩ := keeps.run within stands
  refine ⟨removed, w₂, ?_, swept, keeps.answers stands'⟩
  rw [StoreCommand.session, Script.outcome_bind_ok opened, performed]

/-! ## Poles -/

/-- Three identifiers. -/
def sampleNames (s : String) : Prop := s = "A" ∨ s = "method#b" ∨ s = "file:///a.php"

theorem sampleNames_distinct : Sha256.DistinctOn sampleNames := by
  rintro s t (rfl | rfl | rfl) (rfl | rfl | rfl)
  · exact fun _ => rfl
  · decide +kernel
  · decide +kernel
  · decide +kernel
  · exact fun _ => rfl
  · decide +kernel
  · decide +kernel
  · decide +kernel
  · exact fun _ => rfl

/-- A class that is written under two types, a constant and a member, a file, and a sweep. -/
def sampleCommands : List StoreCommand :=
  let place : Option SymbolIndex.Location := some ⟨"file:///a.php", 1, 2⟩
  [.write (.klass ⟨"A", some .interface, none, 0⟩),
    .writeBatch [.klass ⟨"A", some .trait, place, 1⟩, .constant ⟨"A", none⟩],
    .write (.member ⟨.method, "b", none, .ofList ["file:///a.php"]⟩),
    .write (.file ⟨"file:///a.php", some 7, [⟨.klass, "A", 1, 2, none, 0⟩]⟩),
    .markUpdated 8, .remove ⟨.member, "method#b"⟩, .sweep fun uri => uri != "file:///a.php"]

theorem sampleCommands_within : ∀ c ∈ sampleCommands, c.Within sampleNames := by
  have used : sampleNames "A" ∧ sampleNames "method#b" ∧ sampleNames "file:///a.php" :=
    ⟨.inl rfl, .inr (.inl rfl), .inr (.inr rfl)⟩
  have normal : Uri.normalize "file:///a.php" = "file:///a.php" := by decide +kernel
  intro c member
  simp only [sampleCommands, List.mem_cons, List.not_mem_nil, or_false] at member
  rcases member with rfl | rfl | rfl | rfl | rfl | rfl | rfl
  · exact ⟨⟨used.1, fun type => by cases type⟩, trivial⟩
  · intro r member
    simp only [List.mem_cons, List.not_mem_nil, or_false] at member
    rcases member with rfl | rfl
    · exact ⟨⟨used.1, fun type => by cases type⟩, trivial⟩
    · exact ⟨⟨used.1, fun type => by cases type⟩, trivial⟩
  · exact ⟨⟨used.2.1, fun type => by cases type⟩, by simp [Record.Named]⟩
  · exact ⟨⟨used.2.2, fun _ => normal⟩, trivial⟩
  · trivial
  · exact ⟨used.2.1, fun type => by cases type⟩
  · trivial

/-- The operations on a store of files in `/i`: the sweep leaves the constant alone. -/
theorem sample_session_agrees :
    ∃ removed w', outcome (StoreCommand.session .file ⟨[47, 105]⟩ sampleCommands) newIndex =
        (.ok removed, w') ∧
      List.Forall₂ List.Perm removed (Ledger.empty.sweptAll sampleCommands) ∧
      (RecordStore.ofBackend .file ⟨[47, 105]⟩).Answers sampleNames
        (Ledger.empty.run sampleCommands) w' ∧
      (Ledger.empty.run sampleCommands).records.values = [.constant ⟨"A", none⟩] := by
  obtain ⟨removed, w', done, swept, answers⟩ :=
    session_agrees sampleNames_distinct newIndex_fresh sampleCommands_within .file
  exact ⟨removed, w', done, swept, answers, by decide +kernel⟩

end SymbolIndex
