import SymbolIndex.Proofs.System.Files
import SymbolIndex.Proofs.System.Run

/-!
# Proofs.System.Named — whatever lies below a directory

Below a directory may lie anything that a file system takes: names of any bytes but a slash and a zero, and so many
of them that no path is short enough to lead there (`Named` asks for no more). A path that leads anywhere leads to the
address of its names (`find_below`), whether the last of them is followed or not; what can be read at it can be
removed (`remove_read`), and what is listed at it is what lies right below (`entries_run`).
-/

namespace SymbolIndex

open SymbolIndex.Text (Bytes)

set_option autoImplicit false

namespace Disk

/-- Every name below a directory is one that a file system takes. -/
def Named (d : Disk) (base : Address) : Prop :=
  ∀ {name : Name} {here : Address} {node : Node}, Below base (name :: here) →
    d.node? (name :: here) = some node → name.Proper

/-- A path leads to something. -/
def Leading (d : Disk) (p : Path) : Prop := ∃ here node, d.find true p = .ok (here, node)

namespace Hosts

variable {d : Disk} {root : Path} {base here : Address} {names : List Name} {follow : Bool} {node : Node}

theorem find_short (hosts : d.Hosts root base) (proper : ∀ name ∈ names, name.Proper)
    (found : d.find follow (root.below names) = .ok (here, node)) :
    (root.below names).bytes.length ≤ maxPathLength := by
  obtain ⟨some_, clean, -⟩ := hosts.path
  refine Nat.le_of_not_lt fun long => ?_
  rw [find, locate, if_neg (Path.below_ne_nil proper some_),
    if_neg (by simpa using Path.zero_not_mem_below proper some_ clean), if_pos long] at found
  cases found

/-- What a path leads to lies at the address of its names, and is found there whether links are followed or not. -/
theorem find_below (hosts : d.Hosts root base) (proper : ∀ name ∈ names, name.Proper) (some_ : names ≠ [])
    (found : d.find follow (root.below names) = .ok (here, node)) :
    here = addressOf base names ∧ d.node? here = some node ∧
      ∀ follow', d.find follow' (root.below names) = .ok (here, node) := by
  have short := hosts.find_short proper found
  cases occupied : d.node? (addressOf base names) with
  | none =>
      obtain ⟨links, descent⟩ := hosts.locate_short proper some_ short
      rw [find, descent] at found
      split at found
      next walked => exact absurd walked (walk_ne_found hosts.unlinked proper some_ occupied _ _)
      · cases found
      · cases found
  | some node' =>
      have located : ∀ follow', d.find follow' (root.below names) = .ok (addressOf base names, node') := by
        intro follow'
        rw [find, hosts.locate_occupied proper some_ short occupied]
      rw [located follow] at found
      cases found
      exact ⟨rfl, occupied, located⟩

theorem leading_of_fit (hosts : d.Hosts root base) (fit : Fit names)
    (occupied : d.node? (addressOf base names) = some node) : d.Leading (root.below names) :=
  ⟨_, _, hosts.find_some fit occupied⟩

/-- What is read is a file, and can be removed. -/
theorem remove_read (hosts : d.Hosts root base) (proper : ∀ name ∈ names, name.Proper) (some_ : names ≠ [])
    {c : Bytes} (read_ : d.read (root.below names) = .ok c) :
    (∃ id m, d.node? (addressOf base names) = some (.file id c m)) ∧
      ∃ d', d.removeFile (root.below names) = .ok d' ∧ d'.Hosts root base ∧
        ∀ a, d'.node? a = if a = addressOf base names then none else d.node? a := by
  rw [read] at read_
  split at read_
  next found =>
    cases read_
    obtain ⟨rfl, file, found'⟩ := hosts.find_below proper some_ found
    obtain ⟨hosts', effect⟩ := hosts.drop_file (below_addressOf some_) file
    exact ⟨⟨_, _, file⟩, _, by rw [removeFile, found'], hosts', effect⟩
  · cases read_
  · cases read_

/-- What is listed at a path is what lies right below it, each once, and nothing if the path leads to no directory. -/
theorem entries_run {w : World} (hosts : w.disk.Hosts root base) (proper : ∀ name ∈ names, name.Proper)
    (some_ : names ≠ []) :
    ∃ entries, (Script.entries (root.below names)).run w = (entries, w) ∧ (entries.map (·.1)).Nodup ∧
      ∀ name kind, (name, kind) ∈ entries ↔ w.disk.Leading (root.below names) ∧
        ∃ node, w.disk.node? (name :: addressOf base names) = some node ∧ node.kind = kind := by
  have unlisted : ∀ {e}, w.disk.readDirectory (root.below names) = .error e →
      (Script.entries (root.below names)).run w = ([], w) := by
    intro e refused
    rw [Script.entries, Script.run_bind_of (by rw [Script.run_ask, Call.perform, refused])]
    rfl
  cases found : w.disk.find true (root.below names) with
  | error e =>
      refine ⟨[], unlisted (by rw [readDirectory, found]), .nil, fun name kind => ⟨by simp, ?_⟩⟩
      rintro ⟨⟨here, node, found'⟩, -⟩
      cases found.symm.trans found'
  | ok place =>
      obtain ⟨here, node⟩ := place
      obtain ⟨rfl, occupied, -⟩ := hosts.find_below proper some_ found
      by_cases directory : ∃ m, node = .directory m
      · obtain ⟨m, rfl⟩ := directory
        obtain ⟨entries, listed, distinct, spec⟩ := readDirectory_spec hosts.sound found
        refine ⟨entries, ?_, distinct, fun name kind => (spec name kind).trans (and_iff_right ⟨_, _, found⟩).symm⟩
        rw [Script.entries, Script.run_bind_of (by rw [Script.run_ask, Call.perform, listed])]
        rfl
      · have refused : w.disk.readDirectory (root.below names) = .error .notDirectory := by
          rw [readDirectory, found]
          cases node with
          | directory m => exact absurd ⟨m, rfl⟩ directory
          | file id c m => rfl
          | link target => rfl
        refine ⟨[], unlisted refused, .nil, fun name kind => ⟨by simp, ?_⟩⟩
        -- Only a directory has anything below it.
        rintro ⟨-, below, occupied', -⟩
        obtain ⟨m, parent⟩ := hosts.sound.upward occupied'
        rw [occupied, Option.some.injEq] at parent
        exact absurd ⟨m, parent⟩ directory

end Hosts

end Disk

end SymbolIndex
