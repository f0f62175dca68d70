import SymbolIndex.Proofs.Uri.Reader
import SymbolIndex.Record.Key

/-!
# Proofs.Uri.Canonical — one URI for each file

The URI of an absolute path is written out of its components, and they can be read off it again: the
segments between its slashes are the encoded components (`componentChars_segments`), and encoding is
injective. So paths have one URI exactly if they have the same components, and so have the keys of
their files (`normalize_canonical`). Going up by `..` is a component like any other here; nothing looks at
the disk.
-/

namespace SymbolIndex.Uri

open SymbolIndex.Text (encode)

set_option autoImplicit false

theorem componentChars_injective {names names' : List Name} (components : ∀ name ∈ names, name.IsComponent)
    (components' : ∀ name ∈ names', name.IsComponent) (same : componentChars names = componentChars names') :
    names = names' := by
  -- The bare slash has one empty segment, and no component is written as nothing.
  have solid : ∀ {names : List Name}, (∀ name ∈ names, name.IsComponent) → segments [] ≠ names.map encodeBytes := by
    intro names each empty
    obtain ⟨name, member, none_⟩ : ∃ name ∈ names, encodeBytes name = [] := by
      have inside : ([] : List Char) ∈ names.map encodeBytes := empty ▸ List.mem_singleton_self _
      exact List.mem_map.1 inside
    exact encodeBytes_ne_nil (each name member).some_ none_
  obtain ⟨text, shape, parts⟩ := componentChars_segments names
  obtain ⟨text', shape', parts'⟩ := componentChars_segments names'
  obtain rfl : text = text' := by
    rw [shape, shape'] at same
    exact (List.cons.inj same).2
  rcases parts with ⟨rfl, rfl⟩ | ⟨-, parts⟩
  · rcases parts' with ⟨rfl, -⟩ | ⟨-, parts'⟩
    · rfl
    · exact absurd parts' (solid components')
  · rcases parts' with ⟨rfl, rfl⟩ | ⟨-, parts'⟩
    · exact absurd parts (solid components)
    · exact List.map_injective_iff.2 (fun _ _ => encodeBytes_injective) (parts.symm.trans parts')

theorem normalize_eq_iff {p q : String} (absolute : (Path.ofString p).isAbsolute = true)
    (unmarked : hasSchemeMark p.toList = false) (absolute' : (Path.ofString q).isAbsolute = true)
    (unmarked' : hasSchemeMark q.toList = false) :
    normalize p = normalize q ↔ (Path.ofString p).components = (Path.ofString q).components := by
  rw [normalize_of_absolute absolute unmarked, normalize_of_absolute absolute' unmarked']
  constructor
  · intro same
    rw [String.ofList_inj] at same
    exact componentChars_injective (fun _ => Path.isComponent_of_mem) (fun _ => Path.isComponent_of_mem)
      (List.append_cancel_left same)
  · intro same
    rw [same]

/-- **A URI is a canonical form.** The URI of a URI is itself, and two absolute paths without a scheme mark
have the same URI, and their files the same key, exactly if they have the same components. -/
theorem normalize_canonical :
    (∀ s, normalize (normalize s) = normalize s) ∧
      ∀ p q, (Path.ofString p).isAbsolute = true → hasSchemeMark p.toList = false →
        (Path.ofString q).isAbsolute = true → hasSchemeMark q.toList = false →
          (normalize p = normalize q ↔ (Path.ofString p).components = (Path.ofString q).components) ∧
          (RecordKey.ofFile p = RecordKey.ofFile q ↔
            (Path.ofString p).components = (Path.ofString q).components) := by
  refine ⟨normalize_normalize, fun p q absolute unmarked absolute' unmarked' => ?_⟩
  have same := normalize_eq_iff absolute unmarked absolute' unmarked'
  refine ⟨same, ?_⟩
  rw [← same, RecordKey.ofFile, RecordKey.ofFile, RecordKey.mk.injEq]
  exact and_iff_right rfl

/-- Slashes and dots that count for nothing make no difference; `..` and an encoded space do. -/
theorem sample_normalize_canonical :
    normalize "//a/./b c//" = normalize "/a/b c" ∧ normalize "/a/x/../b c" ≠ normalize "/a/b c" ∧
      RecordKey.ofFile "/a/b%20c" ≠ RecordKey.ofFile "/a/b c" := by
  obtain ⟨-, canonical⟩ := normalize_canonical
  refine ⟨?_, fun same => ?_, fun same => ?_⟩
  · exact (canonical _ _ (by decide +kernel) (by decide +kernel) (by decide +kernel)
      (by decide +kernel)).1.2 (by decide +kernel)
  · have components := (canonical _ _ (by decide +kernel) (by decide +kernel) (by decide +kernel)
      (by decide +kernel)).1.1 same
    revert components
    decide +kernel
  · have components := (canonical _ _ (by decide +kernel) (by decide +kernel) (by decide +kernel)
      (by decide +kernel)).2.1 same
    revert components
    decide +kernel

end SymbolIndex.Uri
