import SymbolIndex.Uri.FileUri
import Mathlib.Data.Bool.AllAny

/-!
# Proofs.Uri.FileUri — the URI of a URI

`normalize` gives a text that has a scheme back, and what it makes of an absolute path has one. So the URI
of a file is its own URI, and a text that is not its own URI is no `file://` URI. Nothing in the URI that is
made of a path is blank or breaks a line (`visible_normalize`).
-/

namespace SymbolIndex.Uri

set_option autoImplicit false

theorem hasSchemeMark_append {front back : List Char} (marked : hasSchemeMark front = true) :
    hasSchemeMark (front ++ back) = true := by
  induction front using hasSchemeMark.induct with
  | case1 rest => simp [hasSchemeMark]
  | case2 c rest other ih =>
      rw [hasSchemeMark] at marked
      · have tail := ih marked
        rw [List.cons_append]
        unfold hasSchemeMark
        split
        · rfl
        next equal =>
          obtain ⟨-, rfl⟩ := List.cons.inj equal
          exact tail
        next equal => cases equal
      · exact other
  | case3 => cases marked

/-- What begins with `file://` has a scheme. -/
theorem normalize_of_file {uri : String} (file : "file://".toList <+: uri.toList) :
    normalize uri = uri := by
  obtain ⟨rest, whole⟩ := file
  have marked : hasSchemeMark uri.toList = true := by
    rw [← whole]
    exact hasSchemeMark_append (by decide)
  rw [normalize, if_pos marked]

theorem normalize_of_absolute {path : String} (absolute : (Path.ofString path).isAbsolute = true)
    (unmarked : hasSchemeMark path.toList = false) :
    normalize path = String.ofList ("file://".toList ++ componentChars (Path.ofString path).components) := by
  rw [normalize, if_neg (by simp [unmarked]), if_pos absolute]

/-- The URI of a URI is itself. -/
@[simp] theorem normalize_normalize (path : String) : normalize (normalize path) = normalize path := by
  by_cases marked : hasSchemeMark path.toList = true
  · rw [normalize.eq_def path, if_pos marked, normalize, if_pos marked]
  · by_cases absolute : (Path.ofString path).isAbsolute = true
    · rw [normalize_of_absolute absolute (by simpa using marked)]
      exact normalize_of_file (by simp)
    · rw [normalize.eq_def path, if_neg marked, if_neg absolute, normalize, if_neg marked,
        if_neg absolute]

/-! ## The characters of a URI -/

/-- Visible ASCII. -/
def IsVisible (c : Char) : Prop := 0x21 ≤ c.toNat ∧ c.toNat ≤ 0x7E

instance (c : Char) : Decidable (IsVisible c) := inferInstanceAs (Decidable (_ ∧ _))

theorem visible_encodeByte (b : UInt8) : ∀ c ∈ encodeByte b, IsVisible c := by
  have each : ∀ n < 256, (encodeByte (UInt8.ofNat n)).all (fun c => IsVisible c) = true := by decide +kernel
  have own := List.all_iff_forall_prop.1 (each b.toNat b.toNat_lt)
  rwa [UInt8.ofNat_toNat] at own

theorem visible_encodeBytes (name : Name) : ∀ c ∈ encodeBytes name, IsVisible c := fun c member =>
  have ⟨b, _, inside⟩ := List.mem_flatMap.1 member
  visible_encodeByte b c inside

theorem visible_componentChars (names : List Name) : ∀ c ∈ componentChars names, IsVisible c := by
  have slash_ : IsVisible '/' := by decide
  induction names using componentChars.induct with
  | case1 => simpa [componentChars] using slash_
  | case2 name =>
      intro c member
      rcases List.mem_cons.1 member with rfl | member
      · exact slash_
      · exact visible_encodeBytes name c member
  | case3 name rest more ih =>
      intro c member
      rw [componentChars] at member
      rcases List.mem_append.1 member with own | later
      · rcases List.mem_cons.1 own with rfl | own
        · exact slash_
        · exact visible_encodeBytes name c own
      · exact ih c later
      · exact more

/-- The URI of an absolute path without a scheme is visible throughout. -/
theorem visible_normalize {path : String} (absolute : (Path.ofString path).isAbsolute = true)
    (unmarked : hasSchemeMark path.toList = false) : ∀ c ∈ (normalize path).toList, IsVisible c := by
  rw [normalize_of_absolute absolute unmarked, String.toList_ofList]
  intro c member
  rcases List.mem_append.1 member with scheme | components
  · have each : ∀ c ∈ "file://".toList, IsVisible c := List.all_iff_forall_prop.1 (by decide)
    exact each c scheme
  · exact visible_componentChars _ c components

/-- An absolute path without a scheme, or the URI that is made of one. -/
def NamesFile (path : String) : Prop :=
  ∃ own, (Path.ofString own).isAbsolute = true ∧ hasSchemeMark own.toList = false ∧
    (path = own ∨ path = normalize own)

theorem NamesFile.ne_empty {path : String} (named : NamesFile path) : normalize path ≠ "" := by
  have scheme : ∀ {own : String}, (Path.ofString own).isAbsolute = true → hasSchemeMark own.toList = false →
      normalize own ≠ "" := by
    intro own absolute unmarked none_
    have length := congrArg (fun s => s.toList.length) none_
    simp [normalize, absolute, unmarked] at length
  obtain ⟨own, absolute, unmarked, rfl | rfl⟩ := named
  · exact scheme absolute unmarked
  · rw [normalize_normalize]
    exact scheme absolute unmarked

theorem NamesFile.visible {path : String} (named : NamesFile path) :
    ∀ c ∈ (normalize path).toList, IsVisible c := by
  obtain ⟨own, absolute, unmarked, rfl | rfl⟩ := named
  · exact visible_normalize absolute unmarked
  · rw [normalize_normalize]
    exact visible_normalize absolute unmarked

end SymbolIndex.Uri
