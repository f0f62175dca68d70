import SymbolIndex.Digest.Sha256

/-!
# Proofs.Digest.Sha256 — the form of a digest

A digest is eight words, so it is written with 64 hexadecimal digits (`length_hexDigest`,
`mem_hexDigest`). That different texts have different digests cannot be proved, since there are more
texts than digests; what rests on it assumes it of the texts it uses (`DistinctOn`).
-/

namespace SymbolIndex.Sha256

open SymbolIndex.Text (Bytes hexDigit encode)

set_option autoImplicit false

/-- Whether the texts of a collection have digests of their own. -/
def DistinctOn (texts : String → Prop) : Prop :=
  ∀ s t, texts s → texts t → hexDigest (encode s) = hexDigest (encode t) → s = t

theorem length_round {state : List UInt32} (eight : state.length = 8) (input : UInt32 × UInt32) :
    (round state input).length = 8 := by
  unfold round
  split
  · rfl
  · exact eight

theorem length_foldl_round {state : List UInt32} (eight : state.length = 8)
    (inputs : List (UInt32 × UInt32)) : (inputs.foldl round state).length = 8 := by
  induction inputs generalizing state with
  | nil => exact eight
  | cons input inputs ih => exact ih (length_round eight input)

theorem length_compressAll {state : List UInt32} (eight : state.length = 8) (input : List UInt32) :
    (compressAll state input).length = 8 := by
  induction state, input using compressAll.induct with
  | case1 state => rw [compressAll]; exact eight
  | case2 state w rest ih =>
      rw [compressAll]
      refine ih ?_
      rw [compress, List.length_zipWith, length_foldl_round eight, eight]
      rfl

theorem length_digest (message : Bytes) : (digest message).length = 8 :=
  length_compressAll rfl _

theorem length_hexDigest (message : Bytes) : (hexDigest message).toList.length = 64 := by
  have each : ∀ words : List UInt32, (words.flatMap wordDigits).length = 8 * words.length := by
    intro words
    induction words with
    | nil => rfl
    | cons w words ih =>
        rw [List.flatMap_cons, List.length_append, ih, List.length_cons]
        have eight : (wordDigits w).length = 8 := by simp [wordDigits]
        omega
  rw [hexDigest, String.toList_ofList, each, length_digest]

/-- The digits of a digest are hexadecimal. -/
theorem mem_hexDigest {message : Bytes} {c : Char} (member : c ∈ (hexDigest message).toList) :
    ∃ n < 16, c = hexDigit n := by
  rw [hexDigest, String.toList_ofList, List.mem_flatMap] at member
  obtain ⟨w, -, member⟩ := member
  rw [wordDigits, List.mem_map] at member
  obtain ⟨shift, -, rfl⟩ := member
  exact ⟨_, Nat.mod_lt _ (by decide), rfl⟩

end SymbolIndex.Sha256
