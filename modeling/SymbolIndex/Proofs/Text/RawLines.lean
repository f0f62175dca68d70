import SymbolIndex.Proofs.Text.Lines
import SymbolIndex.Proofs.Text.Utf8

/-!
# Proofs.Text.RawLines — the lines of some bytes

Bytes are cut at line feeds before anything is known of them (`rawLines`). The byte of a line feed is part of no other
character, so the raw lines of a text are the bytes of its lines (`rawLines_encode`), and bytes are a text just where
every raw line is one (`decode?_isSome_iff`).
-/

namespace SymbolIndex.Text

set_option autoImplicit false

/-- The bytes between line feeds. -/
def rawLines (bytes : Bytes) : List Bytes := splitAt (· == 10) bytes

/-! ## Pieces -/

theorem splitAt_eq_splitOnP {α : Type} (p : α → Bool) (l : List α) : splitAt p l = l.splitOnP p := by
  induction l with
  | nil => rfl
  | cons a l ih =>
      rw [splitAt, List.splitOnP_cons_eq_if_modifyHead, ih]
      cases pieces : l.splitOnP p with
      | nil => exact absurd pieces (List.splitOnP_ne_nil p l)
      | cons piece rest => rfl

/-- What has no separator belongs to the first piece. -/
theorem splitAt_append_whole {α : Type} {p : α → Bool} {front : List α} (whole : ∀ a ∈ front, p a = false)
    (l : List α) : splitAt p (front ++ l) = (splitAt p l).modifyHead (front ++ ·) := by
  have some_ := splitAt_ne_nil p l
  induction front with
  | nil =>
      rw [List.nil_append]
      cases splitAt p l <;> rfl
  | cons a front ih =>
      rw [List.cons_append, splitAt, whole a (by simp), ih fun b member => whole b (by simp [member])]
      cases pieces : splitAt p l with
      | nil => exact absurd pieces some_
      | cons piece rest => rfl

/-- The raw lines come back together. -/
theorem intercalate_rawLines (bytes : Bytes) : [10].intercalate (rawLines bytes) = bytes := by
  rw [rawLines, splitAt_eq_splitOnP]
  exact List.intercalate_splitOn 10

theorem rawLines_append (front back : Bytes) : rawLines (front ++ 10 :: back) = rawLines front ++ rawLines back :=
  splitAt_append (by rfl) front back

theorem rawLines_of_whole {line : Bytes} (whole : 10 ∉ line) : rawLines line = [line] := by
  refine splitAt_of_not_mem fun b member => beq_eq_false_iff_ne.2 ?_
  rintro rfl
  exact whole member

/-! ## Text -/

theorem decode?_eq_some {bytes : Bytes} {s : String} : decode? bytes = some s ↔ bytes = encode s := by
  constructor
  · intro read
    unfold decode? String.fromUTF8? at read
    split at read
    next valid =>
      cases read
      rfl
    · cases read
  · rintro rfl
    exact decode?_encode s

theorem decode?_isSome {bytes : Bytes} : (decode? bytes).isSome ↔ ∃ s, bytes = encode s := by
  rw [Option.isSome_iff_exists]
  exact exists_congr fun s => decode?_eq_some

/-- The byte of a line feed is part of no other character. -/
theorem feed_mem_utf8EncodeChar (c : Char) : 10 ∈ String.utf8EncodeChar c ↔ c = '\n' := by
  have number : c = '\n' ↔ c.val.toNat = 10 := by
    rw [← Char.toNat_inj]
    rfl
  rw [number, String.utf8EncodeChar]
  have byte : ∀ n : Nat, (10 : UInt8) = UInt8.ofNat n ↔ n % 256 = 10 := by
    intro n
    rw [← UInt8.toNat_inj, UInt8.toNat_ofNat']
    exact eq_comm
  repeat' split
  all_goals simp only [List.mem_cons, List.not_mem_nil, or_false, byte]
  all_goals omega

/-- The raw lines of a text are the bytes of its pieces. -/
theorem rawLines_encode (cs : List Char) :
    rawLines (encode (String.ofList cs)) = (splitAt (· == '\n') cs).map fun l => encode (String.ofList l) := by
  induction cs with
  | nil => rfl
  | cons c cs ih =>
      have first : encode (String.ofList (c :: cs)) = String.utf8EncodeChar c ++ encode (String.ofList cs) := by
        rw [encode_ofList, encode_ofList, List.flatMap_cons]
      rw [splitAt, first]
      by_cases feed : c = '\n'
      · subst feed
        have byte : String.utf8EncodeChar '\n' = [10] := by decide
        rw [byte, List.singleton_append, rawLines, splitAt, if_pos (by rfl), ← rawLines, ih, if_pos (by rfl),
          List.map_cons]
        rfl
      · have whole : ∀ b ∈ String.utf8EncodeChar c, (b == 10) = false := by
          intro b member
          rw [beq_eq_false_iff_ne]
          rintro rfl
          exact feed ((feed_mem_utf8EncodeChar c).1 member)
        rw [rawLines, splitAt_append_whole whole, ← rawLines, ih, if_neg (by simpa using feed)]
        cases pieces : splitAt (· == '\n') cs with
        | nil => exact absurd pieces (splitAt_ne_nil _ cs)
        | cons piece rest =>
            rw [List.map_cons, List.map_cons, List.modifyHead_cons, encode_ofList, encode_ofList, List.flatMap_cons]

/-- Texts with line feeds between them are a text. -/
theorem exists_encode_intercalate {lines : List Bytes} (each : ∀ line ∈ lines, (decode? line).isSome) :
    ∃ s, [10].intercalate lines = encode s := by
  induction lines with
  | nil => exact ⟨"", rfl⟩
  | cons line lines ih =>
      obtain ⟨s, rest⟩ := ih fun other member => each other (by simp [member])
      obtain ⟨t, rfl⟩ := decode?_isSome.1 (each line (by simp))
      cases lines with
      | nil => exact ⟨t, by simp [List.intercalate]⟩
      | cons next lines =>
          refine ⟨t ++ ("\n" ++ s), ?_⟩
          have feed : encode "\n" = [10] := by decide +kernel
          rw [List.intercalate_cons_cons, rest, encode_append, encode_append, feed, List.append_assoc]

/-- **Bytes are a text if every raw line is.** -/
theorem decode?_isSome_iff (bytes : Bytes) :
    (decode? bytes).isSome ↔ ∀ line ∈ rawLines bytes, (decode? line).isSome := by
  constructor
  · intro text line member
    obtain ⟨s, rfl⟩ := decode?_isSome.1 text
    rw [← String.ofList_toList (s := s), rawLines_encode] at member
    obtain ⟨l, -, rfl⟩ := List.mem_map.1 member
    rw [decode?_encode]
    rfl
  · intro each
    rw [decode?_isSome, ← intercalate_rawLines bytes]
    exact exists_encode_intercalate each

end SymbolIndex.Text
