import SymbolIndex.Proofs.Text.Utf8
import SymbolIndex.Proofs.Uri.FileUri
import SymbolIndex.System.Disk
import SymbolIndex.Uri.Reader

/-!
# Proofs.Uri.Percent — a name and its percent-encoded form

A name is written byte by byte, so it is read back byte by byte: `decode_encodeBytes` is the round trip,
for any bytes, percent signs among them. Nothing of what is written parts the segments of a path or ends
it (`unmarked_encodeBytes`), and no name but `.` and `..` is written as a spelling of these two
(`isDot_encodeBytes`, `isDotDot_encodeBytes`): whatever is spelled in one of these ways is read as the dots
themselves. Nor is any name but a drive written as one (`isDriveLetter_encodeBytes`).
-/

namespace SymbolIndex.Uri

open SymbolIndex.Text (Bytes encode encode_ascii)

set_option autoImplicit false

/-- The byte of a character below 256. -/
def byteOf (c : Char) : UInt8 := UInt8.ofNat c.toNat

/-! ## Reading back -/

theorem decodeBytes_plain {b : UInt8} (plain : b ≠ 37) (rest : Bytes) :
    decodeBytes (b :: rest) = b :: decodeBytes rest := by
  rw [decodeBytes.eq_def]
  split
  next same => exact absurd (List.cons.inj same).1 plain
  next same =>
    obtain ⟨rfl, rfl⟩ := List.cons.inj same
    rfl
  next same => cases same

theorem decodeBytes_escape {a b byte : UInt8} (pair : hexPair? a b = some byte) (rest : Bytes) :
    decodeBytes (37 :: a :: b :: rest) = byte :: decodeBytes rest := by
  rw [decodeBytes.eq_def]
  simp only [pair]

/-- The two ways a byte is written, and what is read there. -/
theorem spelled (b : UInt8) : (isPlain b = true → byteOf (Char.ofNat b.toNat) = b ∧ b ≠ 37) ∧
    hexPair? (byteOf (upperHexDigit (b.toNat / 16))) (byteOf (upperHexDigit (b.toNat % 16))) = some b := by
  have each : ∀ n < 256, (isPlain (UInt8.ofNat n) = true →
      byteOf (Char.ofNat n) = UInt8.ofNat n ∧ UInt8.ofNat n ≠ 37) ∧
        hexPair? (byteOf (upperHexDigit (n / 16))) (byteOf (upperHexDigit (n % 16))) =
          some (UInt8.ofNat n) := by decide +kernel
  have own := each b.toNat b.toNat_lt
  rwa [UInt8.ofNat_toNat] at own

theorem decodeBytes_encodeByte (b : UInt8) (rest : Bytes) :
    decodeBytes ((encodeByte b).map byteOf ++ rest) = b :: decodeBytes rest := by
  obtain ⟨asItself, escaped⟩ := spelled b
  rw [encodeByte]
  split
  next plain =>
    obtain ⟨same, other⟩ := asItself plain
    rw [List.map_singleton, same, List.singleton_append, decodeBytes_plain other]
  next => exact decodeBytes_escape escaped rest

theorem decodeBytes_encodeBytes (name rest : Bytes) :
    decodeBytes ((encodeBytes name).map byteOf ++ rest) = name ++ decodeBytes rest := by
  induction name with
  | nil => rfl
  | cons b name ih =>
      have parts : encodeBytes (b :: name) = encodeByte b ++ encodeBytes name := rfl
      rw [parts, List.map_append, List.append_assoc, decodeBytes_encodeByte, ih, List.cons_append]

/-- A name comes back from its percent-encoded form. -/
theorem decode_encodeBytes (name : Name) :
    decodeBytes (encode (String.ofList (encodeBytes name))) = name := by
  have ascii : ∀ c ∈ encodeBytes name, c.toNat < 128 := fun c member =>
    Nat.lt_of_le_of_lt (visible_encodeBytes name c member).2 (by decide)
  have whole := decodeBytes_encodeBytes name []
  rw [List.append_nil, decodeBytes, List.append_nil] at whole
  rw [encode_ascii ascii]
  exact whole

theorem encodeBytes_injective {name name' : Name} (same : encodeBytes name = encodeBytes name') :
    name = name' := by
  rw [← decode_encodeBytes name, same, decode_encodeBytes]

theorem encodeBytes_ne_nil {name : Name} (some_ : name ≠ []) : encodeBytes name ≠ [] := fun empty =>
  some_ (encodeBytes_injective empty)

/-- No slash, question mark or number sign is left. -/
theorem unmarked_encodeBytes (name : Name) :
    ∀ c ∈ encodeBytes name, isSlash c = false ∧ endsPath c = false := by
  have each : ∀ n < 256, (encodeByte (UInt8.ofNat n)).all (fun c => !isSlash c && !endsPath c) = true := by
    decide +kernel
  intro c member
  obtain ⟨b, -, inside⟩ := List.mem_flatMap.1 member
  have own := each b.toNat b.toNat_lt
  rw [UInt8.ofNat_toNat] at own
  simpa using List.all_eq_true.1 own c inside

/-! ## The spellings of dots -/

theorem eq_of_toLower {c d : Char} (lower : c.toLower = d) : c = d ∨
    (65 ≤ c.toNat ∧ c.toNat ≤ 90 ∧ d.toNat = c.toNat + 32) := by
  delta Char.toLower at lower
  split at lower
  next upper =>
    have low : 65 ≤ c.val.toNat := upper.1
    have high : c.val.toNat ≤ 90 := upper.2
    refine .inr ⟨low, high, ?_⟩
    rw [← lower]
    change (c.val + ('a'.val - 'A'.val)).toNat = c.val.toNat + 32
    rw [UInt32.toNat_add]
    have step : ('a'.val - 'A'.val).toNat = 32 := by decide
    omega
  next => exact .inl lower

/-- Only letters have a capital. -/
theorem eq_of_toLower_sign {c d : Char} (lower : c.toLower = d) (sign : d.toNat < 97) : c = d := by
  rcases eq_of_toLower lower with same | ⟨low, -, shifted⟩
  · exact same
  · omega

theorem eq_of_toLower_e {c : Char} (lower : c.toLower = 'e') : c = 'e' ∨ c = 'E' := by
  rcases eq_of_toLower lower with same | ⟨-, -, shifted⟩
  · exact .inl same
  · refine .inr (Char.toNat_inj.1 ?_)
    have small : 'e'.toNat = 101 := rfl
    have capital : 'E'.toNat = 69 := rfl
    omega

/-- Each spelling of a dot is read as one. -/
theorem decodeBytes_isDot {segment : List Char} (dotted : isDot segment = true) (rest : Bytes) :
    decodeBytes (segment.map byteOf ++ rest) = dot :: decodeBytes rest := by
  simp only [isDot, Bool.or_eq_true, beq_iff_eq] at dotted
  rcases dotted with plain | escaped
  · obtain ⟨c, rfl, lower⟩ := List.map_eq_singleton_iff.1 plain
    obtain rfl := eq_of_toLower_sign lower (by decide)
    exact decodeBytes_plain (by decide) rest
  · obtain ⟨c, more, rfl, first, escaped⟩ := List.map_eq_cons_iff.1 escaped
    obtain ⟨c', more', rfl, second, escaped⟩ := List.map_eq_cons_iff.1 escaped
    obtain ⟨c'', rfl, third⟩ := List.map_eq_singleton_iff.1 escaped
    obtain rfl := eq_of_toLower_sign first (by decide)
    obtain rfl := eq_of_toLower_sign second (by decide)
    rcases eq_of_toLower_e third with rfl | rfl <;> exact decodeBytes_escape (by decide) rest

/-- A spelling of `..` is one spelling of a dot and another. -/
theorem parts_of_isDotDot {segment : List Char} (dotted : isDotDot segment = true) :
    ∃ first second, segment = first ++ second ∧ isDot first = true ∧ isDot second = true := by
  have parts : ∀ {front back : List Char}, (front = ['.'] ∨ front = ['%', '2', 'e']) →
      (back = ['.'] ∨ back = ['%', '2', 'e']) → segment.map Char.toLower = front ++ back →
      ∃ first second, segment = first ++ second ∧ isDot first = true ∧ isDot second = true := by
    intro front back dot dot' whole
    obtain ⟨first, second, rfl, rfl, rfl⟩ := List.map_eq_append_iff.1 whole
    exact ⟨first, second, rfl, by simpa [isDot] using dot, by simpa [isDot] using dot'⟩
  simp only [isDotDot, Bool.or_eq_true, beq_iff_eq] at dotted
  rcases dotted with ((plain | escaped) | escaped) | escaped
  · exact parts (.inl rfl) (.inl rfl) plain
  · exact parts (.inl rfl) (.inr rfl) escaped
  · exact parts (.inr rfl) (.inl rfl) escaped
  · exact parts (.inr rfl) (.inr rfl) escaped

/-- Of all names only `.` is written as a spelling of `.`. -/
theorem isDot_encodeBytes {name : Name} (other : name ≠ [dot]) : isDot (encodeBytes name) = false := by
  rw [Bool.eq_false_iff]
  intro dotted
  have read := decodeBytes_encodeBytes name []
  rw [decodeBytes_isDot dotted, decodeBytes, List.append_nil] at read
  exact other read.symm

/-- Of all names only `..` is written as a spelling of `..`. -/
theorem isDotDot_encodeBytes {name : Name} (other : name ≠ Disk.dotDot) :
    isDotDot (encodeBytes name) = false := by
  rw [Bool.eq_false_iff]
  intro dotted
  obtain ⟨first, second, whole, dotted, dotted'⟩ := parts_of_isDotDot dotted
  have read := decodeBytes_encodeBytes name []
  rw [whole, List.map_append, List.append_assoc, decodeBytes_isDot dotted, decodeBytes_isDot dotted',
    decodeBytes, List.append_nil] at read
  exact other read.symm

/-! ## Drives -/

/-- A name that reads as a drive: a letter and a colon or a vertical bar. -/
def isDrive : Name → Bool
  | [a, b] => isLetterByte a && (b == 58 || b == 124)
  | _ => false

theorem isLetterByte_byteOf {c : Char} (letter : c.isAlpha = true) : isLetterByte (byteOf c) = true ∧ byteOf c ≠ 37 := by
  have each : ∀ n < 128, (Char.ofNat n).isAlpha = true →
      isLetterByte (UInt8.ofNat n) = true ∧ UInt8.ofNat n ≠ 37 := by decide +kernel
  have small : c.toNat < 128 := by
    unfold Char.isAlpha Char.isUpper Char.isLower at letter
    simp only [Bool.or_eq_true, Bool.and_eq_true, decide_eq_true_eq] at letter
    rcases letter with ⟨-, high⟩ | ⟨-, high⟩
    · exact Nat.lt_of_le_of_lt (UInt32.le_iff_toNat_le.1 high) (by decide)
    · exact Nat.lt_of_le_of_lt (UInt32.le_iff_toNat_le.1 high) (by decide)
  exact each c.toNat small (by rwa [Char.ofNat_toNat])

/-- Only a drive is written as one. -/
theorem isDriveLetter_encodeBytes {name : Name} (other : isDrive name = false) :
    isDriveLetter (encodeBytes name) = false := by
  rw [Bool.eq_false_iff]
  intro driven
  have read := decodeBytes_encodeBytes name []
  unfold isDriveLetter at driven
  split at driven
  next a b written =>
    rw [Bool.and_eq_true, Bool.or_eq_true, beq_iff_eq, beq_iff_eq] at driven
    obtain ⟨letter, mark⟩ := driven
    obtain ⟨isLetter, plain⟩ := isLetterByte_byteOf letter
    have signs : byteOf b ≠ 37 ∧ (byteOf b == 58 || byteOf b == 124) = true := by
      rcases mark with rfl | rfl <;> decide
    rw [written, List.map_cons, List.map_singleton, List.cons_append, decodeBytes_plain plain,
      List.singleton_append, decodeBytes_plain signs.1, decodeBytes, List.append_nil] at read
    rw [← read, isDrive, isLetter, signs.2] at other
    cases other
  next => cases driven

end SymbolIndex.Uri
