/-!
# Text.Utf8 — text and its bytes

File contents and path names are bytes; records and URIs are text. `encode` and `decode?` go
between the two exactly, and `decodeLossy` shows any bytes at all, each maximal ill-formed
stretch as one U+FFFD.
-/

namespace SymbolIndex.Text

/-- A sequence of bytes. -/
abbrev Bytes := List UInt8

/-- The UTF-8 bytes of a text. -/
def encode (s : String) : Bytes :=
  s.toUTF8.data.toList

/-- The text whose UTF-8 bytes these are. -/
def decode? (bytes : Bytes) : Option String :=
  String.fromUTF8? ⟨bytes.toArray⟩

/-- What stands at the head of a byte sequence: a character and the number of bytes after its
first, or an ill-formed stretch and the number of bytes after its first. -/
inductive Head where
  | character (c : Char) (more : Nat)
  | illFormed (more : Nat)

/-- The low six bits of a continuation byte. -/
def tailBits (b : UInt8) : Nat := b.toNat % 64

/-- Whether a byte lies between two bounds. -/
def within (low high : Nat) (b : UInt8) : Bool :=
  low ≤ b.toNat && b.toNat ≤ high

/-- The least and the greatest byte allowed after `first`, by the length of its character: the
bounds exclude overlong forms, surrogates and code points past U+10FFFF. -/
def secondBounds (first : Nat) : Nat × Nat :=
  if first = 0xE0 then (0xA0, 0xBF)
  else if first = 0xED then (0x80, 0x9F)
  else if first = 0xF0 then (0x90, 0xBF)
  else if first = 0xF4 then (0x80, 0x8F)
  else (0x80, 0xBF)

/-- Read the head of `first :: rest`. -/
def head (first : UInt8) (rest : Bytes) : Head :=
  let a := first.toNat
  let (low, high) := secondBounds a
  if a < 0x80 then .character (Char.ofNat a) 0
  else if a < 0xC2 || 0xF4 < a then .illFormed 0
  else match rest with
    | [] => .illFormed 0
    | b :: more =>
      if !within low high b then .illFormed 0
      else if a < 0xE0 then .character (Char.ofNat ((a % 32) * 64 + tailBits b)) 1
      else match more with
        | [] => .illFormed 1
        | c :: more =>
          if !within 0x80 0xBF c then .illFormed 1
          else if a < 0xF0 then
            .character (Char.ofNat (((a % 16) * 64 + tailBits b) * 64 + tailBits c)) 2
          else match more with
            | [] => .illFormed 2
            | d :: _ =>
              if !within 0x80 0xBF d then .illFormed 2
              else
                .character
                  (Char.ofNat ((((a % 8) * 64 + tailBits b) * 64 + tailBits c) * 64 + tailBits d)) 3

/-- The characters of a byte sequence, U+FFFD for each ill-formed stretch. -/
def lossyChars : Bytes → List Char
  | [] => []
  | b :: rest =>
    match head b rest with
    | .character c more => c :: lossyChars (rest.drop more)
    | .illFormed more => '\uFFFD' :: lossyChars (rest.drop more)
termination_by bytes => bytes.length
decreasing_by all_goals simp only [List.length_drop, List.length_cons]; omega

/-- A text for any bytes. -/
def decodeLossy (bytes : Bytes) : String :=
  match decode? bytes with
  | some s => s
  | none => String.ofList (lossyChars bytes)

end SymbolIndex.Text
