import SymbolIndex.Uri.Percent

/-!
# Uri.Host — the host that means this machine

A file URI may name `localhost` as its host, in any of the spellings that name resolution treats
alike: percent-encoded, in capitals, in the compatibility letters of Unicode (full width, circled,
mathematical and so on), and with invisible characters in between.
-/

namespace SymbolIndex.Uri

open SymbolIndex.Text (encode decode?)

/-- The small letter at a place of the alphabet. -/
def letterAt (n : Nat) : Char := Char.ofNat (97 + n)

/-- Characters that count for nothing in a host name. -/
def isIgnoredInHost (n : Nat) : Bool :=
  n == 0xAD || n == 0x34F || (0x180B ≤ n && n ≤ 0x180F && n != 0x180E) || n == 0x200B ||
    n == 0x2060 || n == 0x2064 || (0xFE00 ≤ n && n ≤ 0xFE0F) || n == 0xFEFF ||
    (0xE0100 ≤ n && n ≤ 0xE01EF)

/-- Compatibility characters outside the alphabets below that stand for letters of `localhost`. -/
def compatibilityLetters : List (Nat × String) := [
  (0xAA, "a"), (0xBA, "o"), (0x17F, "s"), (0x2B0, "h"), (0x2E1, "l"), (0x2E2, "s"),
  (0x1D2C, "a"), (0x1D34, "h"), (0x1D38, "l"), (0x1D3C, "o"), (0x1D40, "t"), (0x1D43, "a"),
  (0x1D52, "o"), (0x1D57, "t"), (0x1D9C, "c"), (0x2090, "a"), (0x2092, "o"), (0x2095, "h"),
  (0x2097, "l"), (0x209B, "s"), (0x209C, "t"), (0x2102, "c"), (0x210B, "h"), (0x210C, "h"),
  (0x210D, "h"), (0x210E, "h"), (0x2112, "l"), (0x2113, "l"), (0x212D, "c"), (0x2134, "o"),
  (0x216C, "l"), (0x216D, "c"), (0x217C, "l"), (0x217D, "c"), (0x3388, "cal"), (0xA7F2, "c"),
  (0xFB05, "st"), (0xFB06, "st"), (0x1F12B, "c")]

/-- The letters a character of a host name stands for. -/
def hostLetters (c : Char) : List Char :=
  let n := c.toNat
  if n < 0x80 then [c.toLower]
  else if isIgnoredInHost n then []
  else if 0xFF21 ≤ n ∧ n ≤ 0xFF3A then [letterAt (n - 0xFF21)]
  else if 0xFF41 ≤ n ∧ n ≤ 0xFF5A then [letterAt (n - 0xFF41)]
  else if 0x24B6 ≤ n ∧ n ≤ 0x24E9 then [letterAt ((n - 0x24B6) % 26)]
  else if 0x1F130 ≤ n ∧ n ≤ 0x1F149 then [letterAt (n - 0x1F130)]
  else if 0x1D400 ≤ n ∧ n ≤ 0x1D6A3 then [letterAt ((n - 0x1D400) % 26)]
  else match compatibilityLetters.lookup n with
    | some letters => letters.toList
    | none => [c]

/-- Whether a host as written in a URI is this machine: none at all, or `localhost`. -/
def isLocalHost (host : List Char) : Bool :=
  host.isEmpty ||
    match decode? (decodeBytes (encode (String.ofList host))) with
    | none => false
    | some name => name.toList.flatMap hostLetters == "localhost".toList

end SymbolIndex.Uri
