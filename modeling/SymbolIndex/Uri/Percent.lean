import SymbolIndex.Text.Utf8

/-!
# Uri.Percent — percent-encoding

`encodeBytes` writes a path component so that it can stand between the slashes of a URI, and
`decodeBytes` reads one back. Two digits that are not hexadecimal leave the percent sign as it is.
-/

namespace SymbolIndex.Uri

open SymbolIndex.Text (Bytes)

/-- Bytes that stand for themselves in a path component: the visible ASCII characters except
the double quote, `#`, `%`, `/`, `<`, `>`, `?`, the backslash, the grave accent and braces. -/
def isPlain (b : UInt8) : Bool :=
  let n := b.toNat
  0x21 ≤ n && n ≤ 0x7E &&
    !(n == 0x22 || n == 0x23 || n == 0x25 || n == 0x2F || n == 0x3C || n == 0x3E || n == 0x3F ||
      n == 0x5C || n == 0x60 || n == 0x7B || n == 0x7D)

/-- The digit of a number below sixteen, in upper case. -/
def upperHexDigit (n : Nat) : Char :=
  if n < 10 then Char.ofNat (48 + n) else Char.ofNat (55 + n)

/-- One byte of a component. -/
def encodeByte (b : UInt8) : List Char :=
  if isPlain b then [Char.ofNat b.toNat]
  else ['%', upperHexDigit (b.toNat / 16), upperHexDigit (b.toNat % 16)]

/-- A component. -/
def encodeBytes (bytes : Bytes) : List Char :=
  bytes.flatMap encodeByte

/-- The value of a byte that is a hexadecimal digit. -/
def hexByteValue? (b : UInt8) : Option Nat :=
  let n := b.toNat
  if 48 ≤ n ∧ n ≤ 57 then some (n - 48)
  else if 97 ≤ n ∧ n ≤ 102 then some (n - 87)
  else if 65 ≤ n ∧ n ≤ 70 then some (n - 55)
  else none

/-- The byte two hexadecimal digits spell. -/
def hexPair? (a b : UInt8) : Option UInt8 := do
  return UInt8.ofNat ((← hexByteValue? a) * 16 + (← hexByteValue? b))

/-- Replace each percent sign and two hexadecimal digits by the byte they spell. -/
def decodeBytes : Bytes → Bytes
  | 37 :: a :: b :: rest =>
    match hexPair? a b with
    | some byte => byte :: decodeBytes rest
    | none => 37 :: decodeBytes (a :: b :: rest)
  | b :: rest => b :: decodeBytes rest
  | [] => []

end SymbolIndex.Uri
