import SymbolIndex.Text.Utf8
import SymbolIndex.Text.Quoted

/-!
# Digest.Sha256 — the SHA-256 digest

The digest of a byte sequence as FIPS 180-4 defines it: pad to blocks of 64 bytes, expand each block
to 64 words, and mix the words into a state of eight. `hexDigest` writes it in lower-case
hexadecimal, the form file names use.
-/

namespace SymbolIndex.Sha256

open SymbolIndex.Text (Bytes hexDigit)

/-- The eight words the digest starts from. -/
def initialState : List UInt32 := [
    0x6a09e667, 0xbb67ae85, 0x3c6ef372, 0xa54ff53a, 0x510e527f, 0x9b05688c,
    0x1f83d9ab, 0x5be0cd19]

/-- The word added in each of the 64 rounds. -/
def roundConstants : List UInt32 := [
    0x428a2f98, 0x71374491, 0xb5c0fbcf, 0xe9b5dba5, 0x3956c25b, 0x59f111f1,
    0x923f82a4, 0xab1c5ed5, 0xd807aa98, 0x12835b01, 0x243185be, 0x550c7dc3,
    0x72be5d74, 0x80deb1fe, 0x9bdc06a7, 0xc19bf174, 0xe49b69c1, 0xefbe4786,
    0x0fc19dc6, 0x240ca1cc, 0x2de92c6f, 0x4a7484aa, 0x5cb0a9dc, 0x76f988da,
    0x983e5152, 0xa831c66d, 0xb00327c8, 0xbf597fc7, 0xc6e00bf3, 0xd5a79147,
    0x06ca6351, 0x14292967, 0x27b70a85, 0x2e1b2138, 0x4d2c6dfc, 0x53380d13,
    0x650a7354, 0x766a0abb, 0x81c2c92e, 0x92722c85, 0xa2bfe8a1, 0xa81a664b,
    0xc24b8b70, 0xc76c51a3, 0xd192e819, 0xd6990624, 0xf40e3585, 0x106aa070,
    0x19a4c116, 0x1e376c08, 0x2748774c, 0x34b0bcb5, 0x391c0cb3, 0x4ed8aa4a,
    0x5b9cca4f, 0x682e6ff3, 0x748f82ee, 0x78a5636f, 0x84c87814, 0x8cc70208,
    0x90befffa, 0xa4506ceb, 0xbef9a3f7, 0xc67178f2]

/-- Rotate to the right. -/
def rotate (x : UInt32) (n : UInt32) : UInt32 :=
  (x >>> n) ||| (x <<< (32 - n))

/-- A word of four bytes, most significant first. -/
def word (a b c d : UInt8) : UInt32 :=
  (a.toUInt32 <<< 24) ||| (b.toUInt32 <<< 16) ||| (c.toUInt32 <<< 8) ||| d.toUInt32

/-- The words of a byte sequence. -/
def words : Bytes → List UInt32
  | a :: b :: c :: d :: rest => word a b c d :: words rest
  | _ => []

/-- The eight bytes of a length, most significant first. -/
def lengthBytes (n : Nat) : Bytes :=
  [56, 48, 40, 32, 24, 16, 8, 0].map (fun shift => UInt8.ofNat (n >>> shift))

/-- The message, one set bit, zeros, and the message's length in bits: whole blocks. -/
def pad (message : Bytes) : Bytes :=
  message ++ 0x80 :: List.replicate ((119 - message.length % 64) % 64) 0 ++
    lengthBytes (8 * message.length)

/-- Add `n` words to a schedule that is kept in reverse. -/
def extend : (n : Nat) → List UInt32 → List UInt32
  | 0, schedule => schedule
  | n + 1, schedule =>
    let w2 := schedule.getD 1 0
    let w7 := schedule.getD 6 0
    let w15 := schedule.getD 14 0
    let w16 := schedule.getD 15 0
    let s0 := rotate w15 7 ^^^ rotate w15 18 ^^^ (w15 >>> 3)
    let s1 := rotate w2 17 ^^^ rotate w2 19 ^^^ (w2 >>> 10)
    extend n ((w16 + s0 + w7 + s1) :: schedule)

/-- The 64 words of a block of 16. -/
def schedule (block : List UInt32) : List UInt32 :=
  (extend 48 block.reverse).reverse

/-- One round: a schedule word and its constant mixed into the state. -/
def round (state : List UInt32) (input : UInt32 × UInt32) : List UInt32 :=
  match state with
  | [a, b, c, d, e, f, g, h] =>
    let s1 := rotate e 6 ^^^ rotate e 11 ^^^ rotate e 25
    let choice := (e &&& f) ^^^ ((~~~e) &&& g)
    let t1 := h + s1 + choice + input.2 + input.1
    let s0 := rotate a 2 ^^^ rotate a 13 ^^^ rotate a 22
    let majority := (a &&& b) ^^^ (a &&& c) ^^^ (b &&& c)
    [t1 + (s0 + majority), a, b, c, d + t1, e, f, g]
  | _ => state

/-- Mix one block into the state. -/
def compress (state block : List UInt32) : List UInt32 :=
  List.zipWith (· + ·) state (((schedule block).zip roundConstants).foldl round state)

/-- Mix all blocks into the state. -/
def compressAll (state : List UInt32) (input : List UInt32) : List UInt32 :=
  match input with
  | [] => state
  | w :: rest => compressAll (compress state ((w :: rest).take 16)) (rest.drop 15)
termination_by input.length
decreasing_by simp only [List.length_drop, List.length_cons]; omega

/-- The eight words of the digest. -/
def digest (message : Bytes) : List UInt32 :=
  compressAll initialState (words (pad message))

/-- Eight hexadecimal digits of a word. -/
def wordDigits (w : UInt32) : List Char :=
  [28, 24, 20, 16, 12, 8, 4, 0].map (fun shift => hexDigit ((w.toNat >>> shift) % 16))

/-- The digest in lower-case hexadecimal. -/
def hexDigest (message : Bytes) : String :=
  String.ofList ((digest message).flatMap wordDigits)

end SymbolIndex.Sha256
