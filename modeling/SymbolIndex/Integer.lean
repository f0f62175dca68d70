/-!
# Integer — integers of a fixed width

A number that is read from a text or from a table has to fit the width of what it stands for. One
that does not fit is refused, and never wrapped.
-/

namespace SymbolIndex

/-- The unsigned 32-bit integer of a value. -/
def uint32OfInt? (i : Int) : Option UInt32 :=
  if 0 ≤ i ∧ i < 4294967296 then some (UInt32.ofNat i.toNat) else none

/-- The signed 64-bit integer of a value. -/
def int64OfInt? (i : Int) : Option Int64 :=
  if -9223372036854775808 ≤ i ∧ i < 9223372036854775808 then some (Int64.ofInt i) else none

theorem uint32OfInt?_toNat (n : UInt32) : uint32OfInt? n.toNat = some n := by
  have h : n.toNat < 4294967296 := n.toNat_lt
  have h' : 0 ≤ (n.toNat : Int) ∧ (n.toNat : Int) < 4294967296 := by omega
  rw [uint32OfInt?, if_pos h', Int.toNat_natCast, UInt32.ofNat_toNat]

theorem int64OfInt?_toInt (n : Int64) : int64OfInt? n.toInt = some n := by
  have h : -9223372036854775808 ≤ n.toInt ∧ n.toInt < 9223372036854775808 :=
    ⟨n.le_toInt, n.toInt_lt⟩
  rw [int64OfInt?, if_pos h, Int64.ofInt_toInt]

/-- The number that is written as a one and zeros. -/
def powerOfTen (zeros : Nat) : Nat := Nat.pow 10 zeros

end SymbolIndex
