/-!
# Ordered.Key — total orders on keys

Everything this library lists, it lists in a stated order: records by key, references by the bytes
of their URI. `KeyOrder` is the order a key type brings along, with the three laws that sorted
containers rest on.
-/

namespace SymbolIndex

/-- A decidable strict total order. -/
class KeyOrder (κ : Type) extends LT κ where
  decide (a b : κ) : Decidable (a < b)
  irrefl (a : κ) : ¬ a < a
  trans {a b c : κ} : a < b → b < c → a < c
  eq_of_not_lt {a b : κ} : ¬ a < b → ¬ b < a → a = b

instance KeyOrder.decidableLt {κ : Type} [KeyOrder κ] (a b : κ) : Decidable (a < b) :=
  KeyOrder.decide a b

namespace KeyOrder

variable {κ : Type} [KeyOrder κ] {a b : κ}

theorem asymm (h : a < b) : ¬ b < a :=
  fun h' => irrefl a (trans h h')

theorem ne_of_lt (h : a < b) : a ≠ b :=
  fun e => irrefl b (e ▸ h)

end KeyOrder

/-- Text is ordered by its characters, which is the order of its UTF-8 bytes. -/
instance : KeyOrder String where
  decide a b := inferInstanceAs (Decidable (a < b))
  irrefl := String.lt_irrefl
  trans := String.lt_trans
  eq_of_not_lt h h' :=
    String.le_antisymm (String.not_lt.1 h') (String.not_lt.1 h)

end SymbolIndex
