import SymbolIndex.Json.Parser

/-!
# Proofs.Json.Fuel — the fuel of the parser

What a reader leaves is shorter than what it was given, and a reader that gives an answer with some fuel gives the
same answer with any fuel that is no less than the number of characters it read (`Settled`). An array spends two
units of fuel where it opens and has one bracket more where it closes, so the count comes out even: it is the
invariant that the induction carries over values, items and fields together.
-/

namespace SymbolIndex.Json

set_option autoImplicit false

/-! ## What is left is shorter -/

theorem length_skipSpace_le (cs : List Char) : (skipSpace cs).length ≤ cs.length :=
  (List.dropWhile_suffix _).length_le

theorem length_stringPieces_lt {cs rest : List Char} {pieces : List Piece}
    (read : stringPieces cs = some (pieces, rest)) : rest.length < cs.length := by
  fun_induction stringPieces cs generalizing pieces with
  | case1 | case3 | case5 | case7 => cases read
  | case2 =>
    cases read
    simp
  | case4 a b c d rest' n _ ih | case6 c rest' short e _ ih | case8 c rest' _ _ _ _ ih =>
    obtain ⟨⟨pieces', left⟩, inner, same⟩ := Option.map_eq_some_iff.1 read
    cases same
    have less := ih inner
    simp only [List.length_cons] at less ⊢
    omega

theorem length_stringLiteral_lt {cs rest : List Char} {text : Option String}
    (read : stringLiteral cs = some (text, rest)) : rest.length < cs.length := by
  obtain ⟨⟨pieces, left⟩, inner, same⟩ := Option.map_eq_some_iff.1 read
  cases same
  exact length_stringPieces_lt inner

theorem length_takeDigits (cs : List Char) : (takeDigits cs).1.length + (takeDigits cs).2.length = cs.length := by
  rw [takeDigits, ← List.length_append, List.takeWhile_append_dropWhile]

theorem length_integerPart_lt {cs rest digits : List Char} (read : integerPart cs = some (digits, rest)) :
    rest.length < cs.length := by
  have whole := length_takeDigits cs
  unfold integerPart at read
  split at read
  · cases read
  · cases read
  next digits' left some_ _ shape =>
    cases read
    rw [shape] at whole
    have nonempty : digits ≠ [] := by
      rintro rfl
      exact some_ rfl
    have positive := List.length_pos_iff.2 nonempty
    simp only at whole
    omega

theorem length_fractionPart_le {cs rest : List Char} {fraction : Option (List Char)}
    (read : fractionPart cs = some (fraction, rest)) : rest.length ≤ cs.length := by
  unfold fractionPart at read
  split at read
  next rest' =>
    have whole := length_takeDigits rest'
    split at read
    · cases read
    next shape =>
      cases read
      rw [shape] at whole
      simp only [List.length_cons] at whole ⊢
      omega
  · cases read
    exact Nat.le_refl _

theorem length_exponentDigits_le {cs rest : List Char} {negative : Bool} {exponent : Option (Bool × List Char)}
    (read : exponentDigits negative cs = some (exponent, rest)) : rest.length ≤ cs.length := by
  have whole := length_takeDigits cs
  unfold exponentDigits at read
  split at read
  · cases read
  next shape =>
    cases read
    rw [shape] at whole
    simp only at whole
    omega

theorem length_exponentPart_le {cs rest : List Char} {exponent : Option (Bool × List Char)}
    (read : exponentPart cs = some (exponent, rest)) : rest.length ≤ cs.length := by
  unfold exponentPart at read
  repeat' split at read
  all_goals first
    | (cases read; exact Nat.le_refl _)
    | (have less := length_exponentDigits_le read
       simp only [List.length_cons] at less ⊢
       omega)

theorem length_unsignedNumber_lt {cs rest : List Char} {negative : Bool} {n : Number}
    (read : unsignedNumber negative cs = some (n, rest)) : rest.length < cs.length := by
  simp only [unsignedNumber, Option.bind_eq_bind, Option.bind_eq_some_iff, Option.pure_def, Option.some.injEq,
    Prod.mk.injEq] at read
  obtain ⟨⟨digits, rest₁⟩, integer, ⟨fraction, rest₂⟩, point, ⟨exponent, rest₃⟩, power, -, rfl⟩ := read
  exact Nat.lt_of_le_of_lt (length_exponentPart_le power)
    (Nat.lt_of_le_of_lt (length_fractionPart_le point) (length_integerPart_lt integer))

theorem length_numberLiteral_lt {cs rest : List Char} {n : Number} (read : numberLiteral cs = some (n, rest)) :
    rest.length < cs.length := by
  unfold numberLiteral at read
  split at read
  · exact Nat.lt_succ_of_lt (length_unsignedNumber_lt read)
  · exact length_unsignedNumber_lt read

/-! ## Enough fuel -/

/-- A reader gives the same with any fuel that is no less than what it reads. -/
def Settled {α : Type} (reader : Nat → List Char → Option (α × List Char)) (fuel : Nat) : Prop :=
  ∀ ⦃cs a rest⦄, reader fuel cs = some (a, rest) →
    rest.length < cs.length ∧ ∀ n, cs.length ≤ n + rest.length → reader n cs = some (a, rest)

theorem Settled.of_succ {α : Type} {reader : Nat → List Char → Option (α × List Char)} {fuel : Nat}
    (each : ∀ cs a rest, reader (fuel + 1) cs = some (a, rest) → rest.length < cs.length ∧
      ∀ n, cs.length ≤ n + 1 + rest.length → reader (n + 1) cs = some (a, rest)) : Settled reader (fuel + 1) := by
  intro cs a rest read
  obtain ⟨less, again⟩ := each cs a rest read
  refine ⟨less, fun n enough => ?_⟩
  obtain ⟨m, rfl⟩ : ∃ m, n = m + 1 := ⟨n - 1, by omega⟩
  exact again m enough

/-- What stands in brackets: nothing, or what a reader makes of it. -/
def enclosed {α : Type} (close : Char) (bare : Json) (wrap : α → Json) (reader : List Char → Option (α × List Char))
    (cs : List Char) : Option (Json × List Char) :=
  match skipSpace cs with
  | [] => (reader []).map fun read => (wrap read.1, read.2)
  | c :: rest => if c = close then some (bare, rest) else (reader (c :: rest)).map fun read => (wrap read.1, read.2)

theorem parseValue_bracket {cs rest : List Char} (fuel : Nat) (shape : skipSpace cs = '[' :: rest) :
    parseValue (fuel + 1) cs = enclosed ']' (.array []) .array (parseItems fuel) rest := by
  simp only [parseValue, shape, enclosed]
  split
  next closed => rw [closed]; exact (if_pos rfl).symm
  next open_ =>
    cases inside : skipSpace rest with
    | nil => rfl
    | cons c t =>
      have other : c ≠ ']' := fun same => open_ t (by rw [inside, same])
      exact (if_neg other).symm

theorem parseValue_brace {cs rest : List Char} (fuel : Nat) (shape : skipSpace cs = '\x7b' :: rest) :
    parseValue (fuel + 1) cs = enclosed '\x7d' (.object []) .object (parseFields fuel) rest := by
  simp only [parseValue, shape, enclosed]
  split
  next closed => rw [closed]; exact (if_pos rfl).symm
  next open_ =>
    cases inside : skipSpace rest with
    | nil => rfl
    | cons c t =>
      have other : c ≠ '\x7d' := fun same => open_ t (by rw [inside, same])
      exact (if_neg other).symm

theorem Settled.enclosed {α : Type} {close : Char} {bare : Json} {wrap : α → Json}
    {reader : Nat → List Char → Option (α × List Char)} {fuel : Nat} (inner : Settled reader fuel) :
    Settled (fun n => enclosed close bare wrap (reader n)) fuel := by
  intro cs a rest read
  have skipped := length_skipSpace_le cs
  simp only [Json.enclosed] at read ⊢
  cases inside : skipSpace cs with
  | nil =>
    rw [inside] at read
    obtain ⟨⟨value, left⟩, first, same⟩ := Option.map_eq_some_iff.1 read
    exact absurd (inner first).1 (Nat.not_lt_zero _)
  | cons c t =>
    rw [inside] at read skipped
    simp only [List.length_cons] at skipped
    simp only at read ⊢
    split at read
    next closed =>
      cases read
      exact ⟨by omega, fun n _ => if_pos closed⟩
    next open_ =>
      obtain ⟨⟨value, left⟩, first, same⟩ := Option.map_eq_some_iff.1 read
      cases same
      obtain ⟨less, again⟩ := inner first
      simp only [List.length_cons] at less again ⊢
      refine ⟨by omega, fun n enough => ?_⟩
      rw [if_neg open_, again n (by omega), Option.map_some]

mutual

theorem settled_parseValue : ∀ fuel, Settled parseValue fuel
  | 0 => fun _ _ _ read => nomatch read
  | fuel + 1 => .of_succ fun cs a rest read => by
    have items := settled_parseItems fuel
    have fields := settled_parseFields fuel
    have skipped := length_skipSpace_le cs
    have whole := read
    rw [parseValue] at read
    split at read
    next rest' shape =>
      cases read
      rw [shape] at skipped
      simp only [List.length_cons] at skipped
      exact ⟨by omega, fun n _ => by simp only [parseValue, shape]⟩
    next rest' shape =>
      cases read
      rw [shape] at skipped
      simp only [List.length_cons] at skipped
      exact ⟨by omega, fun n _ => by simp only [parseValue, shape]⟩
    next rest' shape =>
      cases read
      rw [shape] at skipped
      simp only [List.length_cons] at skipped
      exact ⟨by omega, fun n _ => by simp only [parseValue, shape]⟩
    next rest' shape =>
      obtain ⟨⟨text, left⟩, inner, same⟩ := Option.map_eq_some_iff.1 read
      cases same
      have less := length_stringLiteral_lt inner
      rw [shape] at skipped
      simp only [List.length_cons] at skipped less ⊢
      exact ⟨by omega, fun n _ => by simp only [parseValue, shape, inner, Option.map_some]⟩
    next rest' shape =>
      rw [shape] at skipped
      simp only [List.length_cons] at skipped
      rw [parseValue_bracket fuel shape] at whole
      obtain ⟨less, again⟩ := items.enclosed whole
      exact ⟨by omega, fun n enough => (parseValue_bracket n shape).trans (again n (by omega))⟩
    next rest' shape =>
      rw [shape] at skipped
      simp only [List.length_cons] at skipped
      rw [parseValue_brace fuel shape] at whole
      obtain ⟨less, again⟩ := fields.enclosed whole
      exact ⟨by omega, fun n enough => (parseValue_brace n shape).trans (again n (by omega))⟩
    next no_null no_true no_false no_quote no_bracket no_brace =>
      obtain ⟨⟨number, left⟩, inner, same⟩ := Option.map_eq_some_iff.1 read
      cases same
      have less := length_numberLiteral_lt inner
      simp only at less ⊢
      refine ⟨by omega, fun n _ => ?_⟩
      rw [parseValue]
      split
      next closed => exact absurd closed (no_null _)
      next closed => exact absurd closed (no_true _)
      next closed => exact absurd closed (no_false _)
      next closed => exact absurd closed (no_quote _)
      next closed => exact absurd closed (no_bracket _)
      next closed => exact absurd closed (no_brace _)
      next => rw [inner, Option.map_some]

theorem settled_parseItems : ∀ fuel, Settled parseItems fuel
  | 0 => fun _ _ _ read => nomatch read
  | fuel + 1 => .of_succ fun cs a rest read => by
    have values := settled_parseValue fuel
    have items := settled_parseItems fuel
    rw [parseItems] at read
    split at read
    · cases read
    next item rest₁ first =>
    obtain ⟨less, again⟩ := values first
    have skipped := length_skipSpace_le rest₁
    split at read
    next shape =>
      cases read
      rw [shape] at skipped
      simp only [List.length_cons] at skipped
      refine ⟨by omega, fun n enough => ?_⟩
      simp only [parseItems, again n (by omega), shape]
    next rest₂ shape =>
      obtain ⟨⟨more, left⟩, inner, same⟩ := Option.map_eq_some_iff.1 read
      cases same
      obtain ⟨less', again'⟩ := items inner
      rw [shape] at skipped
      simp only [List.length_cons] at skipped less' ⊢
      refine ⟨by omega, fun n enough => ?_⟩
      simp only [parseItems, again n (by omega), shape, again' n (by omega), Option.map_some]
    · cases read

theorem settled_parseFields : ∀ fuel, Settled parseFields fuel
  | 0 => fun _ _ _ read => nomatch read
  | fuel + 1 => .of_succ fun cs a rest read => by
    have values := settled_parseValue fuel
    have fields := settled_parseFields fuel
    have skipped := length_skipSpace_le cs
    rw [parseFields] at read
    split at read
    next rest₁ opened =>
      split at read
      · cases read
      next key rest₂ named =>
      have shorter := length_stringLiteral_lt named
      have after := length_skipSpace_le rest₂
      split at read
      next rest₃ colon =>
        split at read
        · cases read
        next value rest₄ first =>
        obtain ⟨less, again⟩ := values first
        have last := length_skipSpace_le rest₄
        rw [opened] at skipped
        rw [colon] at after
        simp only [List.length_cons] at skipped after
        split at read
        next shape =>
          cases read
          rw [shape] at last
          simp only [List.length_cons] at last
          refine ⟨by omega, fun n enough => ?_⟩
          simp only [parseFields, opened, named, colon, again n (by omega), shape]
        next rest₅ shape =>
          obtain ⟨⟨more, left⟩, inner, same⟩ := Option.map_eq_some_iff.1 read
          cases same
          obtain ⟨less', again'⟩ := fields inner
          rw [shape] at last
          simp only [List.length_cons] at last less' ⊢
          refine ⟨by omega, fun n enough => ?_⟩
          simp only [parseFields, opened, named, colon, again n (by omega), shape, again' n (by omega),
            Option.map_some]
        · cases read
      · cases read
    · cases read

end

end SymbolIndex.Json
