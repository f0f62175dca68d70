import SymbolIndex.Proofs.Json.Fuel
import SymbolIndex.Text.Lines

/-!
# Proofs.Json.Blank — a blank after a text

A blank after a text changes nothing of what the text writes (`parse?_push`): each reader leaves one character more and
reads the same, as no token goes on over a blank. The fuel is a matter of its own, for a longer text is given more of
it (`Proofs.Json.Fuel`).

A text of nothing but blank characters writes no value at all (`parse?_of_blank`).
-/

namespace SymbolIndex.Json

set_option autoImplicit false

variable {s : Char} {α : Type}

/-! ## Strings -/

/-- What was read, with one more character left. -/
def leaving (s : Char) (read : Option (α × List Char)) : Option (α × List Char) :=
  read.map fun r => (r.1, r.2 ++ [s])

@[simp] theorem leaving_none : leaving s (none : Option (α × List Char)) = none := rfl

@[simp] theorem leaving_some (a : α) (rest : List Char) : leaving s (some (a, rest)) = some (a, rest ++ [s]) := rfl

theorem leaving_map {β : Type} (f : α → β) (read : Option (α × List Char)) :
    leaving s (read.map fun r => (f r.1, r.2)) = (leaving s read).map fun r => (f r.1, r.2) := by
  cases read <;> rfl

/-- A blank is none of the characters that mean something to the parser. -/
theorem plain_of_blank (blank : isSpace s = true) :
    s ≠ '"' ∧ s ≠ '\\' ∧ s ≠ '.' ∧ s ≠ 'e' ∧ s ≠ 'E' ∧ s ≠ '+' ∧ s ≠ '-' ∧ s ≠ 'l' ∧ s.isDigit = false ∧
      hexValue? s = none ∧ shortEscape? s = none := by
  simp only [isSpace, Bool.or_eq_true, beq_iff_eq] at blank
  rcases blank with ((rfl | rfl) | rfl) | rfl <;> decide

theorem skipSpace_append (blank : isSpace s = true) (cs : List Char) :
    skipSpace (cs ++ [s]) = if skipSpace cs = [] then [] else skipSpace cs ++ [s] := by
  rw [skipSpace, skipSpace, List.dropWhile_append]
  simp [blank]

theorem codeUnit?_last (blank : isSpace s = true) (a b c : Char) : codeUnit? a b c s = none := by
  obtain ⟨-, -, -, -, -, -, -, -, -, hex, -⟩ := plain_of_blank blank
  rw [codeUnit?, hex]
  cases hexValue? a <;> cases hexValue? b <;> cases hexValue? c <;> rfl

/-- A text that ends within an escape is none with a blank at the end either. -/
theorem stringPieces_unescaped (blank : isSpace s = true) {c : Char} {rest : List Char}
    (short : ∀ a b c' d rest', c = 'u' → rest = a :: b :: c' :: d :: rest' → False) (unknown : shortEscape? c = none) :
    stringPieces ('\\' :: c :: (rest ++ [s])) = none := by
  by_cases numbered : ∃ a b c' d rest', c = 'u' ∧ rest ++ [s] = a :: b :: c' :: d :: rest'
  · obtain ⟨a, b, c', d, rest', rfl, shape⟩ := numbered
    rcases List.eq_nil_or_concat rest' with rfl | ⟨front, last, rfl⟩
    · have parts : rest ++ [s] = [a, b, c'] ++ [d] := shape
      obtain rfl := (List.cons.inj (List.append_inj' parts rfl).2).1
      rw [shape, stringPieces.eq_3, codeUnit?_last blank]
    · have parts : rest ++ [s] = (a :: b :: c' :: d :: front) ++ [last] := by
        rw [shape, List.concat_eq_append]
        rfl
      exact (short a b c' d front rfl (List.append_inj' parts rfl).1).elim
  · rw [stringPieces.eq_4, unknown]
    intro a b c' d rest' same shape
    exact numbered ⟨a, b, c', d, rest', same, shape⟩

theorem stringPieces_blank (blank : isSpace s = true) (cs : List Char) :
    stringPieces (cs ++ [s]) = leaving s (stringPieces cs) := by
  obtain ⟨quote, slash, -, -, -, -, -, -, -, -, unknown⟩ := plain_of_blank blank
  fun_induction stringPieces cs with
  | case1 =>
    have last : stringPieces [s] = if s = '\\' || s.toNat < 0x20 then none else none := by
      rw [stringPieces.eq_5 s [] quote (by simp) (by simp), stringPieces]
      rfl
    simpa using last
  | case2 rest => rfl
  | case3 a b c d rest broken =>
    show stringPieces ('\\' :: 'u' :: a :: b :: c :: d :: (rest ++ [s])) = none
    rw [stringPieces, broken]
  | case4 a b c d rest n known ih =>
    show stringPieces ('\\' :: 'u' :: a :: b :: c :: d :: (rest ++ [s])) = _
    rw [stringPieces, known, leaving_map, ← ih]
  | case5 c rest short none_ => exact stringPieces_unescaped blank short none_
  | case6 c rest short e known ih =>
    have other : c ≠ 'u' := by
      rintro rfl
      cases known
    show stringPieces ('\\' :: c :: (rest ++ [s])) = _
    rw [stringPieces.eq_4 c (rest ++ [s]) fun _ _ _ _ _ same => absurd same other, known, leaving_map, ← ih]
  | case7 c rest open_ _ alone control =>
    by_cases escape : c = '\\'
    · obtain rfl : rest = [] := by
        cases rest with
        | nil => rfl
        | cons d rest => exact (alone d rest escape rfl).elim
      subst escape
      show stringPieces ['\\', s] = none
      rw [stringPieces.eq_4 s [] (by simp), unknown]
    · show stringPieces (c :: (rest ++ [s])) = none
      rw [stringPieces.eq_5 c (rest ++ [s]) open_ (fun _ _ _ _ _ same => absurd same escape)
        fun _ _ same => absurd same escape, if_pos control]
  | case8 c rest open_ _ alone plain ih =>
    have escape : c ≠ '\\' := by
      rintro rfl
      exact plain rfl
    show stringPieces (c :: (rest ++ [s])) = _
    rw [stringPieces.eq_5 c (rest ++ [s]) open_ (fun _ _ _ _ _ same => absurd same escape)
      fun _ _ same => absurd same escape, if_neg plain, leaving_map, ← ih]

theorem stringLiteral_blank (blank : isSpace s = true) (cs : List Char) :
    stringLiteral (cs ++ [s]) = leaving s (stringLiteral cs) := by
  rw [stringLiteral, stringLiteral, stringPieces_blank blank]
  cases stringPieces cs <;> rfl

/-! ## Numbers -/

theorem takeDigits_blank (blank : isSpace s = true) (cs : List Char) :
    takeDigits (cs ++ [s]) = ((takeDigits cs).1, (takeDigits cs).2 ++ [s]) := by
  obtain ⟨-, -, -, -, -, -, -, -, digit, -⟩ := plain_of_blank blank
  have split := List.takeWhile_append_dropWhile (p := Char.isDigit) (l := cs)
  rw [takeDigits, takeDigits, List.takeWhile_append, List.dropWhile_append]
  by_cases whole : cs.dropWhile Char.isDigit = []
  · rw [whole, List.append_nil] at split
    simp [whole, split, digit]
  · have short : (cs.takeWhile Char.isDigit).length ≠ cs.length := by
      intro same
      have lengths := congrArg List.length split
      rw [List.length_append, same] at lengths
      exact whole (List.eq_nil_of_length_eq_zero (by omega))
    simp [whole, short]

theorem integerPart_blank (blank : isSpace s = true) (cs : List Char) :
    integerPart (cs ++ [s]) = leaving s (integerPart cs) := by
  rw [integerPart, integerPart, takeDigits_blank blank]
  rcases takeDigits cs with ⟨digits, rest⟩
  split <;> simp_all

theorem fractionPart_blank (blank : isSpace s = true) (cs : List Char) :
    fractionPart (cs ++ [s]) = leaving s (fractionPart cs) := by
  obtain ⟨-, -, point, -⟩ := plain_of_blank blank
  cases cs with
  | nil =>
    rw [List.nil_append, fractionPart.eq_2 [s] (by simp [point])]
    rfl
  | cons c cs =>
    by_cases fraction : c = '.'
    · subst fraction
      rw [List.cons_append, fractionPart, fractionPart, takeDigits_blank blank]
      rcases takeDigits cs with ⟨digits, rest⟩
      cases digits <;> rfl
    · rw [List.cons_append, fractionPart.eq_2 _ (by simp [fraction]), fractionPart.eq_2 _ (by simp [fraction])]
      rfl

theorem exponentDigits_blank (blank : isSpace s = true) (negative : Bool) (cs : List Char) :
    exponentDigits negative (cs ++ [s]) = leaving s (exponentDigits negative cs) := by
  rw [exponentDigits, exponentDigits, takeDigits_blank blank]
  rcases takeDigits cs with ⟨digits, rest⟩
  cases digits <;> rfl

theorem exponentPart_blank (blank : isSpace s = true) (cs : List Char) :
    exponentPart (cs ++ [s]) = leaving s (exponentPart cs) := by
  obtain ⟨-, -, -, small, capital, plus, minus, -⟩ := plain_of_blank blank
  have digits := exponentDigits_blank blank
  match cs with
  | [] => simp [exponentPart, small, capital]
  | [c] =>
    have bare := digits false []
    by_cases exponent : (c = 'e' || c = 'E') = true
    · simpa [exponentPart, exponent, plus, minus] using bare
    · simp [exponentPart, exponent]
  | c :: d :: cs =>
    by_cases exponent : (c = 'e' || c = 'E') = true
    · by_cases positive : d = '+'
      · simpa [exponentPart, exponent, positive] using digits false cs
      · by_cases negative : d = '-'
        · simpa [exponentPart, exponent, negative] using digits true cs
        · simpa [exponentPart, exponent, positive, negative] using digits false (d :: cs)
    · simp [exponentPart, exponent]

theorem unsignedNumber_blank (blank : isSpace s = true) (negative : Bool) (cs : List Char) :
    unsignedNumber negative (cs ++ [s]) = leaving s (unsignedNumber negative cs) := by
  rw [unsignedNumber, unsignedNumber, integerPart_blank blank]
  rcases integerPart cs with _ | ⟨digits, rest⟩
  · rfl
  · simp only [leaving_some, Option.bind_eq_bind, Option.bind_some, fractionPart_blank blank]
    rcases fractionPart rest with _ | ⟨fraction, rest⟩
    · rfl
    · simp only [leaving_some, Option.bind_some, exponentPart_blank blank]
      rcases exponentPart rest with _ | ⟨exponent, rest⟩ <;> rfl

theorem numberLiteral_blank (blank : isSpace s = true) (cs : List Char) :
    numberLiteral (cs ++ [s]) = leaving s (numberLiteral cs) := by
  obtain ⟨-, -, -, -, -, -, minus, -⟩ := plain_of_blank blank
  have unsigned := unsignedNumber_blank blank
  cases cs with
  | nil =>
    have bare := unsigned false []
    rw [List.nil_append, numberLiteral.eq_2 [s] (by simp [minus])]
    exact bare
  | cons c cs =>
    by_cases negative : c = '-'
    · subst negative
      exact unsigned true cs
    · rw [List.cons_append, numberLiteral.eq_2 _ (by simp [negative]), numberLiteral.eq_2 _ (by simp [negative])]
      exact unsigned false (c :: cs)

/-! ## Values -/

/-- What stands at the head of a text with a blank at its end stands at the head of the text. -/
theorem opens_of_blank {word cs rest : List Char} (solid : s ∉ word) (shape : cs ++ [s] = word ++ rest) :
    ∃ rest', cs = word ++ rest' := by
  rcases List.eq_nil_or_concat rest with rfl | ⟨front, last, rfl⟩
  · refine absurd ?_ solid
    rw [List.append_nil] at shape
    simp [← shape]
  · rw [List.concat_eq_append, ← List.append_assoc] at shape
    exact ⟨front, (List.append_inj' shape rfl).1⟩

theorem solid_words (blank : isSpace s = true) :
    s ∉ ['n', 'u', 'l', 'l'] ∧ s ∉ ['t', 'r', 'u', 'e'] ∧ s ∉ ['f', 'a', 'l', 's', 'e'] ∧ s ∉ ['"'] := by
  simp only [isSpace, Bool.or_eq_true, beq_iff_eq] at blank
  rcases blank with ((rfl | rfl) | rfl) | rfl <;> decide

theorem parseValue_nil (fuel : Nat) : parseValue fuel [] = none := by
  cases fuel <;> rfl

theorem parseItems_nil (fuel : Nat) : parseItems fuel [] = none := by
  cases fuel with
  | zero => rfl
  | succ fuel => rw [parseItems, parseValue_nil]

theorem parseFields_nil (fuel : Nat) : parseFields fuel [] = none := by
  cases fuel <;> rfl

theorem enclosed_blank {α : Type} {close : Char} {bare : Json} {wrap : α → Json}
    {reader : List Char → Option (α × List Char)} (blank : isSpace s = true)
    (nothing : reader [] = none) (inner : ∀ cs, reader (cs ++ [s]) = leaving s (reader cs)) (cs : List Char) :
    enclosed close bare wrap reader (cs ++ [s]) = leaving s (enclosed close bare wrap reader cs) := by
  rw [enclosed, enclosed, skipSpace_append blank]
  cases inside : skipSpace cs with
  | nil => simp [nothing]
  | cons c t =>
    rw [if_neg (List.cons_ne_nil c t), List.cons_append]
    by_cases closed : c = close
    · simp [closed]
    · simp only [if_neg closed]
      rw [← List.cons_append, inner]
      cases reader (c :: t) <;> rfl

mutual

theorem parseValue_blank (blank : isSpace s = true) : ∀ (fuel : Nat) (cs : List Char),
    parseValue fuel (cs ++ [s]) = leaving s (parseValue fuel cs)
  | 0, cs => rfl
  | fuel + 1, cs => by
    obtain ⟨null_, true_, false_, quote⟩ := solid_words blank
    by_cases bare : skipSpace cs = []
    · rw [parseValue, parseValue, skipSpace_append blank, if_pos bare, bare]
      rfl
    have shape' := (skipSpace_append blank cs).trans (if_neg bare)
    obtain ⟨c, t, shape⟩ := List.exists_cons_of_ne_nil bare
    rw [shape, List.cons_append] at shape'
    by_cases bracket : c = '['
    · subst bracket
      rw [parseValue_bracket fuel shape', parseValue_bracket fuel shape]
      exact enclosed_blank blank (parseItems_nil fuel) (parseItems_blank blank fuel) t
    by_cases brace : c = '\x7b'
    · subst brace
      rw [parseValue_brace fuel shape', parseValue_brace fuel shape]
      exact enclosed_blank blank (parseFields_nil fuel) (parseFields_blank blank fuel) t
    rw [parseValue, parseValue, shape', shape, ← List.cons_append]
    generalize whole : c :: t = u
    split
    next rest shape =>
      obtain ⟨rest', rfl⟩ := opens_of_blank null_ shape
      obtain rfl : rest' ++ [s] = rest := by simpa using shape
      rfl
    next rest shape =>
      obtain ⟨rest', rfl⟩ := opens_of_blank true_ shape
      obtain rfl : rest' ++ [s] = rest := by simpa using shape
      rfl
    next rest shape =>
      obtain ⟨rest', rfl⟩ := opens_of_blank false_ shape
      obtain rfl : rest' ++ [s] = rest := by simpa using shape
      rfl
    next rest shape =>
      obtain ⟨rest', rfl⟩ := opens_of_blank quote shape
      obtain rfl : rest' ++ [s] = rest := by simpa using shape
      show (stringLiteral (rest' ++ [s])).map _ = leaving s ((stringLiteral rest').map _)
      rw [stringLiteral_blank blank]
      cases stringLiteral rest' <;> rfl
    next rest shape =>
      rw [← whole] at shape
      exact absurd (List.cons.inj shape).1 bracket
    next rest shape =>
      rw [← whole] at shape
      exact absurd (List.cons.inj shape).1 brace
    next no_null no_true no_false no_quote no_bracket no_brace =>
      rw [numberLiteral_blank blank]
      split
      next rest => exact (no_null _ rfl).elim
      next rest => exact (no_true _ rfl).elim
      next rest => exact (no_false _ rfl).elim
      next rest => exact (no_quote _ rfl).elim
      next rest => exact (no_bracket _ rfl).elim
      next rest => exact (no_brace _ rfl).elim
      next => cases numberLiteral u <;> rfl

theorem parseItems_blank (blank : isSpace s = true) : ∀ (fuel : Nat) (cs : List Char),
    parseItems fuel (cs ++ [s]) = leaving s (parseItems fuel cs)
  | 0, cs => rfl
  | fuel + 1, cs => by
    rw [parseItems, parseItems, parseValue_blank blank fuel]
    rcases parseValue fuel cs with _ | ⟨item, rest⟩
    · rfl
    have items := parseItems_blank blank fuel
    simp only [leaving_some, skipSpace_append blank]
    by_cases bare : skipSpace rest = []
    · rw [if_pos bare, bare]
      rfl
    obtain ⟨c, t, shape⟩ := List.exists_cons_of_ne_nil bare
    rw [if_neg bare, shape, List.cons_append]
    by_cases closed : c = ']'
    · subst closed
      rfl
    by_cases more : c = ','
    · subst more
      simp only [items]
      cases parseItems fuel t <;> rfl
    · simp [closed, more]

theorem parseFields_blank (blank : isSpace s = true) : ∀ (fuel : Nat) (cs : List Char),
    parseFields fuel (cs ++ [s]) = leaving s (parseFields fuel cs)
  | 0, cs => rfl
  | fuel + 1, cs => by
    rw [parseFields, parseFields, skipSpace_append blank]
    by_cases bare : skipSpace cs = []
    · rw [if_pos bare, bare]
      rfl
    obtain ⟨c, t, shape⟩ := List.exists_cons_of_ne_nil bare
    rw [if_neg bare, shape, List.cons_append]
    by_cases other : c ≠ '"'
    · simp [other]
    obtain rfl : c = '"' := Decidable.not_not.1 other
    simp only [stringLiteral_blank blank]
    rcases stringLiteral t with _ | ⟨key, rest⟩
    · rfl
    simp only [leaving_some, skipSpace_append blank]
    by_cases keyOnly : skipSpace rest = []
    · rw [if_pos keyOnly, keyOnly]
      rfl
    obtain ⟨d, u, shape⟩ := List.exists_cons_of_ne_nil keyOnly
    rw [if_neg keyOnly, shape, List.cons_append]
    by_cases other : d ≠ ':'
    · simp [other]
    obtain rfl : d = ':' := Decidable.not_not.1 other
    simp only [parseValue_blank blank fuel]
    rcases parseValue fuel u with _ | ⟨value, rest⟩
    · rfl
    have fields := parseFields_blank blank fuel
    simp only [leaving_some, skipSpace_append blank]
    by_cases last : skipSpace rest = []
    · rw [if_pos last, last]
      rfl
    obtain ⟨e, v, shape⟩ := List.exists_cons_of_ne_nil last
    rw [if_neg last, shape, List.cons_append]
    by_cases closed : e = '\x7d'
    · subst closed
      rfl
    by_cases more : e = ','
    · subst more
      simp only [fields]
      cases parseFields fuel v <;> rfl
    · simp [closed, more]

end

/-! ## The whole text -/

theorem parseChars?_blank (blank : isSpace s = true) (cs : List Char) : parseChars? (cs ++ [s]) = parseChars? cs := by
  have bare : ∀ rest, skipSpace (rest ++ [s]) = [] ↔ skipSpace rest = [] := by
    intro rest
    rw [skipSpace_append blank]
    split <;> simp_all
  rw [parseChars?, parseChars?, parseValue_blank blank]
  cases more : parseValue ((cs ++ [s]).length + 1) cs with
  | none =>
    -- With less fuel there is no value either.
    cases less : parseValue (cs.length + 1) cs with
    | none => rfl
    | some read =>
      obtain ⟨-, again⟩ := settled_parseValue _ less
      rw [again _ (by simp only [List.length_append]; omega)] at more
      cases more
  | some read =>
    obtain ⟨value, rest⟩ := read
    obtain ⟨-, again⟩ := settled_parseValue _ more
    rw [again _ (by omega)]
    simp only [leaving_some, bare]

/-- **A blank after a text is passed over.** -/
theorem parse?_push (blank : isSpace s = true) (cs : List Char) :
    parse? (String.ofList (cs ++ [s])) = parse? (String.ofList cs) := by
  rw [parse?, parse?, String.toList_ofList, String.toList_ofList, parseChars?_blank blank]

/-! ## Nothing but blanks -/

theorem isDigit_of_isBlank {c : Char} (blank : Text.isBlank c = true) : c.isDigit = false := by
  rw [← Bool.not_eq_true]
  intro numeral
  have low : 48 ≤ c.toNat ∧ c.toNat ≤ 57 := by
    simpa [Char.isDigit, UInt32.le_iff_toNat_le] using numeral
  simp only [Text.isBlank, Bool.or_eq_true, Bool.and_eq_true, decide_eq_true_eq, beq_iff_eq] at blank
  omega

/-- No value starts with a blank character. -/
theorem parseValue_of_blank {cs : List Char} (blank : ∀ c ∈ cs, Text.isBlank c = true) (fuel : Nat) :
    parseValue fuel cs = none := by
  have skipped : ∀ c ∈ skipSpace cs, Text.isBlank c = true := fun c member =>
    blank c ((List.dropWhile_suffix _).mem member)
  cases fuel with
  | zero => rfl
  | succ fuel =>
    rw [parseValue]
    generalize skipSpace cs = t at skipped
    cases t with
    | nil => rfl
    | cons c t =>
      have first := skipped c List.mem_cons_self
      have opens : c ∉ ['n', 't', 'f', '"', '[', '\x7b', '-'] := by
        intro member
        simp only [List.mem_cons, List.not_mem_nil, or_false] at member
        rcases member with rfl | rfl | rfl | rfl | rfl | rfl | rfl <;> exact absurd first (by decide)
      have number : numberLiteral (c :: t) = none := by
        rw [numberLiteral.eq_2 _ (by simp_all)]
        simp [unsignedNumber, integerPart, takeDigits, isDigit_of_isBlank first]
      simp_all

theorem parse?_of_blank {cs : List Char} (blank : ∀ c ∈ cs, Text.isBlank c = true) :
    parse? (String.ofList cs) = none := by
  rw [parse?, String.toList_ofList, parseChars?, parseValue_of_blank blank]

end SymbolIndex.Json
