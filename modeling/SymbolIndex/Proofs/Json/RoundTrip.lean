import SymbolIndex.Json.Parser
import SymbolIndex.Json.Printer

/-!
# Proofs.Json.RoundTrip — printed JSON reads back

The printer writes any value, but not every value it can write is one a text denotes: a number may
hold digits that are no numeral, and a string without a text is printed as an unpaired surrogate.
`Plain` singles out the values that the encoders of this library build: integers of a machine word,
written in decimal, and strings that denote a text. For those

* `stringLiteral_stringChars` reads a printed string literal back, escapes included;
* `numberLiteral_ofInt` reads a printed integer back, as long as no digit, point or exponent follows;
* `parse_print` reads a whole printed value back;
* `isSound_of_plain` lets a decoder that insists on sound values pass.

The fuel of the parser is never the obstacle: a printed value needs at most as much fuel as it has
characters (`parseValue_chars`), which is the invariant the mutual induction carries.
-/

namespace SymbolIndex.Json

open SymbolIndex.Text (hexDigit)

set_option autoImplicit false

/-! ## Strings -/

/-- What the parser reads for a character that the printer wrote: the controls without a short
escape come back as code units, everything else as the character itself. -/
def pieceOf (c : Char) : Piece :=
  if c.toNat < 0x20 ∧ c ≠ '\x08' ∧ c ≠ '\x0c' ∧ c ≠ '\n' ∧ c ≠ '\r' ∧ c ≠ '\t' then .unit c.toNat
  else .character c

theorem hexValue?_hexDigit : ∀ n < 16, hexValue? (hexDigit n) = some n := by decide

theorem codeUnit?_control {n : Nat} (small : n < 0x20) :
    codeUnit? '0' '0' (hexDigit (n / 16)) (hexDigit (n % 16)) = some n := by
  have zero : hexValue? '0' = some 0 := by decide
  have high := hexValue?_hexDigit (n / 16) (by omega)
  have low := hexValue?_hexDigit (n % 16) (by omega)
  simp only [codeUnit?, zero, high, low, Option.bind_eq_bind, Option.bind_some, Option.pure_def]
  congr 1
  omega

theorem stringPieces_plain {c : Char} {rest : List Char} (quote : c ≠ '"') (slash : c ≠ '\\')
    (printable : ¬ c.toNat < 0x20) :
    stringPieces (c :: rest) =
      (stringPieces rest).map (fun read => (.character c :: read.1, read.2)) := by
  rw [stringPieces.eq_5 c rest (fun e => quote e) (fun _ _ _ _ _ e => absurd e slash)
    (fun _ _ e => absurd e slash)]
  simp [slash, printable]

/-- A short escape is never read as the start of a numbered one. -/
theorem stringPieces_short {c e : Char} {rest : List Char} (other : c ≠ 'u')
    (known : shortEscape? c = some e) :
    stringPieces ('\\' :: c :: rest) =
      (stringPieces rest).map (fun read => (.character e :: read.1, read.2)) := by
  rw [stringPieces.eq_4 c rest (fun _ _ _ _ _ e => absurd e other), known]

theorem stringPieces_escapeChar (c : Char) (rest : List Char) :
    stringPieces (escapeChar c ++ rest) =
      (stringPieces rest).map (fun read => (pieceOf c :: read.1, read.2)) := by
  by_cases quote : c = '"'
  · subst quote; exact stringPieces_short (by decide) (by decide)
  by_cases slash : c = '\\'
  · subst slash; exact stringPieces_short (by decide) (by decide)
  by_cases back : c = '\x08'
  · subst back; exact stringPieces_short (by decide) (by decide)
  by_cases feed : c = '\x0c'
  · subst feed; exact stringPieces_short (by decide) (by decide)
  by_cases line : c = '\n'
  · subst line; exact stringPieces_short (by decide) (by decide)
  by_cases carriage : c = '\r'
  · subst carriage; exact stringPieces_short (by decide) (by decide)
  by_cases tab : c = '\t'
  · subst tab; exact stringPieces_short (by decide) (by decide)
  by_cases control : c.toNat < 0x20
  · have written : escapeChar c =
        ['\\', 'u', '0', '0', hexDigit (c.toNat / 16), hexDigit (c.toNat % 16)] := by
      simp [escapeChar, quote, slash, back, feed, line, carriage, tab, control]
    have piece : pieceOf c = .unit c.toNat := by
      simp [pieceOf, control, back, feed, line, carriage, tab]
    rw [written, piece]
    simp only [List.cons_append, List.nil_append, stringPieces.eq_3, codeUnit?_control control]
  · have written : escapeChar c = [c] := by
      simp [escapeChar, quote, slash, back, feed, line, carriage, tab, control]
    have piece : pieceOf c = .character c := by simp [pieceOf, control]
    rw [written, piece]
    exact stringPieces_plain quote slash control

theorem stringPieces_escaped (cs rest : List Char) :
    stringPieces (cs.flatMap escapeChar ++ '"' :: rest) = some (cs.map pieceOf, rest) := by
  induction cs with
  | nil => exact stringPieces.eq_2 rest
  | cons c cs ih =>
      rw [List.flatMap_cons, List.append_assoc, stringPieces_escapeChar, ih]
      rfl

/-- Controls lie far below the surrogates, so every piece stands for itself. -/
theorem joinPieces_map_pieceOf (cs : List Char) : joinPieces (cs.map pieceOf) = some cs := by
  induction cs with
  | nil => rfl
  | cons c cs ih =>
      rw [List.map_cons]
      by_cases control :
          c.toNat < 0x20 ∧ c ≠ '\x08' ∧ c ≠ '\x0c' ∧ c ≠ '\n' ∧ c ≠ '\r' ∧ c ≠ '\t'
      · have below : c.toNat < 0xD800 := by omega
        have piece : pieceOf c = .unit c.toNat := by rw [pieceOf, if_pos control]
        rw [piece, joinPieces.eq_def]
        simp [below, ih]
      · have piece : pieceOf c = .character c := by rw [pieceOf, if_neg control]
        rw [piece, joinPieces, ih]
        rfl

theorem stringLiteral_stringChars (s : String) (rest : List Char) :
    stringLiteral (s.toList.flatMap escapeChar ++ '"' :: rest) = some (some s, rest) := by
  rw [stringLiteral, stringPieces_escaped]
  simp [joinPieces_map_pieceOf]

/-! ## Numbers -/

/-- What may follow a printed number without being read as a part of it. -/
def Delimited (rest : List Char) : Prop :=
  ∀ c ∈ rest.head?, c.isDigit = false ∧ c ≠ '.' ∧ c ≠ 'e' ∧ c ≠ 'E'

theorem digitsValue_digitsOf (n : Nat) : digitsValue (digitsOf n) = n := by
  have same : ∀ (l : List Char) (init : Nat),
      l.foldl (fun n d => n * 10 + (d.toNat - 48)) init = Nat.ofDigitChars 10 l init := by
    intro l
    induction l with
    | nil => intro init; rfl
    | cons c l ih =>
        intro init
        rw [List.foldl_cons, ih, Nat.ofDigitChars_cons, Nat.mul_comm]
        rfl
  rw [digitsValue, digitsOf, same, Nat.ofDigitChars_ten_toDigits]

theorem isDigit_of_mem_digitsOf {n : Nat} {c : Char} (member : c ∈ digitsOf n) : c.isDigit = true :=
  Nat.isDigit_of_mem_toDigits (by decide) (by decide) member

theorem digitsOf_ne_nil (n : Nat) : digitsOf n ≠ [] := Nat.toDigits_ne_nil

/-- Only zero itself is written with a leading zero. -/
theorem head?_digitsOf {n : Nat} (positive : 0 < n) : (digitsOf n).head? ≠ some '0' := by
  induction n using Nat.strongRecOn with
  | ind n ih =>
      by_cases small : n < 10
      · have digits : ∀ n < 10, 0 < n → (digitsOf n).head? ≠ some '0' := by decide
        exact digits n small positive
      · have less := ih (n / 10) (by omega) (by omega)
        rw [digitsOf] at less ⊢
        rw [Nat.toDigits_of_base_le (by decide) (by omega), List.head?_append,
          Option.or_of_isSome (by simp [Nat.toDigits_ne_nil])]
        exact less

theorem takeDigits_append {digits rest : List Char} (all : ∀ c ∈ digits, c.isDigit = true)
    (stop : ∀ c ∈ rest.head?, c.isDigit = false) : takeDigits (digits ++ rest) = (digits, rest) := by
  have none_ : rest.takeWhile Char.isDigit = [] ∧ rest.dropWhile Char.isDigit = rest := by
    cases rest with
    | nil => exact ⟨rfl, rfl⟩
    | cons c rest => simp [stop c (by simp)]
  rw [takeDigits, List.takeWhile_append_of_pos all, List.dropWhile_append_of_pos all, none_.1,
    none_.2, List.append_nil]

theorem integerPart_digitsOf {n : Nat} {rest : List Char} (delimited : Delimited rest) :
    integerPart (digitsOf n ++ rest) = some (digitsOf n, rest) := by
  have taken := takeDigits_append (fun c => isDigit_of_mem_digitsOf (n := n) (c := c))
    (fun c member => (delimited c member).1)
  rw [integerPart, taken]
  split
  · rename_i empty; exact absurd (congrArg Prod.fst empty) (digitsOf_ne_nil n)
  · rename_i leading
    have digits := congrArg Prod.fst leading
    simp only at digits
    rcases Nat.eq_zero_or_pos n with rfl | positive
    · simp [digitsOf] at digits
    · exact absurd (by rw [digits]; rfl) (head?_digitsOf positive)
  · rename_i same; rw [← same]

theorem unsignedNumber_digitsOf (negative : Bool) {n : Nat} {rest : List Char}
    (delimited : Delimited rest) :
    unsignedNumber negative (digitsOf n ++ rest) = some (⟨negative, digitsOf n, none, none⟩, rest) := by
  have fraction : fractionPart rest = some (none, rest) := by
    cases rest with
    | nil => rfl
    | cons c rest =>
        rw [fractionPart]
        intro tail same
        exact (delimited c (by simp)).2.1 (List.cons.inj same).1
  have exponent : exponentPart rest = some (none, rest) := by
    cases rest with
    | nil => rfl
    | cons c rest => simp [exponentPart, delimited c (by simp)]
  simp [unsignedNumber, integerPart_digitsOf delimited, fraction, exponent]

theorem numberLiteral_ofInt (i : Int) {rest : List Char} (delimited : Delimited rest) :
    numberLiteral ((Number.ofInt i).chars ++ rest) = some (.ofInt i, rest) := by
  by_cases negative : i < 0
  · simp [Number.chars, Number.ofInt, negative, numberLiteral, unsignedNumber_digitsOf _ delimited]
  · obtain ⟨d, ds, shape⟩ := List.exists_cons_of_ne_nil (digitsOf_ne_nil i.natAbs)
    have digit : d.isDigit = true := isDigit_of_mem_digitsOf (n := i.natAbs) (by simp [shape])
    have unsigned : d ≠ '-' := by rintro rfl; simp at digit
    have read := unsignedNumber_digitsOf false (n := i.natAbs) delimited
    simp only [Number.chars, Number.ofInt, negative, decide_false, shape, List.append_nil,
      Bool.false_eq_true, if_false, List.nil_append, List.cons_append] at read ⊢
    rw [numberLiteral, read]
    intro tail same
    exact unsigned (List.cons.inj same).1

/-! ## Values -/

mutual

/-- Whether every number is an integer of a machine word in decimal and every string denotes a
text. -/
def Plain : Json → Prop
  | .number n => ∃ i, n = .ofInt i ∧ i.natAbs < 18446744073709551616
  | .string s => s.isSome
  | .array items => PlainItems items
  | .object fields => PlainFields fields
  | _ => True

/-- `Plain` for each item. -/
def PlainItems : List Json → Prop
  | [] => True
  | item :: rest => Plain item ∧ PlainItems rest

/-- `Plain` for each field, keys included. -/
def PlainFields : List (Option String × Json) → Prop
  | [] => True
  | (key, value) :: rest => key.isSome ∧ Plain value ∧ PlainFields rest

end

theorem skipSpace_cons {c : Char} {rest : List Char} (solid : isSpace c = false) :
    skipSpace (c :: rest) = c :: rest := by
  simp [skipSpace, solid]

theorem isSpace_of_isDigit {c : Char} (digit : c.isDigit = true) : isSpace c = false := by
  simp only [isSpace, Bool.or_eq_false_iff, beq_eq_false_iff_ne]
  refine ⟨⟨⟨?_, ?_⟩, ?_⟩, ?_⟩ <;> (rintro rfl; simp at digit)

/-- What a printed value starts with: no blank, and no bracket that would close what holds it. -/
def Opens (c : Char) : Prop := isSpace c = false ∧ c ≠ ']'

theorem chars_ofInt (i : Int) :
    ∃ c tail, (Number.ofInt i).chars = c :: tail ∧ (c = '-' ∨ c.isDigit = true) := by
  by_cases negative : i < 0
  · exact ⟨'-', digitsOf i.natAbs, by simp [Number.chars, Number.ofInt, negative], .inl rfl⟩
  · obtain ⟨d, ds, shape⟩ := List.exists_cons_of_ne_nil (digitsOf_ne_nil i.natAbs)
    exact ⟨d, ds, by simp [Number.chars, Number.ofInt, negative, shape],
      .inr (isDigit_of_mem_digitsOf (n := i.natAbs) (by simp [shape]))⟩

theorem chars_opens {j : Json} (plain : Plain j) : ∃ c tail, j.chars = c :: tail ∧ Opens c := by
  cases j with
  | null => exact ⟨_, _, rfl, rfl, by decide⟩
  | bool value => cases value <;> exact ⟨_, _, rfl, rfl, by decide⟩
  | number n =>
      obtain ⟨i, rfl, -⟩ := plain
      obtain ⟨c, tail, shape, first⟩ := chars_ofInt i
      refine ⟨c, tail, by rw [chars, shape], ?_⟩
      rcases first with rfl | digit
      · exact ⟨rfl, by decide⟩
      · exact ⟨isSpace_of_isDigit digit, by rintro rfl; simp at digit⟩
  | string s =>
      obtain ⟨s, rfl⟩ := Option.isSome_iff_exists.1 plain
      exact ⟨'"', _, by rw [chars, textChars, stringChars]; rfl, rfl, by decide⟩
  | array items => exact ⟨'[', _, by rw [chars], rfl, by decide⟩
  | object fields => exact ⟨'\x7b', _, by rw [chars], rfl, by decide⟩

theorem parseValue_number {i : Int} {rest : List Char} (delimited : Delimited rest) (fuel : Nat) :
    parseValue (fuel + 1) ((Number.ofInt i).chars ++ rest) = some (.number (.ofInt i), rest) := by
  obtain ⟨c, tail, shape, first⟩ := chars_ofInt i
  have solid : isSpace c = false := by
    rcases first with rfl | digit
    · decide
    · exact isSpace_of_isDigit digit
  have read := numberLiteral_ofInt i delimited
  rw [shape, List.cons_append] at read ⊢
  rw [parseValue, skipSpace_cons solid]
  -- A minus sign or a digit starts none of the other forms of a value.
  have other : c ≠ 'n' ∧ c ≠ 't' ∧ c ≠ 'f' ∧ c ≠ '"' ∧ c ≠ '[' ∧ c ≠ '\x7b' := by
    rcases first with rfl | digit
    · decide
    · refine ⟨?_, ?_, ?_, ?_, ?_, ?_⟩ <;> (rintro rfl; simp at digit)
  split <;> simp_all

theorem delimited_cons {c : Char} {rest : List Char} (stop : c = ',' ∨ c = ']' ∨ c = '\x7d') :
    Delimited (c :: rest) := by
  intro d member
  cases Option.mem_some_iff.1 member
  rcases stop with rfl | rfl | rfl <;> decide

theorem itemsChars_opens {item : Json} {items : List Json} (plain : Plain item) :
    ∃ c tail, itemsChars (item :: items) = c :: tail ∧ Opens c := by
  obtain ⟨c, tail, shape, opens⟩ := chars_opens plain
  cases items with
  | nil => exact ⟨c, _, by rw [itemsChars, shape, List.cons_append], opens⟩
  | cons next items =>
      exact ⟨c, _, by rw [itemsChars, shape, List.cons_append]; simp, opens⟩

theorem fieldsChars_opens (key : String) (value : Json) (fields : List (Option String × Json)) :
    ∃ tail, fieldsChars ((some key, value) :: fields) = '"' :: tail := by
  cases fields with
  | nil => exact ⟨_, by rw [fieldsChars, textChars, stringChars]; rfl⟩
  | cons next fields => exact ⟨_, by rw [fieldsChars, textChars, stringChars]; rfl; simp⟩

mutual

/-- A printed value is read back with no more fuel than it has characters. -/
theorem parseValue_chars : ∀ (j : Json), Plain j → ∀ (fuel : Nat) (rest : List Char),
    j.chars.length ≤ fuel → Delimited rest → parseValue fuel (j.chars ++ rest) = some (j, rest)
  | j, plain, 0, rest, enough, _ => by
      obtain ⟨c, tail, shape, -⟩ := chars_opens plain
      simp [shape] at enough
  | .null, _, fuel + 1, rest, _, _ => by
      simp [chars, parseValue, skipSpace_cons (show isSpace 'n' = false by decide)]
  | .bool true, _, fuel + 1, rest, _, _ => by
      simp [chars, parseValue, skipSpace_cons (show isSpace 't' = false by decide)]
  | .bool false, _, fuel + 1, rest, _, _ => by
      simp [chars, parseValue, skipSpace_cons (show isSpace 'f' = false by decide)]
  | .number n, plain, fuel + 1, rest, _, delimited => by
      obtain ⟨i, rfl, -⟩ := plain
      rw [chars]
      exact parseValue_number delimited fuel
  | .string s, plain, fuel + 1, rest, _, _ => by
      obtain ⟨s, rfl⟩ := Option.isSome_iff_exists.1 plain
      rw [chars, textChars, stringChars, List.cons_append, List.cons_append, parseValue,
        skipSpace_cons (by decide), List.append_assoc, List.singleton_append]
      simp only [stringLiteral_stringChars, Option.map_some]
  | .array [], _, fuel + 1, rest, _, _ => by
      simp [chars, itemsChars, parseValue, skipSpace_cons (show isSpace '[' = false by decide),
        skipSpace_cons (show isSpace ']' = false by decide)]
  | .array (item :: items), plain, fuel + 1, rest, enough, _ => by
      have read := parseItems_chars item items plain fuel rest (by simpa [chars] using enough)
      obtain ⟨c, tail, shape, opens⟩ := @itemsChars_opens item items plain.1
      rw [chars, List.cons_append, parseValue, skipSpace_cons (by decide)]
      rw [shape, List.cons_append] at read ⊢
      simp only [skipSpace_cons opens.1]
      split
      · rename_i closed; exact absurd (List.cons.inj closed).1 opens.2
      · rw [read]; rfl
  | .object [], _, fuel + 1, rest, _, _ => by
      simp [chars, fieldsChars, parseValue, skipSpace_cons (show isSpace '\x7b' = false by decide),
        skipSpace_cons (show isSpace '\x7d' = false by decide)]
  | .object ((key, value) :: fields), plain, fuel + 1, rest, enough, _ => by
      have read := parseFields_chars key value fields plain fuel rest
        (by simpa [chars] using enough)
      obtain ⟨key, rfl⟩ := Option.isSome_iff_exists.1 plain.1
      obtain ⟨tail, shape⟩ := fieldsChars_opens key value fields
      rw [chars, List.cons_append, parseValue, skipSpace_cons (by decide)]
      rw [shape, List.cons_append] at read ⊢
      simp only [skipSpace_cons (show isSpace '"' = false by decide)]
      split
      · rename_i closed; exact absurd (List.cons.inj closed).1 (by decide)
      · rw [read]; rfl

/-- Printed items are read back up to and with the closing bracket. -/
theorem parseItems_chars : ∀ (item : Json) (items : List Json), PlainItems (item :: items) →
    ∀ (fuel : Nat) (rest : List Char), (itemsChars (item :: items)).length ≤ fuel →
      parseItems fuel (itemsChars (item :: items) ++ rest) = some (item :: items, rest)
  | item, [], plain, fuel + 1, rest, enough => by
      simp only [itemsChars, List.length_append, List.length_singleton] at enough
      have read := parseValue_chars item plain.1 fuel (']' :: rest) (by omega)
        (delimited_cons (.inr (.inl rfl)))
      rw [itemsChars, List.append_assoc, List.singleton_append, parseItems, read]
      simp only [skipSpace_cons (show isSpace ']' = false by decide)]
  | item, next :: items, plain, fuel + 1, rest, enough => by
      simp only [itemsChars, List.length_append, List.length_cons] at enough
      have read := parseValue_chars item plain.1 fuel (',' :: (itemsChars (next :: items) ++ rest))
        (by omega) (delimited_cons (.inl rfl))
      have more := parseItems_chars next items plain.2 fuel rest (by omega)
      rw [itemsChars, List.append_assoc, List.cons_append, parseItems, read]
      · simp only [skipSpace_cons (show isSpace ',' = false by decide), more, Option.map_some]
      · simp
  | item, [], _, 0, rest, enough => by simp [itemsChars] at enough
  | item, next :: items, _, 0, rest, enough => by simp [itemsChars] at enough

/-- Printed fields are read back up to and with the closing brace. -/
theorem parseFields_chars : ∀ (key : Option String) (value : Json)
    (fields : List (Option String × Json)), PlainFields ((key, value) :: fields) →
    ∀ (fuel : Nat) (rest : List Char), (fieldsChars ((key, value) :: fields)).length ≤ fuel →
      parseFields fuel (fieldsChars ((key, value) :: fields) ++ rest) =
        some ((key, value) :: fields, rest)
  | key, value, [], plain, fuel + 1, rest, enough => by
      simp only [fieldsChars, List.length_append, List.length_cons] at enough
      have read := parseValue_chars value plain.2.1 fuel ('\x7d' :: rest) (by omega)
        (delimited_cons (.inr (.inr rfl)))
      obtain ⟨key, rfl⟩ := Option.isSome_iff_exists.1 plain.1
      rw [fieldsChars, textChars, stringChars]
      simp only [List.append_assoc, List.cons_append, List.nil_append, parseFields,
        skipSpace_cons (show isSpace '"' = false by decide), stringLiteral_stringChars,
        skipSpace_cons (show isSpace ':' = false by decide), read,
        skipSpace_cons (show isSpace '\x7d' = false by decide)]
  | key, value, (nextKey, next) :: fields, plain, fuel + 1, rest, enough => by
      simp only [fieldsChars, List.length_append, List.length_cons] at enough
      have read := parseValue_chars value plain.2.1 fuel
        (',' :: (fieldsChars ((nextKey, next) :: fields) ++ rest)) (by omega)
        (delimited_cons (.inl rfl))
      have more := parseFields_chars nextKey next fields plain.2.2 fuel rest (by omega)
      obtain ⟨key, rfl⟩ := Option.isSome_iff_exists.1 plain.1
      rw [fieldsChars, textChars, stringChars]
      · simp only [List.append_assoc, List.cons_append, List.nil_append, parseFields,
          skipSpace_cons (show isSpace '"' = false by decide), stringLiteral_stringChars,
          skipSpace_cons (show isSpace ':' = false by decide), read,
          skipSpace_cons (show isSpace ',' = false by decide), more, Option.map_some]
      · simp
  | key, value, [], _, 0, rest, enough => by simp [fieldsChars] at enough
  | key, value, next :: fields, _, 0, rest, enough => by simp [fieldsChars] at enough

end

/-! ## Soundness and depth -/

theorem isFinite_ofInt {i : Int} (small : i.natAbs < 18446744073709551616) :
    (Number.ofInt i).isFinite = true := by
  have bound : 18446744073709551616 ≤ overflowBound := by decide +kernel
  simp [Number.isFinite, Number.ofInt, digitsValue_digitsOf, powerOfTen]
  omega

mutual

theorem isSound_of_plain : ∀ (j : Json), Plain j → j.isSound = true
  | .null, _ => rfl
  | .bool _, _ => rfl
  | .number n, plain => by
      obtain ⟨i, rfl, small⟩ := plain
      exact isFinite_ofInt small
  | .string s, plain => plain
  | .array items, plain => itemsSound_of_plain items plain
  | .object fields, plain => fieldsSound_of_plain fields plain

theorem itemsSound_of_plain : ∀ (items : List Json), PlainItems items → itemsSound items = true
  | [], _ => rfl
  | item :: rest, plain => by
      rw [itemsSound, isSound_of_plain item plain.1, itemsSound_of_plain rest plain.2]; rfl

theorem fieldsSound_of_plain : ∀ (fields : List (Option String × Json)),
    PlainFields fields → fieldsSound fields = true
  | [], _ => rfl
  | (key, value) :: rest, plain => by
      rw [fieldsSound, isSound_of_plain value plain.2.1, fieldsSound_of_plain rest plain.2.2,
        plain.1]; rfl

end

theorem plain_text (s : String) : Plain (text s) := rfl

theorem plain_int {i : Int} (small : i.natAbs < 18446744073709551616) : Plain (int i) :=
  ⟨i, rfl, small⟩

theorem plain_uint32 (n : UInt32) : Plain (nat n.toNat) :=
  plain_int (by have := n.toNat_lt; omega)

theorem plain_int64 (n : Int64) : Plain (int n.toInt) :=
  plain_int (by have := n.le_toInt; have := n.toInt_lt; omega)

theorem plain_list {α : Type} {write : α → Json} {items : List α}
    (plain : ∀ a ∈ items, Plain (write a)) : Plain (list write items) := by
  show PlainItems (items.map write)
  induction items with
  | nil => trivial
  | cons a items ih =>
      exact ⟨plain a (by simp), ih fun b member => plain b (by simp [member])⟩

theorem plain_fields {entries : List (String × Json)} (plain : ∀ e ∈ entries, Plain e.2) :
    Plain (fields entries) := by
  show PlainFields (entries.map (fun e => (some e.1, e.2)))
  induction entries with
  | nil => trivial
  | cons e entries ih =>
      exact ⟨rfl, plain e (by simp), ih fun f member => plain f (by simp [member])⟩

theorem depth_list_le {α : Type} {write : α → Json} {items : List α} {n : Nat}
    (shallow : ∀ a ∈ items, (write a).depth ≤ n) : (list write items).depth ≤ n + 1 := by
  have bound : itemsDepth (items.map write) ≤ n := by
    induction items with
    | nil => exact Nat.zero_le n
    | cons a items ih =>
        exact Nat.max_le.2 ⟨shallow a (by simp), ih fun b member => shallow b (by simp [member])⟩
  exact Nat.succ_le_succ bound

theorem depth_fields_le {entries : List (String × Json)} {n : Nat}
    (shallow : ∀ e ∈ entries, e.2.depth ≤ n) : (fields entries).depth ≤ n + 1 := by
  have bound : fieldsDepth (entries.map (fun e => (some e.1, e.2))) ≤ n := by
    induction entries with
    | nil => exact Nat.zero_le n
    | cons e entries ih =>
        exact Nat.max_le.2 ⟨shallow e (by simp), ih fun f member => shallow f (by simp [member])⟩
  exact Nat.succ_le_succ bound

/-! ## Reading back -/

theorem parse_print {j : Json} (plain : Plain j) : parse? j.print = some j := by
  have read := parseValue_chars j plain (j.chars.length + 1) [] (by omega) (by simp [Delimited])
  rw [List.append_nil] at read
  rw [parse?, print, String.toList_ofList, parseChars?, read]
  rfl

end SymbolIndex.Json
