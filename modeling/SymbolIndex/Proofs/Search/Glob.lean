import Mathlib.Data.List.TakeWhile
import SymbolIndex.Search.Glob

/-!
# Proofs.Search.Glob — what an escaped text matches

A pattern is read into elements, so what a pattern matches is said of its elements:

* `GlobItem.matchItems_many` — a star takes any stretch from the front of a text;
* `GlobItem.matchItems_exactly` — elements for the characters of a text take that text;
* `GlobItem.readItems_escapeGlob` — an escaped text is read into those elements;
* `globMatches_exact`, `globMatches_suffix`, `globMatches_within`, `globMatches_start` — an escaped
  text, alone and with stars around it, matches the texts that are, end in, hold and begin with the
  text, as they are read.

A text without a NUL is read to its end, so `escapeGlob_literal` says the same of the texts themselves
where no character is read as another one, of every pattern that is not too long. The code points `FFFE`
and `FFFF` take the place of each other, and a pattern that is too long is compared with nothing
(`escapeGlob_confuses`). A criteria asks for no more than that an escaped text finds what
begins with it, ends in it or holds it (`globMatches_of_start`, `globMatches_of_suffix`,
`globMatches_of_within`).
-/

set_option autoImplicit false

namespace SymbolIndex

namespace GlobItem

/-- The element an escaped character is read into. -/
def exactly (c : Char) : GlobItem :=
  if c = '*' ∨ c = '?' ∨ c = '[' then .oneOf false [(c, c)] else .literal c

theorem admits_exactly (c d : Char) : (exactly c).admits d = true ↔ c = d := by
  unfold exactly
  split
  · simp only [admits, List.any_cons, List.any_nil, Bool.or_false, bne_iff_ne, ne_eq,
      Bool.false_eq, Bool.not_eq_false, Bool.and_eq_true, decide_eq_true_eq]
    exact ⟨fun between => Char.le_antisymm between.1 between.2,
      fun same => same ▸ ⟨Char.le_refl c, Char.le_refl c⟩⟩
  · simp only [admits, beq_iff_eq]

/-! ## Matching -/

theorem matchItems_nil (text : List Char) : matchItems [] text = true ↔ text = [] := by
  unfold matchItems
  exact List.isEmpty_iff

theorem matchItems_many (items : List GlobItem) (text : List Char) :
    matchItems (.many :: items) text = true ↔
      ∃ front back, text = front ++ back ∧ matchItems items back = true := by
  induction text with
  | nil =>
      rw [matchItems]
      constructor
      · intro matched
        exact ⟨[], [], rfl, matched⟩
      · rintro ⟨front, back, split, matched⟩
        obtain ⟨rfl, rfl⟩ := List.append_eq_nil_iff.1 split.symm
        exact matched
  | cons c text ih =>
      rw [matchItems, Bool.or_eq_true, ih]
      constructor
      · rintro (matched | ⟨front, back, rfl, matched⟩)
        · exact ⟨[], c :: text, rfl, matched⟩
        · exact ⟨c :: front, back, rfl, matched⟩
      · rintro ⟨front, back, split, matched⟩
        cases front with
        | nil =>
            rw [List.nil_append] at split
            exact Or.inl (split ▸ matched)
        | cons d front =>
            injection split with _ split
            exact Or.inr ⟨front, back, split, matched⟩

theorem matchItems_exactly_cons (c : Char) (items : List GlobItem) (text : List Char) :
    matchItems (exactly c :: items) text = true ↔
      ∃ back, text = c :: back ∧ matchItems items back = true := by
  have single : exactly c ≠ .many := by
    unfold exactly
    split <;> exact fun same => by injection same
  cases text with
  | nil =>
      rw [matchItems]
      · simp
      · exact single
  | cons d text =>
      rw [matchItems, Bool.and_eq_true, admits_exactly]
      · constructor
        · rintro ⟨rfl, matched⟩
          exact ⟨text, rfl, matched⟩
        · rintro ⟨back, same, matched⟩
          injection same with head tail
          exact ⟨head.symm, tail ▸ matched⟩
      · exact single

theorem matchItems_exactly (value : List Char) (items : List GlobItem) (text : List Char) :
    matchItems (value.map exactly ++ items) text = true ↔
      ∃ back, text = value ++ back ∧ matchItems items back = true := by
  induction value generalizing text with
  | nil => simp
  | cons c value ih =>
      rw [List.map_cons, List.cons_append, matchItems_exactly_cons]
      constructor
      · rintro ⟨rest, rfl, ahead⟩
        obtain ⟨back, rfl, matched⟩ := (ih rest).1 ahead
        exact ⟨back, rfl, matched⟩
      · rintro ⟨back, rfl, matched⟩
        exact ⟨value ++ back, rfl, (ih _).2 ⟨back, rfl, matched⟩⟩

/-! ## Reading -/

theorem readItems_nil (n : Nat) : readItems n [] = [] := by
  cases n <;> rfl

theorem readItems_star {n : Nat} (fuel : 1 ≤ n) : readItems n ['*'] = [.many] := by
  obtain ⟨m, rfl⟩ : ∃ m, n = m + 1 := ⟨n - 1, by omega⟩
  rw [readItems, readItems_nil]

theorem readItems_class {c : Char} (special : c = '*' ∨ c = '?' ∨ c = '[') (n : Nat)
    (rest : List Char) :
    readItems (n + 1) ('[' :: c :: ']' :: rest) = .oneOf false [(c, c)] :: readItems n rest := by
  rcases special with rfl | rfl | rfl <;> rfl

theorem readItems_plain {c : Char} (plain : ¬ (c = '*' ∨ c = '?' ∨ c = '[')) (n : Nat)
    (rest : List Char) : readItems (n + 1) (c :: rest) = .literal c :: readItems n rest := by
  have apart : c ≠ '*' ∧ c ≠ '?' ∧ c ≠ '[' :=
    ⟨fun same => plain (.inl same), fun same => plain (.inr (.inl same)),
      fun same => plain (.inr (.inr same))⟩
  rw [readItems]
  · exact apart.1
  · exact apart.2.1
  · exact fun _ same _ => apart.2.2 same
  · exact apart.2.2

/-- An escaped text is read into one element for each of its characters. A class takes one step for
its three characters, so there are steps left for what follows. -/
theorem readItems_escapeGlob (value tail : List Char) {items : List GlobItem}
    (follows : ∀ n, tail.length ≤ n → readItems n tail = items) (n : Nat)
    (fuel : (escapeGlob value ++ tail).length ≤ n) :
    readItems n (escapeGlob value ++ tail) = value.map exactly ++ items := by
  induction value generalizing n with
  | nil => exact follows n fuel
  | cons c value ih =>
      have unfolded : escapeGlob (c :: value) =
          (if c = '*' ∨ c = '?' ∨ c = '[' then ['[', c, ']'] else [c]) ++ escapeGlob value := rfl
      rw [unfolded] at fuel ⊢
      by_cases special : c = '*' ∨ c = '?' ∨ c = '['
      · rw [if_pos special] at fuel ⊢
        simp only [List.cons_append, List.nil_append, List.length_cons] at fuel ⊢
        obtain ⟨m, rfl⟩ : ∃ m, n = m + 1 := ⟨n - 1, by omega⟩
        rw [readItems_class special, ih m (by omega), List.map_cons, exactly, if_pos special,
          List.cons_append]
      · rw [if_neg special] at fuel ⊢
        simp only [List.cons_append, List.nil_append, List.length_cons] at fuel ⊢
        obtain ⟨m, rfl⟩ : ∃ m, n = m + 1 := ⟨n - 1, by omega⟩
        rw [readItems_plain special, ih m (by omega), List.map_cons, exactly, if_neg special,
          List.cons_append]

end GlobItem

open GlobItem

/-! ## Reading a text -/

theorem beforeNul_append {front : List Char} (clean : '\x00' ∉ front) (back : List Char) :
    beforeNul (front ++ back) = front ++ beforeNul back := by
  unfold beforeNul
  apply List.takeWhile_append_of_pos
  intro c inside
  have apart : c ≠ '\x00' := fun same => clean (same ▸ inside)
  exact decide_eq_true apart

theorem beforeNul_eq {text : List Char} (clean : '\x00' ∉ text) : beforeNul text = text := by
  simpa [beforeNul] using beforeNul_append clean []

/-- What a text begins with is seen if it has no NUL, whatever comes after it. -/
theorem prefix_beforeNul {start text : List Char} (clean : '\x00' ∉ start) (front : start <+: text) :
    start <+: beforeNul text := by
  obtain ⟨back, rfl⟩ := front
  exact ⟨beforeNul back, (beforeNul_append clean back).symm⟩

theorem readText_eq {text : List Char} (clean : '\x00' ∉ text) : readText text = text.map readChar := by
  rw [readText, beforeNul_eq clean]

/-- A wildcard is read as it is, and nothing else is read as one. -/
theorem readChar_special {c : Char} :
    (readChar c = '*' ∨ readChar c = '?' ∨ readChar c = '[') ↔ c = '*' ∨ c = '?' ∨ c = '[' := by
  unfold readChar
  split
  next nothing => rcases nothing with rfl | rfl <;> decide
  · exact Iff.rfl

theorem mem_escapeGlob {value : List Char} {c : Char} (inside : c ∈ value) : c ∈ escapeGlob value := by
  refine List.mem_flatMap.2 ⟨c, inside, ?_⟩
  split <;> simp

theorem not_mem_escapeGlob {value : List Char} (clean : '\x00' ∉ value) :
    '\x00' ∉ escapeGlob value := by
  intro member
  obtain ⟨c, inside, member⟩ := List.mem_flatMap.1 member
  have different : '\x00' ≠ c := fun same => clean (same ▸ inside)
  split at member <;> simp [different] at member

/-- Reading an escaped text is escaping the text that is read. -/
theorem map_readChar_escapeGlob (value : List Char) :
    (escapeGlob value).map readChar = escapeGlob (value.map readChar) := by
  induction value with
  | nil => rfl
  | cons c value ih =>
      have unfolded : ∀ (d : Char) (rest : List Char), escapeGlob (d :: rest) =
          (if d = '*' ∨ d = '?' ∨ d = '[' then ['[', d, ']'] else [d]) ++ escapeGlob rest :=
        fun _ _ => rfl
      rw [List.map_cons, unfolded, unfolded, List.map_append, ih]
      by_cases special : c = '*' ∨ c = '?' ∨ c = '['
      · have brackets : readChar '[' = '[' ∧ readChar ']' = ']' := by decide
        rw [if_pos special, if_pos (readChar_special.2 special)]
        simp only [List.map_cons, List.map_nil, brackets]
      · rw [if_neg special, if_neg (mt readChar_special.1 special), List.map_singleton]

/-! ## Patterns -/

theorem globItems_star (pattern : List Char) :
    globItems ('*' :: pattern) = .many :: globItems pattern := rfl

theorem globItems_eq {pattern : List Char} (clean : '\x00' ∉ pattern) :
    globItems pattern = readItems (pattern.map readChar).length (pattern.map readChar) := by
  rw [globItems, readText_eq clean]

theorem globItems_escapeGlob {value : List Char} (clean : '\x00' ∉ value) :
    globItems (escapeGlob value) = (value.map readChar).map exactly := by
  have escaped := readItems_escapeGlob (value.map readChar) [] (fun n _ => readItems_nil n) _
    (Nat.le_refl _)
  rw [List.append_nil, List.append_nil] at escaped
  rw [globItems_eq (not_mem_escapeGlob clean), map_readChar_escapeGlob, escaped]

theorem globItems_start {value : List Char} (clean : '\x00' ∉ value) :
    globItems (escapeGlob value ++ ['*']) = (value.map readChar).map exactly ++ [.many] := by
  have pattern : '\x00' ∉ escapeGlob value ++ ['*'] := by
    simpa using not_mem_escapeGlob clean
  have star : ['*'].map readChar = ['*'] := by decide
  rw [globItems_eq pattern, List.map_append, map_readChar_escapeGlob, star]
  exact readItems_escapeGlob _ ['*'] (fun n fuel => readItems_star fuel) _ (Nat.le_refl _)

theorem matchItems_whole (value text : List Char) :
    matchItems (value.map exactly) text = true ↔ text = value := by
  have ahead := matchItems_exactly value [] text
  rw [List.append_nil] at ahead
  rw [ahead]
  constructor
  · rintro ⟨back, rfl, matched⟩
    rw [(matchItems_nil back).1 matched, List.append_nil]
  · rintro rfl
    exact ⟨[], (List.append_nil _).symm, (matchItems_nil _).2 rfl⟩

theorem matchItems_start (value text : List Char) :
    matchItems (value.map exactly ++ [.many]) text = true ↔ value <+: text := by
  rw [matchItems_exactly]
  constructor
  · rintro ⟨back, rfl, -⟩
    exact List.prefix_append _ _
  · rintro ⟨back, rfl⟩
    exact ⟨back, rfl, (matchItems_many _ _).2 ⟨back, [], (List.append_nil _).symm,
      (matchItems_nil _).2 rfl⟩⟩

section Patterns

variable {value text : List Char}

/-- An escaped text matches what is read as the text. -/
theorem globMatches_exact (clean : '\x00' ∉ value) :
    globMatches (escapeGlob value) text = true ↔ readText text = value.map readChar := by
  rw [globMatches, globItems_escapeGlob clean, matchItems_whole]

/-- A star and an escaped text match what ends in the text. -/
theorem globMatches_suffix (clean : '\x00' ∉ value) :
    globMatches ('*' :: escapeGlob value) text = true ↔ value.map readChar <:+ readText text := by
  rw [globMatches, globItems_star, globItems_escapeGlob clean, matchItems_many]
  constructor
  · rintro ⟨front, back, whole, matched⟩
    exact ⟨front, by rw [whole, (matchItems_whole _ _).1 matched]⟩
  · rintro ⟨front, whole⟩
    exact ⟨front, _, whole.symm, (matchItems_whole _ _).2 rfl⟩

/-- An escaped text and a star match what begins with the text. -/
theorem globMatches_start (clean : '\x00' ∉ value) :
    globMatches (escapeGlob value ++ ['*']) text = true ↔ value.map readChar <+: readText text := by
  rw [globMatches, globItems_start clean, matchItems_start]

/-- An escaped text between stars matches what holds the text. -/
theorem globMatches_within (clean : '\x00' ∉ value) :
    globMatches ('*' :: escapeGlob value ++ ['*']) text = true ↔
      value.map readChar <:+: readText text := by
  rw [List.cons_append, globMatches, globItems_star, globItems_start clean, matchItems_many]
  constructor
  · rintro ⟨front, back, whole, matched⟩
    obtain ⟨rest, rfl⟩ := (matchItems_start _ back).1 matched
    rw [whole]
    exact ⟨front, rest, List.append_assoc _ _ _⟩
  · rintro ⟨front, rest, whole⟩
    exact ⟨front, value.map readChar ++ rest, by rw [← whole, List.append_assoc],
      (matchItems_start _ _).2 (List.prefix_append _ _)⟩

theorem globMatches_of_suffix (clean : '\x00' ∉ value) (ends : value <:+ beforeNul text) :
    globMatches ('*' :: escapeGlob value) text = true :=
  (globMatches_suffix clean).2 (ends.map readChar)

theorem globMatches_of_start (clean : '\x00' ∉ value) (begins : value <+: beforeNul text) :
    globMatches (escapeGlob value ++ ['*']) text = true :=
  (globMatches_start clean).2 (begins.map readChar)

theorem globMatches_of_within (clean : '\x00' ∉ value) (holds : value <:+: beforeNul text) :
    globMatches ('*' :: escapeGlob value ++ ['*']) text = true :=
  (globMatches_within clean).2 (holds.map readChar)

end Patterns

/-! ## Literal starts -/

theorem plain_of_mem_literalStart {pattern : List Char} {c : Char} (member : c ∈ literalStart pattern) :
    ¬ (c = '*' ∨ c = '?' ∨ c = '[') ∧ c ≠ '\x00' := by
  have kept := List.mem_takeWhile_imp member
  simp only [decide_eq_true_eq] at kept
  obtain ⟨star, one, bracket, nul⟩ := kept
  refine ⟨?_, nul⟩
  rintro (rfl | rfl | rfl)
  · exact star rfl
  · exact one rfl
  · exact bracket rfl

theorem escapeGlob_plain {value : List Char} (plain : ∀ c ∈ value, ¬ (c = '*' ∨ c = '?' ∨ c = '[')) :
    escapeGlob value = value := by
  induction value with
  | nil => rfl
  | cons c value ih =>
      have more := ih fun d member => plain d (List.mem_cons_of_mem c member)
      have here : escapeGlob (c :: value) = (if c = '*' ∨ c = '?' ∨ c = '[' then ['[', c, ']'] else [c]) ++
        escapeGlob value := rfl
      rw [here, if_neg (plain c List.mem_cons_self), more]
      rfl

theorem readItems_literal {start : List Char} (plain : ∀ c ∈ start, ¬ (c = '*' ∨ c = '?' ∨ c = '['))
    (tail : List Char) (n : Nat) :
    readItems (start.length + n) (start ++ tail) = start.map exactly ++ readItems n tail := by
  induction start with
  | nil => rw [List.length_nil, Nat.zero_add]; rfl
  | cons c start ih =>
      have here := plain c List.mem_cons_self
      have more := ih fun d member => plain d (List.mem_cons_of_mem c member)
      rw [List.length_cons, Nat.add_right_comm, List.cons_append, readItems_plain here, more, List.map_cons,
        exactly, if_neg here, List.cons_append]

/-- What matches a pattern begins as the pattern does. -/
theorem globMatches_literalStart {pattern text : List Char} (matched : globMatches pattern text = true) :
    globMatches (literalStart pattern ++ ['*']) text = true := by
  let start := literalStart pattern
  have plain : ∀ c ∈ start, ¬ (c = '*' ∨ c = '?' ∨ c = '[') := fun c member =>
    (plain_of_mem_literalStart member).1
  have clean : '\x00' ∉ start := fun member => (plain_of_mem_literalStart member).2 rfl
  obtain ⟨rest, whole⟩ : ∃ rest, pattern = start ++ rest := ⟨_, List.takeWhile_append_dropWhile.symm⟩
  have read : readText pattern = start.map readChar ++ readText rest := by
    rw [whole, readText, beforeNul_append clean, List.map_append]
    rfl
  have plain' : ∀ c ∈ start.map readChar, ¬ (c = '*' ∨ c = '?' ∨ c = '[') := by
    intro c member
    obtain ⟨d, inside, rfl⟩ := List.mem_map.1 member
    exact mt readChar_special.1 (plain d inside)
  rw [globMatches, globItems, read, List.length_append, readItems_literal plain', matchItems_exactly] at matched
  obtain ⟨back, begins, -⟩ := matched
  have found := (@globMatches_start start text clean).2 ⟨back, begins.symm⟩
  rwa [escapeGlob_plain plain] at found

/-! ## Literal texts -/

/-- A pattern matches a text exactly if something holds, unless it is too long: then it is not compared. -/
structure Tells (pattern text : List Char) (holds : Prop) : Prop where
  compared : byteLength pattern ≤ patternLimit → ∃ matched, glob? pattern text = some matched ∧ (matched = true ↔ holds)
  refused : patternLimit < byteLength pattern → glob? pattern text = none

theorem tells {pattern text : List Char} {holds : Prop} (told : globMatches pattern text = true ↔ holds) :
    Tells pattern text holds where
  compared short := ⟨_, if_pos short, told⟩
  refused long := if_neg (Nat.not_le_of_lt long)

theorem Tells.matched_iff {pattern text : List Char} {holds : Prop} (tells : Tells pattern text holds)
    (short : byteLength pattern ≤ patternLimit) : glob? pattern text = some true ↔ holds := by
  obtain ⟨matched, compared, told⟩ := tells.compared short
  rw [compared, ← told, Option.some_inj]

/-- The patterns made of the escaped `value` match `text` exactly if `value'` is, begins, ends as its
last segment, or stands in `text'`, each as far as it is compared at all. -/
structure MatchesAs (value text value' text' : List Char) : Prop where
  whole : Tells (escapeGlob value) text (text' = value')
  start : Tells (escapeGlob value ++ ['*']) text (value' <+: text')
  segment : Tells ('*' :: '\\' :: escapeGlob value) text ('\\' :: value' <:+ text')
  within : Tells ('*' :: escapeGlob value ++ ['*']) text (value' <:+: text')

theorem matchesAs_read {value text : List Char} (clean : '\x00' ∉ value) (clean' : '\x00' ∉ text) :
    MatchesAs value text (value.map readChar) (text.map readChar) := by
  have separated : '\x00' ∉ '\\' :: value := by simpa using clean
  have separator : readChar '\\' = '\\' := by decide
  have segment := @globMatches_suffix _ text separated
  rw [List.map_cons, separator] at segment
  rw [← readText_eq clean']
  exact ⟨tells (globMatches_exact clean), tells (globMatches_start clean), tells segment,
    tells (globMatches_within clean)⟩

/-- A text in which no character is read as another one. -/
def ReadsAsIs (text : List Char) : Prop := ∀ c ∈ text, c ≠ '\ufffe' ∧ c ≠ '\uffff'

instance ReadsAsIs.decidable (text : List Char) : Decidable (ReadsAsIs text) :=
  List.decidableBAll (fun c => c ≠ '\ufffe' ∧ c ≠ '\uffff') text

theorem ReadsAsIs.map_readChar {text : List Char} (asIs : ReadsAsIs text) :
    text.map readChar = text := by
  refine (List.map_congr_left fun c member => ?_).trans (List.map_id text)
  obtain ⟨first, second⟩ := asIs c member
  exact if_neg fun nothing => nothing.elim first second

/-- **An escaped text is taken literally** by every pattern that is short enough to be compared, as far as texts
can be told apart once they are read, and to the last character where none is read as another one. -/
theorem escapeGlob_literal (v t : String) (clean : '\x00' ∉ v.toList) (clean' : '\x00' ∉ t.toList) :
    MatchesAs v.toList t.toList (v.toList.map readChar) (t.toList.map readChar) ∧
      (ReadsAsIs v.toList → ReadsAsIs t.toList →
        MatchesAs v.toList t.toList v.toList t.toList) := by
  have read := matchesAs_read clean clean'
  refine ⟨read, fun asIs asIs' => ?_⟩
  rwa [asIs.map_readChar, asIs'.map_readChar] at read

/-- Brackets, stars and what has a meaning of its own in a class, as the last segment of a name. -/
theorem sample_escapeGlob_literal :
    '\x00' ∉ "*[a-z]?^]*".toList ∧ '\x00' ∉ "N\\*[a-z]?^]*".toList ∧
      ReadsAsIs "*[a-z]?^]*".toList ∧ ReadsAsIs "N\\*[a-z]?^]*".toList ∧
      glob? ('*' :: '\\' :: escapeGlob "*[a-z]?^]*".toList) "N\\*[a-z]?^]*".toList = some true ∧
      glob? (escapeGlob "*[a-z]?^]*".toList) "N\\*[a-z]?^]*".toList ≠ some true := by
  have clean : '\x00' ∉ "*[a-z]?^]*".toList ∧ '\x00' ∉ "N\\*[a-z]?^]*".toList := by decide
  have asIs : ReadsAsIs "*[a-z]?^]*".toList ∧ ReadsAsIs "N\\*[a-z]?^]*".toList := by decide
  have literal := (escapeGlob_literal _ _ clean.1 clean.2).2 asIs.1 asIs.2
  refine ⟨clean.1, clean.2, asIs.1, asIs.2, (literal.segment.matched_iff (by decide)).2 ⟨['N'], by decide⟩, ?_⟩
  rw [ne_eq, literal.whole.matched_iff (by decide)]
  decide

theorem byteLength_letters (n : Nat) : byteLength (List.replicate n 'a') = n := by
  induction n with
  | zero => rfl
  | succ n ih =>
      rw [List.replicate_succ, byteLength, ih]
      exact Nat.add_comm 1 n

/-- Two texts without a NUL can differ and be read alike, and a text can be too long to match itself. -/
theorem escapeGlob_confuses :
    (¬ ∀ v t : String, '\x00' ∉ v.toList → '\x00' ∉ t.toList →
      (glob? ('*' :: '\\' :: escapeGlob v.toList) t.toList = some true ↔ '\\' :: v.toList <:+ t.toList)) ∧
      ¬ ∀ v t : String, '\x00' ∉ v.toList → '\x00' ∉ t.toList → ReadsAsIs v.toList → ReadsAsIs t.toList →
        (glob? (escapeGlob v.toList) t.toList = some true ↔ t = v) := by
  constructor
  · intro literal
    have clean : '\x00' ∉ "\ufffe".toList ∧ '\x00' ∉ "A\\\uffff".toList := by decide
    have matched := ((matchesAs_read clean.1 clean.2).segment.matched_iff (by decide)).2 ⟨['A'], by decide⟩
    exact absurd ((literal "\ufffe" "A\\\uffff" clean.1 clean.2).1 matched) (by decide)
  · intro literal
    let letters := List.replicate 50001 'a'
    have only : ∀ c ∈ letters, c = 'a' := fun c member => List.eq_of_mem_replicate member
    have clean : '\x00' ∉ letters := fun member => absurd (only _ member) (by decide)
    have asIs : ReadsAsIs letters := by
      intro c member
      obtain rfl := only c member
      decide
    have plain : escapeGlob letters = letters := escapeGlob_plain fun c member => by
      obtain rfl := only c member
      decide
    have own := literal (String.ofList letters) (String.ofList letters)
    simp only [String.toList_ofList, plain] at own
    have matched := (own clean clean asIs asIs).2 trivial
    rw [glob?, byteLength_letters, if_neg (by decide)] at matched
    cases matched

end SymbolIndex
