import SymbolIndex.Proofs.Search.Condition
import SymbolIndex.Proofs.Search.TableIndex

/-!
# Proofs.Search.Clause — the text of a condition, read as SQL

A scan sends its condition as a text with question marks and a list of values, and nothing of the
tree the text was written from. This module reads such a text the way a database does: it is cut
into words, a question mark takes the next value, and the tests are joined with `AND` binding
tighter than `OR` and brackets first (`Sql.holds?`).

The reader keeps, for every bracket that is open, whether a conjunction that is over held and
whether the one it is in has held so far. A disjunction ends a conjunction, so a condition whose
disjunctions stand in conjunctions only within brackets is read as it was meant
(`Sql.reads_condition`). Every condition of a criteria is such a one (`Criteria.levelled`), and
`Sql.holds?_clause` says what the text of a page holds of.

* `Criteria.clause_reaches` — the text of a criteria holds of the row of every entry that the
  criteria accepts, unless the criteria asks for a short name and a NUL stands before it;
* `Criteria.clause_stops_at_nul` — such an entry can be lost.
-/

set_option autoImplicit false

namespace SymbolIndex

namespace Sql

/-! ## Words -/

/-- A character that is a word by itself. -/
def isMark (c : Char) : Bool := c == '(' || c == ')' || c == '?' || c == '=' || c == '>'

/-- A word that is over, unless nothing was read of it. -/
def ended (word : List Char) : List (List Char) := if word.isEmpty then [] else [word]

/-- The words of a text, after `word` of the first one. -/
def words (word : List Char) : List Char → List (List Char)
  | [] => ended word
  | c :: rest =>
    if c = ' ' then ended word ++ words [] rest
    else if isMark c then ended word ++ [c] :: words [] rest
    else words (word ++ [c]) rest

/-- A blank or a mark ends a word. -/
def EndsWord (c : Char) : Prop := c = ' ' ∨ isMark c = true

theorem words_append {c : Char} (ends : EndsWord c) (word front back : List Char) :
    words word (front ++ c :: back) = words word front ++ words [] (c :: back) := by
  induction front generalizing word with
  | nil =>
      rw [List.nil_append, words, words]
      rcases ends with rfl | mark
      · simp [words, ended]
      · have apart : c ≠ ' ' := by
          rintro rfl
          exact absurd mark (by decide)
        simp [words, ended, apart, mark]
  | cons d front ih =>
      rw [List.cons_append, words, words]
      split
      · rw [ih, List.append_assoc]
      · split
        · rw [ih, List.append_assoc, List.cons_append]
        · rw [ih]

/-! ## Tokens -/

/-- What a test compares by. -/
inductive Operator where
  | equal
  | greater
  | glob
  deriving DecidableEq

/-- What a word says. Whatever is no keyword and no number is the name of a column. -/
inductive Token where
  | opening
  | closing
  | and
  | or
  | mark
  | operator (o : Operator)
  | value (v : Cell)
  | column (name : String)
  deriving DecidableEq

/-- The number some digits write. -/
def number (digits : List Char) : Int :=
  digits.foldl (fun n c => 10 * n + ((c.toNat : Int) - ('0'.toNat : Int))) 0

/-- The token of a word. -/
def Token.ofWord : List Char → Token
  | ['('] => .opening
  | [')'] => .closing
  | ['A', 'N', 'D'] => .and
  | ['O', 'R'] => .or
  | ['?'] => .mark
  | ['='] => .operator .equal
  | ['>'] => .operator .greater
  | ['G', 'L', 'O', 'B'] => .operator .glob
  | word => if word.all Char.isDigit then .value (.integer (number word)) else .column (String.ofList word)

/-- The tokens of a text. -/
def tokens (text : String) : List Token := (words [] text.toList).map Token.ofWord

/-! ## Reading -/

/-- A test of two values, where it is known here what the test says. -/
def Operator.test : Operator → Cell → Cell → Option Bool
  | .equal, .text a, .text b => some (a == b)
  | .equal, .integer a, .integer b => some (a == b)
  | .greater, .integer a, .integer b => some (decide (b < a))
  | .glob, .text value, .text pattern => some (globMatches pattern.toList value.toList)
  | _, _, _ => none

/-- A bracket that is open: whether a conjunction that is over held, and whether the one that is
being read has held so far. -/
structure Level where
  held : Bool
  holding : Bool

namespace Level

/-- Nothing was read yet. -/
def start : Level := ⟨false, true⟩

/-- A test was read. -/
def meet (l : Level) (b : Bool) : Level := { l with holding := l.holding && b }

/-- Whether one of the conjunctions holds. -/
def value (l : Level) : Bool := l.held || l.holding

/-- A conjunction is over. -/
def turn (l : Level) : Level := ⟨l.value, true⟩

theorem meet_meet (l : Level) (a b : Bool) : (l.meet a).meet b = l.meet (a && b) := by
  simp [meet, Bool.and_assoc]

end Level

/-- What has to come next. -/
inductive Due where
  /-- A test or a bracket. -/
  | test
  /-- The operator of a test. -/
  | operator (left : Cell)
  /-- The right side of a test. -/
  | right (left : Cell) (o : Operator)
  /-- What joins two tests, or ends a bracket. -/
  | joint

/-- A text read so far: what has to come next, the levels inside out, the values not taken. -/
structure Reader where
  due : Due
  level : Level
  outer : List Level
  params : List Cell

namespace Reader

variable (row : String → Option Cell)

/-- The value a token stands for, and the values that are left. -/
def operand? (params : List Cell) : Token → Option (Cell × List Cell)
  | .value v => some (v, params)
  | .column name => (row name).map (·, params)
  | .mark => match params with
    | v :: rest => some (v, rest)
    | [] => none
  | _ => none

/-- Read a token. -/
def read (r : Reader) (t : Token) : Option Reader :=
  match r.due, t with
  | .test, .opening => some { r with level := .start, outer := r.level :: r.outer }
  | .test, t => do
    let (v, params) ← operand? row r.params t
    return { r with due := .operator v, params }
  | .operator v, .operator o => some { r with due := .right v o }
  | .right v o, t => do
    let (w, params) ← operand? row r.params t
    let b ← o.test v w
    return { r with due := .joint, level := r.level.meet b, params }
  | .joint, .and => some { r with due := .test }
  | .joint, .or => some { r with due := .test, level := r.level.turn }
  | .joint, .closing =>
    match r.outer with
    | [] => none
    | level :: outer => some { r with level := level.meet r.level.value, outer }
  | _, _ => none

end Reader

/-- Whether the text of a condition holds of a row, if the text can be read to its end and takes
all the values. -/
def holds? (text : String) (params : List Cell) (row : String → Option Cell) : Option Bool := do
  let r ← (tokens text).foldlM (Reader.read row) ⟨.test, .start, [], params⟩
  match r.due, r.outer, r.params with
  | .joint, [], [] => some r.level.value
  | _, _, _ => none

end Sql

open Sql

namespace Condition

/-- The tokens of a condition. -/
def tokens : Condition → List Token
  | .equals column _ => [.column column.name, .operator .equal, .mark]
  | .glob column _ => [.column column.name, .operator .glob, .mark]
  | .always => [.value (.integer 1), .operator .equal, .value (.integer 1)]
  | .both left right => left.tokens ++ .and :: right.tokens
  | .either left right => left.tokens ++ .or :: right.tokens
  | .group inner => .opening :: (inner.tokens ++ [.closing])

theorem tokens_append {c : Char} (ends : EndsWord c) (front back : List Char) :
    (words [] (front ++ c :: back)).map Token.ofWord =
      (words [] front).map Token.ofWord ++ (words [] (c :: back)).map Token.ofWord := by
  rw [words_append ends, List.map_append]

/-- The text of a condition is cut into its tokens. -/
theorem tokens_text (cond : Condition) : Sql.tokens cond.text = cond.tokens := by
  induction cond with
  | equals column value =>
      show Sql.tokens (column.name ++ " = ?") = [.column column.name, .operator .equal, .mark]
      cases column <;> decide
  | glob column pattern =>
      show Sql.tokens (column.name ++ " GLOB ?") = [.column column.name, .operator .glob, .mark]
      cases column <;> decide
  | always => rfl
  | both left right ihl ihr =>
      have text : (both left right).text.toList =
          left.text.toList ++ ' ' :: 'A' :: 'N' :: 'D' :: ' ' :: right.text.toList := by
        simp [Condition.text]
      rw [Sql.tokens] at ihl ihr ⊢
      rw [text, tokens_append (.inl rfl), ihl]
      show _ ++ Token.and :: (words [] right.text.toList).map Token.ofWord = _
      rw [ihr, tokens]
  | either left right ihl ihr =>
      have text : (either left right).text.toList =
          left.text.toList ++ ' ' :: 'O' :: 'R' :: ' ' :: right.text.toList := by
        simp [Condition.text]
      rw [Sql.tokens] at ihl ihr ⊢
      rw [text, tokens_append (.inl rfl), ihl]
      show _ ++ Token.or :: (words [] right.text.toList).map Token.ofWord = _
      rw [ihr, tokens]
  | group inner ih =>
      have text : (group inner).text.toList = '(' :: (inner.text.toList ++ ')' :: []) := by
        simp [Condition.text]
      rw [Sql.tokens] at ih ⊢
      rw [text]
      show Token.opening :: (words [] (inner.text.toList ++ ')' :: [])).map Token.ofWord = _
      rw [tokens_append (.inr rfl), ih]
      rfl

/-- The disjunctions of a condition stand in its conjunctions only within groups. In a conjunction
there is none at all. -/
def Levelled : (conjoined : Bool) → Condition → Prop
  | conjoined, .either left right =>
    conjoined = false ∧ Levelled false left ∧ Levelled false right
  | _, .both left right => Levelled true left ∧ Levelled true right
  | _, .group inner => Levelled false inner
  | _, .equals _ _ | _, .glob _ _ | _, .always => True

/-- What a condition passes to its question marks. -/
def arguments (cond : Condition) : List Cell := cond.params.map .text

end Condition

namespace Sql

open Condition (Levelled)

variable {row : String → Option Cell} {columns : SearchColumn → String}

/-- Reading the tokens of a condition takes its values and nothing else, and tells the level whether
the condition holds. -/
def Tells (row : String → Option Cell) (cond : Condition) (before after : Level) : Prop :=
  ∀ outer more, cond.tokens.foldlM (Reader.read row) ⟨.test, before, outer, cond.arguments ++ more⟩ =
    some ⟨.joint, after, outer, more⟩

theorem tells_equals (named : ∀ c : SearchColumn, row c.name = some (.text (columns c)))
    (column : SearchColumn) (value : String) (before : Level) :
    Tells row (.equals column value) before
      (before.meet ((Condition.equals column value).holds columns)) := by
  intro outer more
  simp [Condition.tokens, Condition.arguments, Condition.params, Reader.read, Reader.operand?, named,
    Operator.test, Condition.holds]

theorem tells_glob (named : ∀ c : SearchColumn, row c.name = some (.text (columns c)))
    (column : SearchColumn) (pattern : String) (before : Level) :
    Tells row (.glob column pattern) before
      (before.meet ((Condition.glob column pattern).holds columns)) := by
  intro outer more
  simp [Condition.tokens, Condition.arguments, Condition.params, Reader.read, Reader.operand?, named,
    Operator.test, Condition.holds]

theorem tells_always (before : Level) : Tells row .always before (before.meet true) := by
  intro outer more
  simp [Condition.tokens, Condition.arguments, Condition.params, Reader.read, Reader.operand?,
    Operator.test]

theorem tells_both {left right : Condition} {before between after : Level}
    (first : Tells row left before between) (second : Tells row right between after) :
    Tells row (.both left right) before after := by
  intro outer more
  have taken : (Condition.both left right).arguments ++ more =
      left.arguments ++ (right.arguments ++ more) := by
    simp [Condition.arguments, Condition.params]
  rw [taken, Condition.tokens, List.foldlM_append, first]
  exact second outer more

theorem tells_either {left right : Condition} {before between after : Level}
    (first : Tells row left before between) (second : Tells row right between.turn after) :
    Tells row (.either left right) before after := by
  intro outer more
  have taken : (Condition.either left right).arguments ++ more =
      left.arguments ++ (right.arguments ++ more) := by
    simp [Condition.arguments, Condition.params]
  rw [taken, Condition.tokens, List.foldlM_append, first]
  exact second outer more

theorem tells_group {inner : Condition} {after : Level} (inside : Tells row inner .start after)
    (before : Level) : Tells row (.group inner) before (before.meet after.value) := by
  intro outer more
  have opened : (Condition.group inner).tokens = .opening :: (inner.tokens ++ [.closing]) := rfl
  rw [opened, List.foldlM_cons]
  show (inner.tokens ++ [Token.closing]).foldlM (Reader.read row)
    ⟨.test, .start, before :: outer, inner.arguments ++ more⟩ = _
  rw [List.foldlM_append, inside]
  rfl

/-- A levelled condition is read as it was meant: one that stands in a conjunction adds to it, and
one that stands at the start of a conjunction settles the level. -/
theorem reads_condition (named : ∀ c : SearchColumn, row c.name = some (.text (columns c)))
    (cond : Condition) :
    (cond.Levelled true → ∀ before, Tells row cond before (before.meet (cond.holds columns))) ∧
    (cond.Levelled false → ∀ held, ∃ after, Tells row cond ⟨held, true⟩ after ∧
      after.value = (held || cond.holds columns)) := by
  -- what adds to a conjunction settles the level it begins
  have settle : ∀ {cond : Condition},
      (∀ before, Tells row cond before (before.meet (cond.holds columns))) →
      ∀ held, ∃ after, Tells row cond ⟨held, true⟩ after ∧
        after.value = (held || cond.holds columns) :=
    fun adds held => ⟨_, adds ⟨held, true⟩, by simp [Level.meet, Level.value]⟩
  induction cond with
  | equals column value =>
      have adds := tells_equals named column value
      exact ⟨fun _ => adds, fun _ => settle adds⟩
  | glob column pattern =>
      have adds := tells_glob named column pattern
      exact ⟨fun _ => adds, fun _ => settle adds⟩
  | always =>
      have adds : ∀ before, Tells row .always before (before.meet (Condition.always.holds columns)) :=
        tells_always
      exact ⟨fun _ => adds, fun _ => settle adds⟩
  | both left right ihl ihr =>
      have adds : left.Levelled true ∧ right.Levelled true → ∀ before,
          Tells row (.both left right) before (before.meet ((Condition.both left right).holds columns)) := by
        intro levelled before
        have first := ihl.1 levelled.1 before
        have second := ihr.1 levelled.2 (before.meet (left.holds columns))
        rw [Level.meet_meet] at second
        exact tells_both first second
      exact ⟨adds, fun levelled => settle (adds levelled)⟩
  | either left right ihl ihr =>
      refine ⟨fun levelled => absurd levelled.1 (by decide), fun levelled held => ?_⟩
      obtain ⟨between, first, settled⟩ := ihl.2 levelled.2.1 held
      obtain ⟨after, second, value⟩ := ihr.2 levelled.2.2 between.value
      refine ⟨after, tells_either first second, ?_⟩
      rw [value, settled, Condition.holds, Bool.or_assoc]
  | group inner ih =>
      have adds : inner.Levelled false → ∀ before,
          Tells row (.group inner) before (before.meet ((Condition.group inner).holds columns)) := by
        intro levelled before
        obtain ⟨after, inside, value⟩ := ih.2 levelled false
        rw [Bool.false_or] at value
        have outside := tells_group inside before
        rw [value] at outside
        exact outside
      exact ⟨adds, fun levelled => settle (adds levelled)⟩

end Sql

/-! ## Pages -/

/-- The columns of a row by name. -/
def SearchRow.value? (r : SearchRow) (name : String) : Option Cell :=
  if name = "id" then some (.integer r.id)
  else if name = SearchColumn.recordType.name then some (.text r.recordType)
  else if name = SearchColumn.identifier.name then some (.text r.identifier)
  else if name = SearchColumn.classType.name then some (.text r.classType)
  else if name = "flags" then some r.flags
  else none

theorem SearchRow.value?_name (r : SearchRow) (column : SearchColumn) :
    r.value? column.name = some (.text (r.column column)) := by
  cases column <;> rfl

theorem Condition.tokens_clause (cond : Condition) :
    Sql.tokens cond.clause =
      (Condition.group cond).tokens ++ [.and, .column "id", .operator .greater, .mark] := by
  have text : cond.clause.toList =
      (Condition.group cond).text.toList ++ ' ' :: " AND id > ?".toList.tail := by
    simp [Condition.clause, Condition.text]
  rw [Sql.tokens, text, tokens_append (.inl rfl), ← tokens_text, Sql.tokens]
  congr 1

/-- The text of a page holds of the rows that the page is read from. -/
theorem Sql.holds?_clause {cond : Condition} (levelled : cond.Levelled false) (lastId : Nat)
    (r : SearchRow) :
    holds? cond.clause (cond.arguments ++ [.integer lastId]) r.value? =
      some (cond.holds r.column && decide (lastId < r.id)) := by
  have told := (reads_condition r.value?_name (.group cond)).1 levelled .start [] [.integer lastId]
  have cursor : [.and, .column "id", .operator .greater, .mark].foldlM (Reader.read r.value?)
      ⟨.joint, Level.start.meet (cond.holds r.column), [], [.integer lastId]⟩ =
      some ⟨.joint, (Level.start.meet (cond.holds r.column)).meet (decide (lastId < r.id)), [], []⟩ := by
    simp [Reader.read, Reader.operand?, SearchRow.value?, Operator.test]
  have whole : (Sql.tokens cond.clause).foldlM (Reader.read r.value?)
      ⟨.test, .start, [], cond.arguments ++ [.integer lastId]⟩ =
      some ⟨.joint, (Level.start.meet (cond.holds r.column)).meet (decide (lastId < r.id)), [], []⟩ := by
    rw [Condition.tokens_clause, List.foldlM_append, ← cursor]
    exact congrArg (· >>= _) told
  rw [holds?, whole]
  simp [Level.meet, Level.start, Level.value]

/-- A page is read from the rows that its text holds of. -/
theorem Scan.pageRows_clause {cond : Condition} (levelled : cond.Levelled false)
    (rows : List SearchRow) (lastId : Nat) :
    Scan.pageRows rows cond lastId =
      (rows.filter (fun r => holds? cond.clause (cond.arguments ++ [.integer lastId]) r.value? ==
        some true)).take pageSize := by
  have same : ∀ r : SearchRow, (cond.holds r.column && decide (lastId < r.id)) =
      (holds? cond.clause (cond.arguments ++ [.integer lastId]) r.value? == some true) := by
    intro r
    rw [holds?_clause levelled]
    cases cond.holds r.column && decide (lastId < r.id) <;> rfl
  rw [Scan.pageRows, List.filter_congr fun r _ => same r]

/-! ## Criteria -/

theorem Condition.Levelled.weaken {cond : Condition} (levelled : cond.Levelled true) :
    cond.Levelled false := by
  cases cond with
  | either left right => exact absurd levelled.1 (by decide)
  | both left right => exact levelled
  | group inner => exact levelled
  | equals column value => trivial
  | glob column pattern => trivial
  | always => trivial

/-- A conjunction of groups is levelled. -/
theorem Condition.levelled_all {conds : List Condition} (each : ∀ cond ∈ conds, cond.Levelled false) :
    (Condition.all conds).Levelled true := by
  have joined : ∀ (rest : List Condition) (acc : Condition), acc.Levelled true →
      (∀ cond ∈ rest, cond.Levelled false) →
      (rest.foldl (fun acc d => .both acc (.group d)) acc).Levelled true := by
    intro rest
    induction rest with
    | nil => exact fun acc levelled _ => levelled
    | cons d rest ih =>
        intro acc levelled each
        exact ih _ ⟨levelled, each d List.mem_cons_self⟩ fun cond inside =>
          each cond (List.mem_cons_of_mem d inside)
  cases conds with
  | nil => trivial
  | cons c rest =>
      exact joined rest (.group c) (each c List.mem_cons_self) fun cond inside =>
        each cond (List.mem_cons_of_mem c inside)

namespace Criteria

mutual

/-- The condition of a criteria is levelled. -/
theorem levelled : (c : Criteria) → {cond : Condition} → c.condition = .ok cond →
    cond.Levelled false
  | .exactShortName _, _, written => by
      rw [condition] at written
      obtain ⟨value, _, written⟩ := exists_of_bind_ok written
      obtain ⟨pattern, _, written⟩ := exists_of_bind_ok written
      cases written
      exact ⟨rfl, trivial, trivial⟩
  | .shortNameBeginsWith _, _, written | .fqnBeginsWith _, _, written => by
      rw [condition] at written
      obtain ⟨pattern, _, written⟩ := exists_of_bind_ok written
      cases written
      trivial
  | .isClass, _, written | .isFunction, _, written | .isConstant, _, written => by
      cases written
      trivial
  | .isClassType _, _, written => by
      cases written
      exact ⟨trivial, trivial⟩
  | .and parts, _, written => by
      rw [condition] at written
      obtain ⟨conds, written_parts, written⟩ := exists_of_bind_ok written
      cases written
      exact (Condition.levelled_all (all_levelled parts written_parts)).weaken

/-- The same of every part. -/
theorem all_levelled : (parts : List Criteria) → {conds : List Condition} →
    conditions parts = .ok conds → ∀ cond ∈ conds, cond.Levelled false
  | [], _, written => by
      cases written
      exact fun cond inside => absurd inside List.not_mem_nil
  | c :: rest, _, written => by
      rw [conditions] at written
      obtain ⟨first, written_first, written⟩ := exists_of_bind_ok written
      obtain ⟨others, written_others, written⟩ := exists_of_bind_ok written
      cases written
      intro cond inside
      rcases List.mem_cons.1 inside with rfl | inside
      · exact levelled c written_first
      · exact all_levelled rest written_others cond inside

end

/-- The text of a page of a criteria, with its values and the cursor, holds of the row of every
entry after the cursor that the criteria accepts. The one exception is an entry that is asked for by
its short name and has a NUL before it: a pattern sees a text to its first NUL. -/
theorem clause_reaches {c : Criteria} {cond : Condition} {e : SearchEntry} {row : SearchRow}
    {lastId : Nat} (written : c.condition = .ok cond) (accepted : c.accepts e = true)
    (shown : TableIndex.Shows row e) (later : lastId < row.id) :
    holds? cond.clause (cond.arguments ++ [.integer lastId]) row.value? = some true ∨
      (c.AsksShortName ∧ '\x00' ∈ namespacePart e.identifier) := by
  by_cases hidden : c.AsksShortName ∧ '\x00' ∈ namespacePart e.identifier
  · exact .inr hidden
  · left
    obtain ⟨cond', written', finds⟩ := condition_finds c (clean_of_condition c written)
    obtain rfl : cond' = cond := Except.ok.inj (written'.symm.trans written)
    have seen : Seen c.AsksShortName e := fun asked member => hidden ⟨asked, member⟩
    have holds := finds e seen accepted
    rw [holds?_clause (levelled c written), shown.column, holds, decide_eq_true later]
    rfl

/-! ## Poles -/

/-- A namespace, a short name that ends at a star, and a kind, each in its brackets. -/
theorem sample_clause_reaches :
    holds? "((identifier GLOB ?) AND (identifier = ? OR identifier GLOB ?) AND (record_type = ?)) AND id > ?"
        [.text "App[*]*", .text "Foo", .text "*\\Foo", .text "function", .integer 6]
        (SearchRow.value? ⟨7, "function", "App*\\Foo", "", .ofUInt32 0⟩) = some true := by
  have reached := @clause_reaches
    (.and [.fqnBeginsWith "App*", .exactShortName "Foo", .isFunction]) _
    ⟨.function, "App*\\Foo", none, 0⟩ ⟨7, "function", "App*\\Foo", "", .ofUInt32 0⟩ 6
    rfl (by decide) ⟨rfl, rfl, rfl, rfl⟩ (by decide)
  rcases reached with holds | ⟨_, member⟩
  · exact holds
  · exact absurd member (by decide)

/-- A function whose namespace has a NUL is asked for by its short name and accepted, and the text
of the page does not hold of its row. -/
theorem clause_stops_at_nul :
    ¬ ∀ (c : Criteria) (cond : Condition) (e : SearchEntry) (row : SearchRow) (lastId : Nat),
      c.condition = .ok cond → c.accepts e = true → TableIndex.Shows row e → lastId < row.id →
      holds? cond.clause (cond.arguments ++ [.integer lastId]) row.value? = some true := by
  intro reaches
  have lost := reaches (.exactShortName "Foo") _ ⟨.function, "A\x00\\Foo", none, 0⟩
    ⟨1, "function", "A\x00\\Foo", "", .ofUInt32 0⟩ 0 rfl (by decide) ⟨rfl, rfl, rfl, rfl⟩ (by decide)
  -- the pattern sees nothing but the first letter
  have unseen : globMatches ('*' :: escapeGlob ['\\', 'F', 'o', 'o']) "A\x00\\Foo".toList ≠ true := by
    rw [ne_eq, globMatches_suffix (by decide)]
    decide
  rw [holds?_clause (levelled (.exactShortName "Foo") rfl)] at lost
  have held := ((Bool.and_eq_true _ _).mp (Option.some.inj lost)).1
  rcases (Bool.or_eq_true _ _).mp held with equal | matched
  · exact absurd equal (by decide)
  · exact unseen matched

end Criteria

end SymbolIndex
