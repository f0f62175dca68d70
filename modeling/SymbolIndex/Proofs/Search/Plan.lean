import SymbolIndex.Proofs.Search.Condition
import SymbolIndex.Search.Scan

/-!
# Proofs.Search.Plan — what an engine delivers within its limits

A comparison that does not fail comes to what the condition says of the row (`Condition.eval_ok`), and
it does not fail if the patterns are short (`Condition.eval_short`). However the rows are found, the
condition that is left to compare asks of the rows that are visited what the whole condition asks of all
(`Condition.access_spec`). So a page that is read has the entries of the next rows that satisfy the
condition (`Scan.fetch_ok`). Within the limits each page is read as far as its rows are (`Scan.fetch_fits`),
and a statement that is not taken never delivers a row (`Scan.fetch_refused`).
-/

set_option autoImplicit false

namespace SymbolIndex

namespace Condition

variable {row : SearchColumn → String} {c : Condition}

/-! ## Comparing a row -/

/-- A comparison that does not fail is right. -/
theorem eval_ok {held : Bool} (compared : c.eval row = .ok held) : held = c.holds row := by
  induction c generalizing held with
  | equals column value => exact (Except.ok.inj compared).symm
  | glob column pattern =>
      rw [eval, glob?] at compared
      split at compared
      next matched short =>
        split at short
        · rw [holds, ← Except.ok.inj compared, Option.some.inj short]
        · cases short
      next => cases compared
  | always => exact (Except.ok.inj compared).symm
  | both left right ihl ihr =>
      rw [eval] at compared
      cases first : left.eval row with
      | error e => rw [first] at compared; cases compared
      | ok held' =>
          rw [first] at compared
          rw [holds, ← ihl first]
          cases held' with
          | true => exact ihr compared
          | false => exact (Except.ok.inj compared).symm
  | either left right ihl ihr =>
      rw [eval] at compared
      cases first : left.eval row with
      | error e => rw [first] at compared; cases compared
      | ok held' =>
          rw [first] at compared
          rw [holds, ← ihl first]
          cases held' with
          | true => exact (Except.ok.inj compared).symm
          | false => exact ihr compared
  | group inner ih => exact ih compared

/-- No pattern of a condition is too long. -/
def Short (c : Condition) : Prop := ∀ pattern ∈ c.patterns, byteLength pattern.toList ≤ patternLimit

/-- A condition with short patterns can be compared with every row. -/
theorem eval_short (short : c.Short) : c.eval row = .ok (c.holds row) := by
  induction c with
  | equals column value => rfl
  | glob column pattern =>
      have within : byteLength pattern.toList ≤ patternLimit := short pattern (List.mem_singleton_self pattern)
      rw [eval, glob?, if_pos within]
      rfl
  | always => rfl
  | both left right ihl ihr =>
      rw [eval, ihl fun p member => short p (List.mem_append_left _ member),
        ihr fun p member => short p (List.mem_append_right _ member), holds]
      cases left.holds row <;> rfl
  | either left right ihl ihr =>
      rw [eval, ihl fun p member => short p (List.mem_append_left _ member),
        ihr fun p member => short p (List.mem_append_right _ member), holds]
      cases left.holds row <;> rfl
  | group inner ih => exact ih short

/-! ## The depth of a conjunction -/

theorem depth_foldl_replicate (c acc : Condition) (deep : c.depth ≤ acc.depth) (n : Nat) :
    ((List.replicate n c).foldl (fun acc d => .both acc (.group d)) acc).depth = acc.depth + n := by
  induction n generalizing acc with
  | zero => rfl
  | succ n ih =>
      have grown : (Condition.both acc (.group c)).depth = acc.depth + 1 := congrArg (· + 1) (Nat.max_eq_left deep)
      rw [List.replicate_succ, List.foldl_cons, ih _ (by omega), grown]
      omega

/-- A conjunction is as deep as it has parts. -/
theorem depth_all_replicate (c : Condition) (n : Nat) : (all (List.replicate (n + 1) c)).depth = c.depth + n :=
  depth_foldl_replicate c (.group c) (Nat.le_refl _) n

/-! ## The parts of a condition -/

theorem all_parts : c.parts.all (·.holds row) = c.holds row := by
  induction c with
  | both left right ihl ihr => rw [parts, List.all_append, ihl, ihr]; rfl
  | group inner ih => exact ih
  | equals | glob | always | either => simp [parts]

theorem holds_joined (cs : List Condition) : (joined cs).holds row = cs.all (·.holds row) := by
  induction cs with
  | nil => rfl
  | cons c cs ih => exact congrArg (c.holds row && ·) ih

theorem patterns_of_part {part : Condition} (member : part ∈ c.parts) {pattern : String}
    (own : pattern ∈ part.patterns) : pattern ∈ c.patterns := by
  induction c with
  | both left right ihl ihr =>
      rcases List.mem_append.1 member with member | member
      · exact List.mem_append_left _ (ihl member)
      · exact List.mem_append_right _ (ihr member)
  | group inner ih => exact ih member
  | equals | glob | always | either =>
      obtain rfl := List.mem_singleton.1 member
      exact own

theorem Short.joined (short : c.Short) {cs : List Condition} (among : ∀ part ∈ cs, part ∈ c.parts) :
    (joined cs).Short := by
  intro pattern member
  induction cs with
  | nil => cases member
  | cons part cs ih =>
      rcases List.mem_append.1 member with own | later
      · exact short pattern (patterns_of_part (among part List.mem_cons_self) own)
      · exact ih (fun part' inside => among part' (List.mem_cons_of_mem part inside)) later

/-! ## How the rows are found -/

/-- An access finds the rows that satisfy a condition, and compares no longer patterns than it has. -/
def Reaches (c : Condition) : Access → Prop
  | .byId rest => (c.Short → rest.Short) ∧ ∀ row, rest.holds row = c.holds row
  | .byStart start rest => (c.Short → rest.Short) ∧
      ∀ row, (globMatches (start ++ ['*']) (row .identifier).toList && rest.holds row) = c.holds row

theorem mem_of_lookup? {part : Condition} {pattern : String} (found : part.lookup? = some pattern) :
    part = .glob .identifier pattern := by
  unfold lookup? at found
  split at found
  · split at found
    · cases found
    · rw [Option.some.inj found]
  · cases found

theorem mem_parts_of_lookup {cs : List Condition} {pattern : String} (member : pattern ∈ cs.filterMap lookup?) :
    .glob .identifier pattern ∈ cs := by
  obtain ⟨part, inside, found⟩ := List.mem_filterMap.1 member
  exact mem_of_lookup? found ▸ inside

theorem start_and_all {cs : List Condition} {pattern : String} (member : .glob .identifier pattern ∈ cs)
    (row : SearchColumn → String) :
    (globMatches (literalStart pattern.toList ++ ['*']) (row .identifier).toList && cs.all (·.holds row)) =
      cs.all (·.holds row) := by
  rw [Bool.and_eq_right_iff_imp]
  exact fun all => globMatches_literalStart (List.all_eq_true.1 all _ member)

theorem all_erase {cs : List Condition} {part : Condition} (member : part ∈ cs) (row : SearchColumn → String) :
    (part.holds row && ((cs.reverse.erase part).reverse).all (·.holds row)) = cs.all (·.holds row) := by
  have same := (List.perm_cons_erase (List.mem_reverse.2 member)).all_eq (f := fun d => d.holds row)
  rw [List.all_reverse, List.all_cons] at same
  rw [List.all_reverse, same]

theorem accessOf_spec (c : Condition) : c.Reaches (accessOf c.parts) := by
  unfold accessOf
  simp only
  have whole : ∀ row, (joined c.parts).holds row = c.holds row := fun row => by
    rw [holds_joined, all_parts]
  split
  next pattern chosen =>
    have member := mem_parts_of_lookup (List.mem_filter.1 (List.mem_of_getLast? chosen)).1
    refine ⟨fun short => short.joined fun _ inside => inside, fun row => ?_⟩
    rw [holds_joined, start_and_all member, all_parts]
  next absent =>
    split
    next pattern chosen =>
      have found := List.mem_of_getLast? chosen
      have member := mem_parts_of_lookup found
      have isStart : pattern.toList = literalStart pattern.toList ++ ['*'] := by
        have others := List.getLast?_eq_none_iff.1 absent
        have plain := List.filter_eq_nil_iff.1 others pattern found
        simpa [Condition.isStart] using plain
      refine ⟨fun short => short.joined fun _ inside => ?_, fun row => ?_⟩
      · exact List.mem_reverse.1 (List.mem_of_mem_erase (List.mem_reverse.1 inside))
      · rw [holds_joined, ← isStart, ← all_parts, ← all_erase member]
        rfl
    next => exact ⟨fun short => short.joined fun _ inside => inside, whole⟩

theorem access_spec (c : Condition) : c.Reaches c.access := by
  rw [access]
  split
  · refine ⟨fun short => short.joined fun part inside => ?_, fun row => ?_⟩
    · rcases List.mem_append.1 inside with kind | other
      · exact (List.mem_filter.1 kind).1
      · exact (List.mem_filter.1 other).1
    · rw [holds_joined, ← all_parts, (List.filter_append_perm isKind c.parts).all_eq]
  · exact accessOf_spec c

end Condition

namespace Criteria

/-- The criteria that asks for a function, again and again. -/
def functions (n : Nat) : Criteria := .and (List.replicate n .isFunction)

theorem condition_functions (n : Nat) :
    (functions n).condition = .ok (.all (List.replicate n (kindCondition .function))) := by
  have parts : conditions (List.replicate n .isFunction) = .ok (List.replicate n (kindCondition .function)) := by
    induction n with
    | zero => rfl
    | succ n ih =>
        rw [List.replicate_succ, conditions, ih]
        rfl
  rw [functions, condition, parts]
  rfl

/-- A criteria of 999 parts or more is too deep. -/
theorem functions_refused {n : Nat} (many : 999 ≤ n) : (functions n).isTaken = false := by
  obtain ⟨m, rfl⟩ : ∃ m, n = m + 1 := ⟨n - 1, by omega⟩
  have deep : ¬ 2 + m + 1 ≤ depthLimit := by
    rw [depthLimit]
    omega
  have depth : (Condition.all (List.replicate (m + 1) (kindCondition .function))).depth = 2 + m :=
    Condition.depth_all_replicate _ m
  rw [isTaken, condition_functions]
  simp only [Condition.isTaken, depth, decide_eq_false deep, Bool.false_and]

end Criteria

namespace Scan

variable {rows : List SearchRow} {condition : Condition} {id n : Nat}

/-! ## Reading a page -/

/-- What is delivered without an error are the first rows that satisfy the condition. -/
theorem deliver_ok (whole : (deliver condition n rows).2 = none) :
    (deliver condition n rows).1 = (rows.filter fun r => condition.holds r.column).take n := by
  induction rows generalizing n with
  | nil => cases n <;> rfl
  | cons r rows ih =>
      cases n with
      | zero => rw [List.take_zero]; rfl
      | succ n =>
          rw [deliver] at whole ⊢
          cases compared : condition.eval r.column with
          | error e => rw [compared] at whole; cases whole
          | ok held =>
              rw [compared] at whole
              rw [List.filter_cons, ← Condition.eval_ok compared]
              cases held with
              | false => exact ih whole
              | true =>
                  rw [if_pos rfl, List.take_succ_cons]
                  exact congrArg (r :: ·) (ih whole)

theorem deliver_short (short : condition.Short) : (deliver condition n rows).2 = none := by
  induction rows generalizing n with
  | nil => cases n <;> rfl
  | cons r rows ih =>
      cases n with
      | zero => rfl
      | succ n =>
          rw [deliver, Condition.eval_short short]
          cases condition.holds r.column with
          | false => exact ih
          | true => exact ih

/-- A page whose statement does not fail has the next rows that satisfy the condition. -/
theorem select_ok (whole : (select rows condition id).2 = none) :
    (select rows condition id).1 = pageRows rows condition id := by
  have reaches := condition.access_spec
  rw [select] at whole ⊢
  cases found : condition.access with
  | byId rest =>
      rw [found] at reaches whole
      simp only at whole ⊢
      rw [deliver_ok whole, List.filter_filter, pageRows]
      simp only [reaches.2, Bool.and_comm]
  | byStart start rest =>
      rw [found] at reaches whole
      simp only at whole ⊢
      generalize visits : rows.filter (fun r => globMatches (start ++ ['*']) r.identifier.toList) = visited at whole ⊢
      cases delivered : deliver rest visited.length visited with
      | mk rows' failure =>
          rw [delivered] at whole
          cases failure with
          | some e => cases whole
          | none =>
              have all : rows' = (visited.filter fun r => rest.holds r.column).take visited.length := by
                have chosen := @deliver_ok visited rest visited.length (by rw [delivered])
                rwa [delivered] at chosen
              rw [List.take_of_length_le (List.length_filter_le _ _)] at all
              simp only
              rw [all, ← visits, List.filter_filter, List.filter_filter, pageRows]
              refine congrArg (List.take pageSize) (List.filter_congr fun r _ => ?_)
              rw [← reaches.2 r.column, Bool.and_comm (decide (id < r.id)), Bool.and_right_comm,
                Bool.and_comm (rest.holds r.column)]
              rfl

theorem select_short (short : condition.Short) : (select rows condition id).2 = none := by
  have reaches := condition.access_spec
  rw [select]
  cases found : condition.access with
  | byId rest =>
      rw [found] at reaches
      exact deliver_short (reaches.1 short)
  | byStart start rest =>
      rw [found] at reaches
      simp only
      generalize rows.filter (fun r => globMatches (start ++ ['*']) r.identifier.toList) = visited
      have whole := @deliver_short visited rest visited.length (reaches.1 short)
      cases delivered : deliver rest visited.length visited with
      | mk rows' failure =>
          rw [delivered] at whole
          simp only at whole
          subst whole
          rfl

/-- A statement that is not taken delivers no row. -/
theorem fetch_refused (refused : condition.isTaken = false) : fetch rows condition id = .error .statement := by
  rw [fetch, refused]
  rfl

/-- A page that is read has the next rows that satisfy the condition. -/
theorem fetch_ok {page : List (Nat × SearchEntry)} (fetched : fetch rows condition id = .ok page) :
    readPage (pageRows rows condition id) = .ok page := by
  rw [fetch] at fetched
  split at fetched
  · split at fetched
    next found selected =>
      have whole := @select_ok rows condition id (by rw [selected])
      rw [selected] at whole
      exact whole ▸ fetched
    next found e _ => cases read : readPage found <;> (rw [read] at fetched; cases fetched)
  · cases fetched

/-- Within the limits of the engine a page is read as far as its rows are. -/
theorem fetch_fits (fits : condition.fits = true) (id : Nat) :
    fetch rows condition id = readPage (pageRows rows condition id) := by
  rw [Condition.fits, Bool.and_eq_true] at fits
  have short : condition.Short := fun pattern member => of_decide_eq_true (List.all_eq_true.1 fits.2 pattern member)
  have delivered := @select_short rows condition id short
  rw [fetch, if_pos fits.1, ← select_ok delivered]
  cases selected : select rows condition id with
  | mk found failure =>
      rw [selected] at delivered
      simp only at delivered
      subst delivered
      rfl

end Scan

end SymbolIndex
