import Mathlib.Data.List.Basic
import SymbolIndex.Proofs.Search.Plan

/-!
# Proofs.Search.Scan — a scan answers every row that the criteria accepts, once

A scan asks for its rows in pages and goes on after the last id it has seen, so what it has still to answer
can be read off at any moment: the rest of its page and, unless that was the last, what the pages after it come
to (`told`). When the ids ascend, the pages lie side by side. Within the limits of the engine the rows that satisfy
the condition are answered page by page as far as the criteria accepts them, up to the first page with a row that
cannot be read, which is answered with one error (`reported`).

* `Scan.due` — what is still to be answered;
* `Scan.next_due` — every call answers the first of what is due and leaves the rest due;
* `Scan.told_begins` — whatever fails, an error ends what is answered, and before it comes nothing but what
  would be answered otherwise;
* `Scan.answers_start` — within the limits, a scan of rows that can be read answers the entries of the rows that
  satisfy the condition and that the criteria accepts, in the order of the rows;
* `Scan.reads_to_the_end` — the answers of all calls, one after the other and without end, whether the rows
  can be read or not and whether the statement is taken or not;
* `Scan.deep_condition_refused` — a statement that is too deep finds no row.
-/

set_option autoImplicit false

namespace SymbolIndex

namespace Scan

/-- The ids of some rows ascend. -/
def Ascending (rows : List SearchRow) : Prop := rows.Pairwise (fun r s => r.id < s.id)

/-- The entries of some pairs that a criteria accepts. -/
def chosen (criteria : Criteria) (page : List (Nat × SearchEntry)) : List SearchEntry :=
  (page.map (·.2)).filter criteria.accepts

/-- The entries of some rows that a criteria accepts. A row that cannot be read has none. -/
def accepted (criteria : Criteria) (rows : List SearchRow) : List SearchEntry :=
  (rows.filterMap fun r => r.entry.toOption).filter criteria.accepts

/-- What is answered of some rows, a page at a time. -/
def reported (criteria : Criteria) (rows : List SearchRow) : List (Except DatabaseError SearchEntry) :=
  if rows = [] then []
  else
    match readPage (rows.take pageSize) with
    | .ok page => (chosen criteria page).map .ok ++ reported criteria (rows.drop pageSize)
    | .error e => [.error e]
termination_by rows.length
decreasing_by
  have some_ : 0 < rows.length := List.length_pos_iff.2 ‹_›
  rw [List.length_drop, pageSize]
  omega

/-- What the pages after an id come to. -/
def told (rows : List SearchRow) (condition : Condition) (criteria : Criteria) (id : Nat) :
    List (Except DatabaseError SearchEntry) :=
  match fetched : fetch rows condition id with
  | .error e => [.error e]
  | .ok page =>
    if some_ : page = [] then []
    else
      (chosen criteria page).map .ok ++
        if page.length < pageSize then [] else told rows condition criteria (endId id page)
termination_by rowsAfter rows id
decreasing_by exact rowsAfter_endId_lt fetched some_

/-- All of some things, or a beginning of them and then one error. -/
def AllOrFailed {α ε : Type} (all : List α) (answers : List (Except ε α)) : Prop :=
  answers = all.map .ok ∨ ∃ seen e, seen <+: all ∧ answers = seen.map .ok ++ [.error e]

section

variable {rows : List SearchRow} {condition : Condition} {criteria : Criteria} {id : Nat}

/-- The rows that satisfy a condition. -/
def candidates (rows : List SearchRow) (condition : Condition) : List SearchRow :=
  rows.filter fun r => condition.holds r.column

/-- The rows after an id that satisfy a condition. -/
def onward (rows : List SearchRow) (condition : Condition) (id : Nat) : List SearchRow :=
  rows.filter fun r => condition.holds r.column && decide (id < r.id)

/-- What a scan has still to answer. -/
def due (rows : List SearchRow) (s : Scan) : List (Except DatabaseError SearchEntry) :=
  (chosen s.criteria s.page).map .ok ++
    if s.exhausted then [] else told rows s.condition s.criteria (endId s.lastId s.page)

/-! ## Reading a page -/

theorem readPage_cons {r : SearchRow} : readPage (r :: rows) =
    r.entry.bind fun e => (readPage rows).map ((r.id, e) :: ·) := by
  rw [readPage, List.mapM_cons]
  cases r.entry with
  | error e => rfl
  | ok e => cases rest : readPage rows <;> (rw [readPage] at rest; simp only [rest]; rfl)

/-- A page of rows that can be read has the entries that the rows have. -/
theorem readPage_readable (readable : ∀ r ∈ rows, ∃ e, r.entry = .ok e) : ∃ page, readPage rows = .ok page := by
  induction rows with
  | nil => exact ⟨[], rfl⟩
  | cons r rows ih =>
      obtain ⟨e, here⟩ := readable r List.mem_cons_self
      obtain ⟨page, rest⟩ := ih fun r' member => readable r' (List.mem_cons_of_mem r member)
      exact ⟨(r.id, e) :: page, by rw [readPage_cons, here, rest]; rfl⟩

/-- A page cannot be read if one of its rows cannot, and the first such row says why. -/
theorem readPage_torn {front back : List SearchRow} {bad : SearchRow} {e : DatabaseError}
    (readable : ∀ r ∈ front, ∃ e, r.entry = .ok e) (torn : bad.entry = .error e) :
    readPage (front ++ bad :: back) = .error e := by
  induction front with
  | nil => rw [List.nil_append, readPage_cons, torn]; rfl
  | cons r front ih =>
      obtain ⟨e', here⟩ := readable r List.mem_cons_self
      have rest := ih fun r' member => readable r' (List.mem_cons_of_mem r member)
      rw [List.cons_append, readPage_cons, here, rest]
      rfl

theorem map_snd_of_readPage {page : List (Nat × SearchEntry)} (read : readPage rows = .ok page) :
    page.map (·.2) = rows.filterMap fun r => r.entry.toOption := by
  induction rows generalizing page with
  | nil =>
      obtain rfl : [] = page := Except.ok.inj read
      rfl
  | cons r rows ih =>
      rw [readPage_cons] at read
      cases here : r.entry with
      | error e => rw [here] at read; cases read
      | ok e =>
          cases rest : readPage rows with
          | error e' => rw [here, rest] at read; cases read
          | ok more =>
              rw [here, rest] at read
              obtain rfl : (r.id, e) :: more = page := Except.ok.inj read
              rw [List.map_cons, ih rest, List.filterMap_cons, here]
              rfl

theorem chosen_of_readPage {page : List (Nat × SearchEntry)} (read : readPage rows = .ok page) :
    chosen criteria page = accepted criteria rows := by
  rw [chosen, map_snd_of_readPage read, accepted]

theorem length_of_readPage {page : List (Nat × SearchEntry)} (read : readPage rows = .ok page) :
    page.length = rows.length := by
  have ids := congrArg List.length (map_id_of_readPage read)
  rwa [List.length_map, List.length_map] at ids

theorem pageRows_eq : pageRows rows condition id = (onward rows condition id).take pageSize := rfl

/-! ## Pages side by side -/

/-- In ascending rows, what is after the last row of a page is what the page left. -/
theorem after_last {front back : List SearchRow} {last : SearchRow}
    (ascending : Ascending (front ++ [last] ++ back)) :
    (front ++ [last] ++ back).filter (fun r => decide (last.id < r.id)) = back := by
  obtain ⟨inside, -, across⟩ := List.pairwise_append.1 ascending
  obtain ⟨-, -, before⟩ := List.pairwise_append.1 inside
  have passed : (front ++ [last]).filter (fun r => decide (last.id < r.id)) = [] := by
    rw [List.filter_eq_nil_iff]
    intro r member
    rw [decide_eq_true_eq]
    rcases List.mem_append.1 member with earlier | same
    · exact Nat.lt_asymm (before r earlier last (List.mem_singleton_self last))
    · rw [List.mem_singleton.1 same]
      exact Nat.lt_irrefl _
  have left_over : back.filter (fun r => decide (last.id < r.id)) = back := by
    rw [List.filter_eq_self]
    intro r member
    exact decide_eq_true (across last (List.mem_append_right front (List.mem_singleton_self last)) r
      member)
  rw [List.filter_append, passed, left_over, List.nil_append]

theorem onward_onward {id' : Nat} (later : id ≤ id') :
    (onward rows condition id).filter (fun r => decide (id' < r.id)) = onward rows condition id' := by
  unfold onward
  rw [List.filter_filter]
  congr 1
  funext r
  by_cases after : id' < r.id
  · simp [after, Nat.lt_of_le_of_lt later after]
  · simp [after]

theorem endId_of_ids {page : List (Nat × SearchEntry)} {front : List SearchRow} {last : SearchRow}
    (ids : page.map (·.1) = (front ++ [last]).map (·.id)) : endId id page = last.id := by
  have ends := congrArg List.getLast? ids
  rw [List.map_append, List.map_singleton, List.getLast?_concat, List.getLast?_map,
    Option.map_eq_some_iff] at ends
  obtain ⟨e, found, same⟩ := ends
  rw [endId, found]
  exact same

/-- After the last id of a page comes what the page left. -/
theorem onward_page (ascending : Ascending rows) {page : List (Nat × SearchEntry)}
    (fetched : readPage (pageRows rows condition id) = .ok page) (some_ : page ≠ []) :
    onward rows condition (endId id page) = (onward rows condition id).drop pageSize := by
  have ids := map_id_of_readPage fetched
  have rows_some : pageRows rows condition id ≠ [] := by
    intro empty
    rw [empty, List.map_nil, List.map_eq_nil_iff] at ids
    exact some_ ids
  obtain ⟨front, last, parts⟩ : ∃ front last, pageRows rows condition id = front ++ [last] :=
    ⟨_, _, (List.dropLast_concat_getLast rows_some).symm⟩
  have split : onward rows condition id = front ++ [last] ++ (onward rows condition id).drop pageSize := by
    rw [← parts, pageRows_eq, List.take_append_drop]
  have passed : id < last.id := by
    have member : last ∈ onward rows condition id := by
      rw [split]
      exact List.mem_append_left _ (List.mem_append_right _ (List.mem_singleton_self last))
    have holds := (List.mem_filter.1 member).2
    rw [Bool.and_eq_true, decide_eq_true_eq] at holds
    exact holds.2
  have ordered : Ascending (front ++ [last] ++ (onward rows condition id).drop pageSize) := by
    rw [← split]
    exact ascending.sublist List.filter_sublist
  have after := after_last ordered
  rw [← split, onward_onward (Nat.le_of_lt passed)] at after
  rw [endId_of_ids (parts ▸ ids), after]

theorem reported_nil : reported criteria [] = [] := by rw [reported, if_pos rfl]

theorem reported_ok {page : List (Nat × SearchEntry)} (some_ : rows ≠ [])
    (read : readPage (rows.take pageSize) = .ok page) :
    reported criteria rows = (chosen criteria page).map .ok ++ reported criteria (rows.drop pageSize) := by
  rw [reported, if_neg some_, read]

theorem reported_error {e : DatabaseError} (some_ : rows ≠ [])
    (torn : readPage (rows.take pageSize) = .error e) : reported criteria rows = [.error e] := by
  rw [reported, if_neg some_, torn]

/-! ## The next answer -/

theorem pass_none {lastId : Nat} {page : List (Nat × SearchEntry)}
    (passed : pass criteria lastId page = (id, none)) : chosen criteria page = [] := by
  induction page generalizing lastId with
  | nil => rfl
  | cons p page ih =>
      rw [pass] at passed
      by_cases accepted : criteria.accepts p.2 = true
      · rw [if_pos accepted] at passed
        exact absurd (congrArg Prod.snd passed) (by simp)
      · rw [if_neg accepted] at passed
        unfold chosen at ih ⊢
        rw [List.map_cons, List.filter_cons_of_neg accepted]
        exact ih passed

theorem pass_some {lastId : Nat} {page rest : List (Nat × SearchEntry)}
    {e : SearchEntry} (passed : pass criteria lastId page = (id, some (e, rest))) :
    chosen criteria page = e :: chosen criteria rest ∧ endId id rest = endId lastId page := by
  induction page generalizing lastId with
  | nil => exact absurd (congrArg Prod.snd passed) (by simp [pass])
  | cons p page ih =>
      rw [pass] at passed
      by_cases accepted : criteria.accepts p.2 = true
      · rw [if_pos accepted] at passed
        obtain ⟨rfl, rfl, rfl⟩ : p.1 = id ∧ p.2 = e ∧ page = rest := by simpa using passed
        refine ⟨?_, ?_⟩
        · unfold chosen
          rw [List.map_cons, List.filter_cons_of_pos accepted]
        · cases page <;> rfl
      · rw [if_neg accepted] at passed
        obtain ⟨same, ends⟩ := ih passed
        refine ⟨?_, ?_⟩
        · unfold chosen at same ⊢
          rw [List.map_cons, List.filter_cons_of_neg accepted]
          exact same
        · rw [ends]
          cases page <;> rfl

/-- A scan that has passed its last page has nothing to answer. -/
theorem due_exhausted (s : Scan) (done : s.page = []) (exhausted : s.exhausted = true) : due rows s = [] := by
  rw [due, done, if_pos exhausted]
  rfl

/-- What is due once a page is passed without an answer. -/
theorem due_passed {s : Scan} (passed : pass s.criteria s.lastId s.page = (id, none))
    (going : ¬ s.exhausted = true) : due rows s = told rows s.condition s.criteria id := by
  rw [due, pass_none passed, if_neg going, ← pass_eq_endId passed]
  rfl

theorem told_error {e : DatabaseError} (failed : fetch rows condition id = .error e) :
    told rows condition criteria id = [.error e] := by
  rw [told]
  split
  next e' failed' =>
    rw [failed] at failed'
    cases failed'
    rfl
  next page fetched =>
    rw [failed] at fetched
    cases fetched

theorem told_ok {page : List (Nat × SearchEntry)} (fetched : fetch rows condition id = .ok page) :
    told rows condition criteria id = if page = [] then [] else (chosen criteria page).map .ok ++
      if page.length < pageSize then [] else told rows condition criteria (endId id page) := by
  rw [told]
  split
  next e failed =>
    rw [fetched] at failed
    cases failed
  next page' fetched' =>
    rw [fetched] at fetched'
    cases fetched'
    rfl

/-- Every call answers the first of what is due, nothing if nothing is, and leaves the rest due. -/
theorem next_due (s : Scan) : (s.next rows).1 = (due rows s).head? ∧ due rows (s.next rows).2 = (due rows s).tail := by
  fun_induction next rows s with
  | case1 s id e rest passed =>
      obtain ⟨first, ends⟩ := pass_some passed
      have whole : due rows s = .ok e :: due rows { s with lastId := id, page := rest } := by
        unfold due
        rw [first, ends, List.map_cons, List.cons_append]
      rw [whole]
      exact ⟨rfl, rfl⟩
  | case2 s id passed exhausted =>
      have nothing : due rows s = [] := by
        rw [due, pass_none passed, if_pos exhausted]
        rfl
      rw [nothing]
      exact ⟨rfl, due_exhausted _ rfl exhausted⟩
  | case3 s id passed going cause failed =>
      rw [due_passed passed going, told_error failed]
      exact ⟨rfl, due_exhausted _ rfl rfl⟩
  | case4 s id passed going fetched =>
      rw [due_passed passed going, told_ok fetched, if_pos rfl]
      exact ⟨rfl, due_exhausted _ rfl rfl⟩
  | case5 s id passed going page fetched some_ ih =>
      have same : due rows s = due rows
          { s with lastId := id, page := page, exhausted := page.length < pageSize } := by
        rw [due_passed passed going, told_ok fetched, if_neg some_]
        simp only [due, decide_eq_true_eq]
      rw [same]
      exact ih

/-! ## What the pages come to -/

theorem accepted_append (front back : List SearchRow) :
    accepted criteria (front ++ back) = accepted criteria front ++ accepted criteria back := by
  rw [accepted, List.filterMap_append, List.filter_append]
  rfl

/-- A page with nothing in it is read when no row is left. -/
theorem onward_nil (fetched : fetch rows condition id = .ok []) : onward rows condition id = [] := by
  have no_rows : pageRows rows condition id = [] :=
    List.eq_nil_of_length_eq_zero (length_of_readPage (fetch_ok fetched)).symm
  rcases List.take_eq_nil_iff.1 no_rows with none_ | nothing
  · exact absurd none_ (by decide)
  · exact nothing

/-- A page that is not full leaves nothing. -/
theorem drop_onward {page : List (Nat × SearchEntry)} (fetched : fetch rows condition id = .ok page)
    (short : page.length < pageSize) : (onward rows condition id).drop pageSize = [] := by
  have taken := (length_of_readPage (fetch_ok fetched)).trans List.length_take
  rw [List.drop_eq_nil_iff]
  simp only [onward] at taken ⊢
  omega

theorem onward_ne_nil {page : List (Nat × SearchEntry)} (fetched : fetch rows condition id = .ok page)
    (some_ : page ≠ []) : onward rows condition id ≠ [] := by
  intro empty
  have length := length_of_readPage (fetch_ok fetched)
  rw [pageRows_eq, empty] at length
  exact some_ (List.eq_nil_of_length_eq_zero length)

/-- What the pages come to is all that the criteria accepts, or the beginning of it up to an error. -/
theorem told_begins (ascending : Ascending rows) (id : Nat) :
    AllOrFailed (accepted criteria (onward rows condition id)) (told rows condition criteria id) := by
  fun_induction told rows condition criteria id with
  | case1 id e failed => exact .inr ⟨[], e, List.nil_prefix, rfl⟩
  | case2 id fetched =>
      rw [onward_nil fetched]
      exact .inl rfl
  | case3 id page fetched some_ ih =>
      have parts : accepted criteria (onward rows condition id) =
          chosen criteria page ++ accepted criteria ((onward rows condition id).drop pageSize) := by
        rw [chosen_of_readPage (fetch_ok fetched), pageRows_eq, ← accepted_append, List.take_append_drop]
      by_cases short : page.length < pageSize
      · rw [parts, drop_onward fetched short, if_pos short]
        exact .inl (by rw [List.map_append]; rfl)
      · rw [parts, if_neg short, ← onward_page ascending (fetch_ok fetched) some_]
        rcases ih with all | ⟨seen, e, begins, failed⟩
        · exact .inl (by rw [all, List.map_append])
        · exact .inr ⟨chosen criteria page ++ seen, e, (List.prefix_append_right_inj _).2 begins,
            by rw [failed, List.map_append, List.append_assoc]⟩

/-- Within the limits of the engine the pages come to what is reported of the rows. -/
theorem told_fits (ascending : Ascending rows) (fits : condition.fits = true) (id : Nat) :
    told rows condition criteria id = reported criteria (onward rows condition id) := by
  fun_induction told rows condition criteria id with
  | case1 id e failed =>
      have torn : readPage ((onward rows condition id).take pageSize) = .error e := (fetch_fits fits id).symm.trans failed
      have some_ : onward rows condition id ≠ [] := by
        intro empty
        rw [empty] at torn
        cases torn
      exact (reported_error some_ torn).symm
  | case2 id fetched => rw [onward_nil fetched, reported_nil]
  | case3 id page fetched some_ ih =>
      rw [reported_ok (onward_ne_nil fetched some_) (fetch_ok fetched)]
      by_cases short : page.length < pageSize
      · rw [if_pos short, drop_onward fetched short, reported_nil]
      · rw [if_neg short, ih, onward_page ascending (fetch_ok fetched) some_]

/-! ## All answers -/

/-- The answer of a call, after as many calls before it. -/
def answer (rows : List SearchRow) (s : Scan) : Nat → Option (Except DatabaseError SearchEntry)
  | 0 => (s.next rows).1
  | n + 1 => answer rows (s.next rows).2 n

/-- The calls answer what is due, one after the other, and then nothing any more. -/
theorem answer_eq (s : Scan) (n : Nat) : s.answer rows n = (due rows s)[n]? := by
  induction n generalizing s with
  | zero => rw [answer, (next_due s).1, List.head?_eq_getElem?]
  | succ n ih => rw [answer, ih, (next_due s).2, List.getElem?_tail]

theorem collect_eq (s : Scan) (fuel : Nat) : s.collect rows fuel = (due rows s).take fuel := by
  induction fuel generalizing s with
  | zero => rfl
  | succ fuel ih =>
      obtain ⟨answer, s', called⟩ : ∃ answer s', s.next rows = (answer, s') := ⟨_, _, rfl⟩
      obtain ⟨first, rest⟩ : answer = (due rows s).head? ∧ due rows s' = (due rows s).tail := by
        have step := @next_due rows s
        rwa [called] at step
      rw [collect, called]
      cases whole : due rows s with
      | nil =>
          obtain rfl : answer = none := by rw [first, whole]; rfl
          rfl
      | cons a more =>
          obtain rfl : answer = some a := by rw [first, whole]; rfl
          rw [whole, List.tail_cons] at rest
          simp only
          rw [ih, rest, List.take_succ_cons]

namespace AllOrFailed

variable {α ε : Type} {all : List α} {answers : List (Except ε α)}

theorem length_le (answered : AllOrFailed all answers) : answers.length ≤ all.length + 1 := by
  rcases answered with rfl | ⟨seen, e, begins, rfl⟩
  · rw [List.length_map]
    exact Nat.le_succ _
  · rw [List.length_append, List.length_map, List.length_singleton]
    exact Nat.succ_le_succ begins.length_le

theorem failed (all : List α) (e : ε) : AllOrFailed all [.error e] := .inr ⟨[], e, List.nil_prefix, rfl⟩

theorem cons (a : α) (answered : AllOrFailed all answers) : AllOrFailed (a :: all) (.ok a :: answers) := by
  rcases answered with rfl | ⟨seen, e, begins, rfl⟩
  · exact .inl rfl
  · exact .inr ⟨a :: seen, e, List.cons_prefix_cons.2 ⟨rfl, begins⟩, rfl⟩

/-- Where there is no error, it is all. -/
theorem eq_all (answered : AllOrFailed all answers) (plain : ∀ e, .error e ∉ answers) : answers = all.map .ok := by
  refine answered.resolve_right ?_
  rintro ⟨seen, e, -, rfl⟩
  exact plain e (List.mem_append_right _ List.mem_cons_self)

end AllOrFailed

/-- All rows are after the id before the first. -/
theorem onward_start (positive : ∀ r ∈ rows, 0 < r.id) (condition : Condition) :
    onward rows condition 0 = candidates rows condition := by
  unfold onward candidates
  refine List.filter_congr fun r member => ?_
  rw [decide_eq_true (positive r member), Bool.and_true]

/-- All that a scan from the first row on answers. -/
theorem due_start (condition : Condition) (criteria : Criteria) :
    due rows (start condition criteria) = told rows condition criteria 0 := rfl

/-- The calls that are made are enough. -/
theorem answers_eq (ascending : Ascending rows) (condition : Condition) (criteria : Criteria) :
    (start condition criteria).answers rows = told rows condition criteria 0 := by
  rw [answers, collect_eq, due_start]
  refine List.take_of_length_le ?_
  have told_le := (@told_begins rows condition criteria ascending 0).length_le
  have accepted_le : (accepted criteria (onward rows condition 0)).length ≤ rows.length :=
    Nat.le_trans (List.length_filter_le _ _)
      (Nat.le_trans (List.length_filterMap_le _ _) (List.length_filter_le _ _))
  omega

/-! ## What is answered of the rows -/

/-- Rows that can be read are answered as far as the criteria accepts them. -/
theorem reported_readable (readable : ∀ r ∈ rows, ∃ e, r.entry = .ok e) :
    reported criteria rows = (accepted criteria rows).map .ok := by
  fun_induction reported criteria rows with
  | case1 => rfl
  | case2 rows some_ page read ih =>
      rw [ih fun r member => readable r (List.mem_of_mem_drop member), chosen_of_readPage read, ← List.map_append,
        ← accepted_append, List.take_append_drop]
  | case3 rows some_ e torn =>
      obtain ⟨page, read⟩ := readPage_readable fun r member => readable r (List.mem_of_mem_take member)
      rw [read] at torn
      cases torn

/-- The page with the first row that cannot be read is answered with an error, the pages before it as far as
the criteria accepts them. -/
theorem reported_torn {front back : List SearchRow} {bad : SearchRow} {e : DatabaseError}
    (readable : ∀ r ∈ front, ∃ e, r.entry = .ok e) (torn : bad.entry = .error e) :
    reported criteria (front ++ bad :: back) =
      (accepted criteria (front.take (front.length / pageSize * pageSize))).map .ok ++ [.error e] := by
  induction whole : front.length using Nat.strongRecOn generalizing front with
  | ind length ih =>
      subst whole
      have some_ : front ++ bad :: back ≠ [] := by simp
      by_cases inside : front.length < pageSize
      · have page : (front ++ bad :: back).take pageSize =
            front ++ bad :: back.take (pageSize - front.length - 1) := by
          obtain ⟨n, more⟩ : ∃ n, pageSize - front.length = n + 1 := ⟨pageSize - front.length - 1, by omega⟩
          rw [List.take_append, List.take_of_length_le (Nat.le_of_lt inside), more, List.take_succ_cons,
            Nat.add_sub_cancel]
        rw [reported_error some_ (page ▸ readPage_torn readable torn), Nat.div_eq_of_lt inside, Nat.zero_mul]
        rfl
      · have long : pageSize ≤ front.length := Nat.le_of_not_lt inside
        have page : (front ++ bad :: back).take pageSize = front.take pageSize := List.take_append_of_le_length long
        have rest : (front ++ bad :: back).drop pageSize = front.drop pageSize ++ bad :: back :=
          List.drop_append_of_le_length long
        obtain ⟨entries, read⟩ := readPage_readable fun r member => readable r (List.mem_of_mem_take member)
        obtain ⟨n, count⟩ : ∃ n, front.length = n + pageSize := ⟨front.length - pageSize, by omega⟩
        have left_over : (front.drop pageSize).length = n := by rw [List.length_drop]; omega
        have pages : front.length / pageSize * pageSize = pageSize + n / pageSize * pageSize := by
          rw [count, Nat.add_div_right n (by decide), Nat.succ_mul, Nat.add_comm]
        rw [reported_ok some_ (page ▸ read), chosen_of_readPage read, rest,
          ih n (by rw [count]; exact Nat.lt_add_of_pos_right (by decide))
            (fun r member => readable r (List.mem_of_mem_drop member)) left_over,
          ← List.append_assoc, ← List.map_append, ← accepted_append, pages, List.take_add]

theorem accepted_candidates {read : SearchRow → SearchEntry} (readable : ∀ r ∈ rows, r.entry = .ok (read r)) :
    accepted criteria (candidates rows condition) =
      ((rows.filter fun r => condition.holds r.column).map read).filter criteria.accepts := by
  have entries : ((candidates rows condition).filterMap fun r => r.entry.toOption) =
      (candidates rows condition).map read :=
    List.filterMap_eq_map_iff_forall_eq_some.2 fun r member => by
      rw [readable r (List.mem_filter.1 member).1]
      rfl
  rw [accepted, entries]
  rfl

/-- Whatever fails, a scan from the first row on answers nothing but such entries, up to an error. -/
theorem answers_begin {read : SearchRow → SearchEntry} (ascending : Ascending rows)
    (positive : ∀ r ∈ rows, 0 < r.id) (readable : ∀ r ∈ rows, r.entry = .ok (read r)) (condition : Condition)
    (criteria : Criteria) :
    AllOrFailed (((rows.filter fun r => condition.holds r.column).map read).filter criteria.accepts)
      ((start condition criteria).answers rows) := by
  rw [answers_eq ascending, ← accepted_candidates readable, ← onward_start positive]
  exact told_begins ascending 0

/-- A statement that is not taken is answered with an error. -/
theorem answers_refused (ascending : Ascending rows) (refused : condition.isTaken = false) (criteria : Criteria) :
    (start condition criteria).answers rows = [.error .statement] := by
  rw [answers_eq ascending, told_error (fetch_refused refused)]

/-- Within the limits, a scan from the first row on answers the entries of the rows that satisfy the condition
and that the criteria accepts. -/
theorem answers_start {read : SearchRow → SearchEntry} (ascending : Ascending rows)
    (positive : ∀ r ∈ rows, 0 < r.id) (readable : ∀ r ∈ rows, r.entry = .ok (read r))
    (fits : condition.fits = true) (criteria : Criteria) :
    (start condition criteria).answers rows =
      (((rows.filter fun r => condition.holds r.column).map read).filter criteria.accepts).map .ok := by
  rw [answers_eq ascending, told_fits ascending fits, onward_start positive,
    @reported_readable (candidates rows condition) criteria
      fun r member => ⟨_, readable r (List.mem_filter.1 member).1⟩, accepted_candidates readable]

/-- **A scan neither skips nor repeats a row, and ends.** Whatever rows a table has, in the order of their
ids, a scan from the first row on has a finite list of answers: they are what its calls answer, one after the
other, and every later call answers nothing. They are the entries of the rows that satisfy the condition and that
the criteria accepts, in the order of the rows, or a beginning of these and then one error. Within the limits of the
engine they are all of them if all rows that satisfy the condition can be read; otherwise they are the accepted
entries of the whole pages before the first row that cannot be read, and then one error. If the engine does not
take the statement, they are one error. -/
theorem reads_to_the_end (ascending : Ascending rows) (positive : ∀ r ∈ rows, 0 < r.id)
    (condition : Condition) (criteria : Criteria) :
    ∃ found : List (Except DatabaseError SearchEntry),
      (start condition criteria).answers rows = found ∧
      (∀ n, (start condition criteria).answer rows n = found[n]?) ∧
      AllOrFailed (accepted criteria (candidates rows condition)) found ∧
      (condition.isTaken = false → found = [.error .statement]) ∧
      (condition.fits = true →
        ((∀ r ∈ candidates rows condition, ∃ e, r.entry = .ok e) →
          found = (accepted criteria (candidates rows condition)).map .ok) ∧
        ∀ front bad back e, candidates rows condition = front ++ bad :: back →
          (∀ r ∈ front, ∃ e, r.entry = .ok e) → bad.entry = .error e →
            found = (accepted criteria (front.take (front.length / pageSize * pageSize))).map .ok ++ [.error e]) := by
  have begins := @told_begins rows condition criteria ascending 0
  rw [onward_start positive] at begins
  refine ⟨told rows condition criteria 0, answers_eq ascending condition criteria, fun n => ?_, begins,
    fun refused => told_error (fetch_refused refused), fun fits => ?_⟩
  · rw [answer_eq, due_start]
  · rw [told_fits ascending fits, onward_start positive]
    refine ⟨reported_readable, fun front bad back e parts readable torn => ?_⟩
    rw [parts]
    exact reported_torn readable torn

/-- The row of a function that is named by a number. -/
def functionRow (n : Nat) : SearchRow := ⟨3 * n + 1, "function", toString n, "", .integer 0⟩

/-- Its entry. -/
def functionEntry (n : Nat) : SearchEntry := ⟨.function, toString n, none, 0⟩

theorem entry_functionRow (n : Nat) : (functionRow n).entry = .ok (functionEntry n) := rfl

/-- Where the engine does not take the statement, no row is found. -/
theorem deep_condition_refused :
    ¬ ∀ (rows : List SearchRow) (criteria : Criteria) (condition : Condition), Ascending rows →
      (∀ r ∈ rows, 0 < r.id) → criteria.condition = .ok condition →
      (∀ r ∈ candidates rows condition, ∃ e, r.entry = .ok e) →
        (start condition criteria).answers rows = (accepted criteria (candidates rows condition)).map .ok := by
  intro found
  have written := Criteria.condition_functions 999
  have refused := Criteria.functions_refused (Nat.le_refl 999)
  rw [Criteria.isTaken, written] at refused
  have ascending : Ascending [functionRow 0] := List.pairwise_singleton _ _
  have readable : ∀ r ∈ [functionRow 0], ∃ e, r.entry = .ok e := fun r member =>
    ⟨functionEntry 0, List.mem_singleton.1 member ▸ entry_functionRow 0⟩
  have all := found [functionRow 0] (.functions 999) _ ascending (by decide) written fun r member =>
    readable r (List.mem_filter.1 member).1
  rw [answers_refused ascending refused] at all
  generalize accepted _ _ = entries at all
  cases entries with
  | nil => cases all
  | cons e entries => cases all

theorem accepted_functionRows (count : Nat) :
    accepted .isFunction ((List.range count).map functionRow) = (List.range count).map functionEntry := by
  have entries : ((List.range count).map functionRow).filterMap (fun r => r.entry.toOption) =
      (List.range count).map functionEntry := by
    rw [List.filterMap_map]
    exact List.filterMap_eq_map_iff_forall_eq_some.2 fun n _ => rfl
  rw [accepted, entries, List.filter_eq_self.2]
  intro e member
  obtain ⟨n, -, rfl⟩ := List.mem_map.1 member
  rfl

/-- A page of functions, then one more and a row of no known kind. -/
def sampleRows : List SearchRow :=
  (List.range 257).map functionRow ++ [⟨2000, "gadget", "h", "", .integer 0⟩]

/-- The page is answered to its end, then comes an error, and then nothing. -/
theorem sample_reads_to_the_end :
    (∀ n < 256, (start .always .isFunction).answer sampleRows n = some (.ok (functionEntry n))) ∧
      (start .always .isFunction).answer sampleRows 256 = some (.error (.corrupt (.recordType "gadget"))) ∧
      ∀ n, 256 < n → (start .always .isFunction).answer sampleRows n = none := by
  have ascending : Ascending sampleRows := by
    refine List.pairwise_append.2 ⟨?_, List.pairwise_singleton _ _, ?_⟩
    · refine List.pairwise_map.2 (List.pairwise_lt_range.imp fun less => ?_)
      simp only [functionRow]
      omega
    · intro r member r' member'
      obtain ⟨n, small, rfl⟩ := List.mem_map.1 member
      obtain rfl := List.mem_singleton.1 member'
      have small := List.mem_range.1 small
      simp only [functionRow]
      omega
  have positive : ∀ r ∈ sampleRows, 0 < r.id := by
    intro r member
    rcases List.mem_append.1 member with member | member
    · obtain ⟨n, -, rfl⟩ := List.mem_map.1 member
      exact Nat.succ_pos _
    · obtain rfl := List.mem_singleton.1 member
      decide
  have all : candidates sampleRows .always = sampleRows := List.filter_eq_self.2 fun _ _ => rfl
  have readable : ∀ r ∈ (List.range 257).map functionRow, ∃ e, r.entry = .ok e := by
    intro r member
    obtain ⟨n, -, rfl⟩ := List.mem_map.1 member
    exact ⟨_, entry_functionRow n⟩
  obtain ⟨found, -, calls, -, -, within⟩ := reads_to_the_end ascending positive .always .isFunction
  obtain ⟨-, torn⟩ := within (by decide +kernel)
  have whole := torn _ ⟨2000, "gadget", "h", "", .integer 0⟩ [] (.corrupt (.recordType "gadget")) all readable rfl
  have page : ((List.range 257).map functionRow).take 256 = (List.range 256).map functionRow := by
    rw [← List.map_take, List.take_range]
    rfl
  rw [List.length_map, List.length_range, show 257 / pageSize * pageSize = 256 from rfl, page,
    accepted_functionRows] at whole
  have length : ((List.range 256).map functionEntry).length = 256 := by rw [List.length_map, List.length_range]
  refine ⟨fun n small => ?_, ?_, fun n later => ?_⟩
  · rw [calls, whole, List.getElem?_append_left (by simpa using small), List.getElem?_map, List.getElem?_map,
      List.getElem?_range small]
    rfl
  · rw [calls, whole, List.getElem?_append_right (by simp), List.length_map, length]
    rfl
  · rw [calls, whole, List.getElem?_eq_none]
    simp only [List.length_append, List.length_map, List.length_range, List.length_singleton]
    omega

end

end Scan

end SymbolIndex
