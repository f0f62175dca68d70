import SymbolIndex.Proofs.Index.Pass

/-!
# Proofs.Index.Choice — which of its candidates a pass takes up

Of the paths that a pass is given it considers the first of each URI (`Candidate.firsts`), and takes up those
that it finds due, in order (`Holdings.due_chosen`). No URI comes twice (`Candidate.nodup_firsts`), and what
comes later in the list changes nothing about what comes first (`Candidate.firsts_append`).
-/

namespace SymbolIndex

open Action (outcome)

set_option autoImplicit false

namespace Candidate

/-- The candidates at some paths, the first of each URI that was not met before. -/
def firsts (seen : SortedSet String) : List Path → List Candidate
  | [] => []
  | path :: paths =>
    if seen.contains (ofPath path).uri then firsts seen paths
    else ofPath path :: firsts (seen.insert (ofPath path).uri) paths

theorem contains_iff {seen : SortedSet String} {uri : String} : seen.contains uri = true ↔ uri ∈ seen := by
  rw [SortedSet.contains, List.contains_iff_mem, SortedSet.mem_toList]

theorem mem_firsts {seen : SortedSet String} {paths : List Path} {c : Candidate}
    (member : c ∈ firsts seen paths) : c = ofPath c.path ∧ c.path ∈ paths ∧ c.uri ∉ seen := by
  induction paths generalizing seen with
  | nil => cases member
  | cons path paths ih =>
      rw [firsts] at member
      split at member
      · obtain ⟨own, there, new⟩ := ih member
        exact ⟨own, by simp [there], new⟩
      next unmet =>
        rcases List.mem_cons.1 member with rfl | member
        · exact ⟨rfl, by simp [ofPath], fun met => unmet (contains_iff.2 met)⟩
        · obtain ⟨own, there, new⟩ := ih member
          exact ⟨own, by simp [there], fun met => new (SortedSet.mem_insert.2 (.inr met))⟩

/-- No URI comes twice. -/
theorem nodup_firsts (seen : SortedSet String) (paths : List Path) : ((firsts seen paths).map (·.uri)).Nodup := by
  induction paths generalizing seen with
  | nil => exact List.nodup_nil
  | cons path paths ih =>
      rw [firsts]
      split
      · exact ih seen
      · refine List.nodup_cons.2 ⟨fun member => ?_, ih _⟩
        obtain ⟨c, there, same⟩ := List.mem_map.1 member
        exact (mem_firsts there).2.2 (SortedSet.mem_insert.2 (.inl same))

/-- Paths with different URIs are all considered. -/
theorem firsts_of_nodup {seen : SortedSet String} {paths : List Path}
    (distinct : (paths.map fun path => (ofPath path).uri).Nodup) (unmet : ∀ path ∈ paths, (ofPath path).uri ∉ seen) :
    firsts seen paths = paths.map ofPath := by
  induction paths generalizing seen with
  | nil => rfl
  | cons path paths ih =>
      rw [List.map_cons, List.nodup_cons] at distinct
      have new : ¬ seen.contains (ofPath path).uri = true := fun met => unmet path (by simp) (contains_iff.1 met)
      rw [firsts, if_neg new, List.map_cons, ih distinct.2]
      intro path' member met
      rcases SortedSet.mem_insert.1 met with same | met
      · exact distinct.1 (List.mem_map.2 ⟨path', member, same⟩)
      · exact unmet path' (by simp [member]) met

theorem firsts_append (seen : SortedSet String) (paths more : List Path) :
    ∃ rest, firsts seen (paths ++ more) = firsts seen paths ++ rest := by
  induction paths generalizing seen with
  | nil => exact ⟨_, rfl⟩
  | cons path paths ih =>
      rw [List.cons_append, firsts, firsts]
      split
      · exact ih seen
      · obtain ⟨rest, more⟩ := ih (seen.insert (ofPath path).uri)
        exact ⟨rest, by rw [more, List.cons_append]⟩

end Candidate

open Candidate (firsts)

namespace Holdings

variable {h : Holdings} {w : World} {force : Bool} {choice : Choice} {paths : List Path}

/-- What is to be done about a candidate. -/
def verdict (h : Holdings) (w : World) (force : Bool) (c : Candidate) : Verdict :=
  if force then .due else h.judged w c

theorem due_decide (choice : Choice) (c : Candidate) (v : Verdict) :
    (choice.decide c v).due = if v = .due then c :: choice.due else choice.due := by
  cases v <;> rfl

theorem seen_decide (choice : Choice) (c : Candidate) (v : Verdict) :
    (choice.decide c v).seen = choice.seen := by
  cases v <;> rfl

theorem errors_decide (choice : Choice) (c : Candidate) (v : Verdict) :
    (choice.decide c v).stats.errors = if v = .failed then choice.stats.errors + 1 else choice.stats.errors := by
  cases v <;> rfl

theorem indexed_decide (choice : Choice) (c : Candidate) (v : Verdict) :
    (choice.decide c v).stats.indexed = choice.stats.indexed := by
  cases v <;> rfl

/-- A pass takes up what it finds due among the first candidates of each URI. -/
theorem due_considered_eq (h : Holdings) (w : World) (force : Bool) (choice : Choice) (paths : List Path) :
    (paths.foldl (h.considered w force) choice).due =
      ((firsts choice.seen paths).filter fun c => h.verdict w force c = .due).reverse ++ choice.due := by
  induction paths generalizing choice with
  | nil => rfl
  | cons path paths ih =>
      rw [List.foldl_cons, ih, firsts, considered]
      by_cases met : choice.seen.contains (Candidate.ofPath path).uri = true
      · simp only [met, if_true]
        rfl
      · rw [show (if force then Verdict.due else h.judged w (.ofPath path)) =
          h.verdict w force (.ofPath path) from rfl]
        simp only [met, Bool.false_eq_true, if_false, seen_decide, due_decide]
        by_cases due : h.verdict w force (.ofPath path) = .due <;> simp [due]

/-- An error is a candidate that cannot be told. -/
theorem errors_considered (h : Holdings) (w : World) (force : Bool) (choice : Choice) (paths : List Path) :
    (paths.foldl (h.considered w force) choice).stats.errors = 0 ↔
      choice.stats.errors = 0 ∧ ∀ c ∈ firsts choice.seen paths, h.verdict w force c ≠ .failed := by
  induction paths generalizing choice with
  | nil => exact (and_iff_left nofun).symm
  | cons path paths ih =>
      rw [List.foldl_cons, ih, considered, firsts]
      by_cases met : choice.seen.contains (Candidate.ofPath path).uri = true
      · simp only [met, if_true]
        rfl
      · rw [show (if force then Verdict.due else h.judged w (.ofPath path)) =
          h.verdict w force (.ofPath path) from rfl]
        simp only [met, Bool.false_eq_true, if_false, seen_decide, errors_decide]
        by_cases failed : h.verdict w force (.ofPath path) = .failed <;> simp [failed]

theorem indexed_considered (h : Holdings) (w : World) (force : Bool) (choice : Choice) (paths : List Path) :
    (paths.foldl (h.considered w force) choice).stats.indexed = choice.stats.indexed := by
  induction paths generalizing choice with
  | nil => rfl
  | cons path paths ih =>
      rw [List.foldl_cons, ih, considered]
      split
      · rfl
      · exact indexed_decide _ _ _

theorem due_chosen (h : Holdings) (w : World) (force : Bool) (paths : List Path) :
    (h.chosen w force paths).due.reverse =
      (firsts .empty paths).filter fun c => h.verdict w force c = .due := by
  rw [chosen, due_considered_eq, List.append_nil, List.reverse_reverse]

/-- A forced pass takes up every URI once, whatever is stored. -/
theorem due_forced (h : Holdings) (w : World) (paths : List Path) :
    (h.chosen w true paths).due.reverse = firsts .empty paths := by
  rw [due_chosen]
  exact List.filter_eq_self.2 fun _ _ => rfl

end Holdings

namespace Site.Stands

variable {site : Site} {x : Indexer} {h : Holdings} {s : IndexState} {w : World} {choice : Choice}
  {paths : List Path}

/-- Candidates are considered without a change if the URIs of those that are there are in use. -/
theorem considerAll_used (stands : site.Stands h s w) (at_ : x.At site)
    (used : ∀ c ∈ firsts choice.seen paths, ∀ time, w.mtime c.path = .ok time → site.used c.uri) :
    outcome (paths.foldlM (x.consider false) choice) s w =
      (.ok (paths.foldl (h.considered w false) choice), s, w) := by
  induction paths generalizing choice with
  | nil => rfl
  | cons path paths ih =>
      rw [firsts] at used
      have first : outcome (x.consider false choice path) s w =
          (.ok (h.considered w false choice path), s, w) := by
        rw [Indexer.consider, Holdings.considered]
        by_cases met : choice.seen.contains (Candidate.ofPath path).uri = true
        · simp only [met, if_true]
          rfl
        · simp only [met, Bool.false_eq_true, if_false] at used ⊢
          exact Action.outcome_bind_ok (stands.judge_ok at_ (used (.ofPath path) (by simp)))
      rw [List.foldlM_cons, Action.outcome_bind_ok first, List.foldl_cons]
      refine ih fun c member => ?_
      rw [Holdings.considered] at member
      by_cases met : choice.seen.contains (Candidate.ofPath path).uri = true
      · simp only [met, if_true] at used member
        exact used c member
      · simp only [met, Bool.false_eq_true, if_false, Holdings.seen_decide] at used member
        exact used c (by simp [member])

end Site.Stands

end SymbolIndex
