import Mathlib.Data.List.DropRight
import SymbolIndex.Text.Lines

/-!
# Proofs.Text.Lines — lines piece by piece

The lines of a text that ends in a line feed and of what follows it are the lines of the one and of the
other (`lines_append`). A line that was trimmed is its own only line (`lines_trim`), and there is nothing
left to be trimmed (`trim_trim`).
-/

namespace SymbolIndex.Text

set_option autoImplicit false

theorem splitAt_append {α : Type} {p : α → Bool} {a : α} (parts : p a = true) (front back : List α) :
    splitAt p (front ++ a :: back) = splitAt p front ++ splitAt p back := by
  induction front with
  | nil => simp [splitAt, parts]
  | cons b front ih =>
      rw [List.cons_append, splitAt, ih, splitAt]
      by_cases stop : p b = true
      · rw [if_pos stop, if_pos stop, List.cons_append]
      · rw [if_neg stop, if_neg stop]
        cases pieces : splitAt p front with
        | nil => exact absurd pieces (splitAt_ne_nil p front)
        | cons piece rest => rfl

theorem splitAt_of_not_mem {α : Type} {p : α → Bool} {l : List α} (whole : ∀ a ∈ l, p a = false) :
    splitAt p l = [l] := by
  induction l with
  | nil => rfl
  | cons a l ih =>
      rw [splitAt, whole a (by simp), ih fun b member => whole b (by simp [member])]
      simp

theorem not_mem_splitAt {α : Type} {p : α → Bool} {l piece : List α} (member : piece ∈ splitAt p l) :
    ∀ a ∈ piece, p a = false := by
  induction l generalizing piece with
  | nil =>
      obtain rfl : piece = [] := by simpa [splitAt] using member
      intro a inside
      cases inside
  | cons b l ih =>
      rw [splitAt] at member
      by_cases stop : p b = true
      · rw [if_pos stop] at member
        rcases List.mem_cons.1 member with rfl | member
        · intro a inside
          cases inside
        · exact ih member
      · rw [if_neg stop] at member
        cases pieces : splitAt p l with
        | nil => exact absurd pieces (splitAt_ne_nil p l)
        | cons first rest =>
            rw [pieces] at member ih
            rcases List.mem_cons.1 member with rfl | member
            · intro a inside
              rcases List.mem_cons.1 inside with rfl | inside
              · simpa using stop
              · exact ih (by simp) a inside
            · exact ih (by simp [member])

/-- The lines of a text that ends in a line feed. -/
theorem lines_of_feed (front : List Char) :
    lines (String.ofList (front ++ ['\n'])) =
      (splitAt (· == '\n') front).map fun l => String.ofList (dropReturn l) := by
  rw [lines, String.toList_ofList, splitAt_append (by rfl)]
  simp [splitAt]

theorem lines_append (front : List Char) (t : String) :
    lines (String.ofList (front ++ ['\n']) ++ t) = lines (String.ofList (front ++ ['\n'])) ++ lines t := by
  have some_ := splitAt_ne_nil (· == '\n') t.toList
  have whole : (String.ofList (front ++ ['\n']) ++ t).toList = front ++ '\n' :: t.toList := by simp
  rw [lines_of_feed, lines, whole, splitAt_append (by rfl), List.dropLast_append_of_ne_nil some_,
    List.getLast?_append_of_ne_nil _ some_, List.map_append, List.append_assoc]
  rfl

theorem trimChars_trimChars (cs : List Char) : trimChars (trimChars cs) = trimChars cs := by
  let d := cs.dropWhile isBlank
  let r := d.reverse.dropWhile isBlank
  have back : r.dropWhile isBlank = r := List.dropWhile_idempotent _ _
  have kept : d.dropWhile isBlank = d := List.dropWhile_idempotent _ _
  have front : r.reverse.dropWhile isBlank = r.reverse := by
    rw [List.dropWhile_eq_self_iff]
    intro some_ blank
    have prefix_ : r.reverse <+: d := by
      rw [← List.reverse_reverse d, List.reverse_prefix]
      exact List.dropWhile_suffix _
    obtain ⟨rest, same⟩ := prefix_
    have nonempty : 0 < d.length := by
      rw [← same, List.length_append]
      omega
    have first : d[0] = r.reverse[0] := by
      simp only [← same]
      exact List.getElem_append_left some_
    exact List.dropWhile_eq_self_iff.1 kept nonempty (by rw [first]; exact blank)
  show ((r.reverse.dropWhile isBlank).reverse.dropWhile isBlank).reverse = r.reverse
  rw [front, List.reverse_reverse, back]

/-- Without blanks there is nothing to trim. -/
theorem trimChars_of_solid {cs : List Char} (solid : ∀ c ∈ cs, isBlank c = false) : trimChars cs = cs := by
  have none_ : ∀ l : List Char, (∀ c ∈ l, isBlank c = false) → l.dropWhile isBlank = l := by
    intro l solid
    cases l with
    | nil => rfl
    | cons c l => rw [List.dropWhile_cons_of_neg (by simp [solid c])]
  rw [trimChars, none_ cs solid, none_ cs.reverse fun c member => solid c (List.mem_reverse.1 member),
    List.reverse_reverse]

theorem trim_trim (s : String) : trim (trim s) = trim s := by
  rw [trim, trim, String.toList_ofList, trimChars_trimChars]

/-- What was trimmed does not end in a carriage return. -/
theorem dropReturn_trimChars (cs : List Char) : dropReturn (trimChars cs) = trimChars cs := by
  rw [dropReturn, if_neg]
  intro last
  rw [trimChars, List.getLast?_reverse] at last
  have blank := List.head?_dropWhile_not isBlank (cs.dropWhile isBlank).reverse
  rw [last] at blank
  exact absurd blank (by decide)

theorem mem_of_mem_trimChars {cs : List Char} {c : Char} (member : c ∈ trimChars cs) : c ∈ cs := by
  rw [trimChars, List.mem_reverse] at member
  have inner := (List.dropWhile_suffix _).mem member
  exact (List.dropWhile_suffix _).mem (List.mem_reverse.1 inner)

/-- A trimmed piece of a line is its own only line. -/
theorem lines_trim {line : List Char} (whole : '\n' ∉ line) :
    lines (String.ofList (trimChars line ++ ['\n'])) = [String.ofList (trimChars line)] := by
  have unbroken : ∀ c ∈ trimChars line, (c == '\n') = false := by
    intro c member
    rw [beq_eq_false_iff_ne]
    rintro rfl
    exact whole (mem_of_mem_trimChars member)
  rw [lines_of_feed, splitAt_of_not_mem unbroken, List.map_singleton, dropReturn_trimChars]

end SymbolIndex.Text
