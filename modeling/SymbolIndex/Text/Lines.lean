/-!
# Text.Lines — lines and blank space

A line ends at a line feed; a carriage return before it belongs to the line break. Text after the
last line feed is a line only if there is some.
-/

namespace SymbolIndex.Text

/-- Characters with the White_Space property. -/
def isBlank (c : Char) : Bool :=
  let n := c.toNat
  (9 ≤ n && n ≤ 13) || n == 0x20 || n == 0x85 || n == 0xA0 || n == 0x1680 ||
    (0x2000 ≤ n && n ≤ 0x200A) || n == 0x2028 || n == 0x2029 || n == 0x202F || n == 0x205F ||
    n == 0x3000

/-- Drop blank characters at both ends. -/
def trimChars (cs : List Char) : List Char :=
  ((cs.dropWhile isBlank).reverse.dropWhile isBlank).reverse

/-- Drop blank characters at both ends. -/
def trim (s : String) : String :=
  String.ofList (trimChars s.toList)

/-- Split at a separator: always at least one piece, and the separators are gone. -/
def splitAt {α : Type} (isSeparator : α → Bool) : List α → List (List α)
  | [] => [[]]
  | a :: rest =>
    if isSeparator a then [] :: splitAt isSeparator rest
    else match splitAt isSeparator rest with
      | [] => [[a]]
      | piece :: pieces => (a :: piece) :: pieces

theorem splitAt_ne_nil {α : Type} (p : α → Bool) (l : List α) : splitAt p l ≠ [] := by
  cases l with
  | nil => simp [splitAt]
  | cons a rest =>
    rw [splitAt]
    split
    · simp
    · split <;> simp

/-- Drop one carriage return at the end. -/
def dropReturn (line : List Char) : List Char :=
  if line.getLast? = some '\r' then line.dropLast else line

/-- The lines of a text. A carriage return at the end of the text is part of a line break only
before a line feed. -/
def lines (s : String) : List String :=
  let pieces := splitAt (· == '\n') s.toList
  (pieces.dropLast.map (fun l => String.ofList (dropReturn l))) ++
    match pieces.getLast? with
    | none | some [] => []
    | some last => [String.ofList last]

end SymbolIndex.Text
