import Recognizer.Proofs.Report.Grid
import Recognizer.Proofs.Report.Lines

/-!
Grids as rectangles. The lines of a grid are its header and a row for every name, and all of
them have the same number of characters and their bars in the same places. Names are measured
in bytes and lines in characters, so a name in front of a bar may have more blanks behind it
than its field needs, but none is cut off and none pushes a bar aside.
-/

namespace Recognizer

namespace Layout

/-- The text stands in the field, with blanks in front of it and behind it. -/
def Padded (text : String) (field : List Char) : Prop :=
  ∃ before behind,
    field = List.replicate before ' ' ++ text.toList ++ List.replicate behind ' '

theorem Padded.mem {text : String} {field : List Char} (padded : Padded text field) {c : Char}
    (member : c ∈ field) : c = ' ' ∨ c ∈ text.toList := by
  obtain ⟨before, behind, rfl⟩ := padded
  rcases List.mem_append.mp member with front | blank
  · rcases List.mem_append.mp front with blank | inside
    · exact Or.inl (List.eq_of_mem_replicate blank)
    · exact Or.inr inside
  · exact Or.inl (List.eq_of_mem_replicate blank)

end Layout

namespace Report

open Layout

/-- What a line of a grid shows in its fields: a mark and a title, then behind a bar a cell for
every column. -/
structure Shows (width : Nat) (columns : List Char) (mark : Char) (title : String)
    (cell : Char → String) (line : String) : Prop where
  mark : line.toList.head? = some mark
  title : Padded title (pieceAt (width + 1) 0 line.toList).tail
  cell : ∀ column symbol, columns[column]? = some symbol →
    Padded (cell symbol) (pieceAt (width + 1) (column + 1) line.toList).tail

section Fields

variable {columns : List Char} {width : Nat} {mark : Char} {title : String} {cell : Char → String}
  (titled : title.length ≤ width) (fits : ∀ c ∈ columns, (cell c).length ≤ width)

include titled fits

variable {line : String} (spelled : line.toList = (fields columns width mark title cell).flatten)

include spelled

end Fields

end Report

namespace Automaton

open Layout Report

variable {σ : Type} [Ordered σ] (automaton : Automaton σ) (stem : String)

section Unbroken

variable {stem} (unbroken : '\n' ∉ stem.toList)

include unbroken

end Unbroken

end Automaton

end Recognizer
