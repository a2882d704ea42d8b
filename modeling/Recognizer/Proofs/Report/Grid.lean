import Mathlib.Data.List.Nodup
import Mathlib.Data.String.Basic
import Recognizer.Proofs.Automaton.Numbering
import Recognizer.Report.TransitionGrid

/-!
Grids as text. Every row has a field for its title and one for every column. A field is a
mark and a text of the width of the grid, which no name is too long for, so it is found by
counting characters, whatever the symbols of the alphabet are.
-/

namespace Recognizer

namespace Layout

section Padding

variable {width : Nat} {text : String}

end Padding

/-- What is left of a text without its blanks. -/
def shown (text : List Char) : List Char := text.filter (· ≠ ' ')

/-- The piece of this index in a text cut into pieces of one size. -/
def pieceAt (size index : Nat) (text : List Char) : List Char :=
  (text.drop (index * size)).take size

end Layout

namespace Report

open Layout

/-- The fields of a row: a mark and the title, then a bar and a cell for every column. -/
def fields (columns : List Char) (width : Nat) (mark : Char) (title : String)
    (cell : Char → String) : List (List Char) :=
  (mark :: (alignLeft width title).toList) ::
    columns.map fun c => '|' :: (centre width (cell c)).toList

section Fields

variable {columns : List Char} {width : Nat} {mark : Char} {title : String} {cell : Char → String}

end Fields

end Report

namespace Automaton

open Layout Report

variable {σ : Type} [Ordered σ] (automaton : Automaton σ) (stem : String)

end Automaton

end Recognizer
