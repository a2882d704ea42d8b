import Recognizer.Automaton.Level
import Recognizer.Text.Layout

/-!
The transitions of an automaton as a grid with a row for every state and a column
for every symbol, and below it what the names of the states stand for.
-/

namespace Recognizer

namespace Report

open Layout

/-- Capital letters, small letters, `_`, digits, and the rest. -/
def columnGroup (c : Char) : Nat :=
  if c.isUpper then 0
  else if c.isLower then 1
  else if c = '_' then 2
  else if c.isDigit then 3
  else 4

def columnOrder (alphabet : FiniteSet Char) : List Char :=
  [0, 1, 2, 3, 4].flatMap fun group => alphabet.toList.filter fun c => columnGroup c = group

end Report

namespace Automaton

open Layout

variable {σ : Type} [Ordered σ]

/-- One more than the longest name, which is measured in bytes. -/
def gridWidth (automaton : Automaton σ) (stem : String) : Nat :=
  ((automaton.named stem).map fun entry => entry.2.utf8ByteSize).foldl max 0 + 1

def gridHeader (automaton : Automaton σ) (width : Nat) : String :=
  blanks (width + 1)
    ++ joined ((Report.columnOrder automaton.alphabet).map fun c =>
      "|" ++ centre width (String.ofList [c]))

def gridCell (automaton : Automaton σ) (stem : String) (state : σ) (symbol : Char) : String :=
  ((automaton.next state symbol).bind (automaton.name stem)).getD "-"

/-- Accepting states are marked in front of their names. -/
def gridRow (automaton : Automaton σ) (stem : String) (width : Nat) (entry : σ × String) :
    String :=
  (if automaton.isAccepting entry.1 then "*" else " ")
    ++ alignLeft width entry.2
    ++ joined ((Report.columnOrder automaton.alphabet).map fun c =>
      "|" ++ centre width (automaton.gridCell stem entry.1 c))

def grid (automaton : Automaton σ) (stem : String) : String :=
  let width := automaton.gridWidth stem
  lines (automaton.gridHeader width :: (automaton.named stem).map (automaton.gridRow stem width))

def legend [Labelled σ] (automaton : Automaton σ) (stem : String) : String :=
  lines ((automaton.named stem).map fun entry => entry.2 ++ " = " ++ label entry.1)

def transitionGrid [Labelled σ] (automaton : Automaton σ) (stem : String) : String :=
  automaton.grid stem ++ "\n" ++ automaton.legend stem

end Automaton

end Recognizer
