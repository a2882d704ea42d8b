import Recognizer.Automaton.Run
import Recognizer.Pattern.Code
import Recognizer.Report.Drawing
import Recognizer.Report.TransitionGrid
import Recognizer.Report.TreeTables
import Recognizer.Text.Layout

/-!
Identifiers and whole reports. An identifier is one character of a first class and
any number of a second one; the classes are given as text, or they are letters and
`_`, and digits in addition. There are reports on a tree, on its automaton and the
minimal one, and on words. The states of the automaton have names with `S`, those of
the minimal one with `Q`. A run stands in one line: the word, the states it visits
with the symbols between them, and the verdict.
-/

namespace Recognizer

def identifierTree (first rest : String) : Except Failure Tree := do
  let head ← Failure.during ("invalid first character class " ++ Quoted.text first)
    (CharacterClass.ofText first)
  let tail ← Failure.during ("invalid rest character class " ++ Quoted.text rest)
    (CharacterClass.ofText rest)
  Failure.plain (Tree.identifier head tail)

def identifierPattern : Pattern.Definition :=
  { name := "JavaIdentifier"
    terms :=
      [⟨.bracketed [.range 'A' 'Z', .range 'a' 'z', .single '_'], false, .start⟩,
       ⟨.bracketed [.range 'A' 'Z', .range 'a' 'z', .single '_', .range '0' '9'], true, .start⟩]
    place := .start }

def identifierTable : Except Pattern.Fault Table := identifierPattern.table

def isIdentifier (word : String) : Bool :=
  identifierTable.toOption.any fun table => table.recognizes word.toList

namespace Automaton

open Layout

variable {σ : Type} [Ordered σ]

/-- A live state may be outside the states, then it has no name. -/
def visitText (automaton : Automaton σ) (stem : String) : Option σ → String
  | none => "dead"
  | some state => (automaton.name stem state).getD "?"

def moveTexts (automaton : Automaton σ) (stem : String) :
    List Char → List (Option σ) → List String
  | symbol :: symbols, visit :: visits =>
      (" -" ++ String.ofList [symbol] ++ "-> " ++ automaton.visitText stem visit)
        :: automaton.moveTexts stem symbols visits
  | _, _ => []

def runLine (automaton : Automaton σ) (stem : String) (word : String) (trace : Trace σ) :
    String :=
  Quoted.text word ++ ": "
    ++ joined ((trace.visits.take 1).map (automaton.visitText stem))
    ++ joined (automaton.moveTexts stem trace.symbols (trace.visits.drop 1))
    ++ " => " ++ verdict trace.accepted

def verdictLine (word : String) (accepted : Bool) : String :=
  Quoted.text word ++ ": " ++ verdict accepted

end Automaton

namespace Report

open Layout

def onTree (tree : Tree) (drawn : Bool) : String :=
  if drawn then tree.drawing
  else
    lines
      [tree.toText,
       "leaves: " ++ toString tree.leafCount ++ ", depth: " ++ toString tree.depth]

def onFunctions (tree : Tree) : String :=
  nodeTable tree ++ "\n" ++ rootSummary tree ++ "\n" ++ followerTable tree tree.followers

def onAutomaton (tree : Tree) (drawn : Bool) : Except Cause String := do
  let construction ← Construction.ofTree tree
  let automaton := construction.automaton
  if drawn then return automaton.drawing "S"
  else
    return lines ["states: " ++ toString automaton.states.size, ""]
      ++ automaton.transitionGrid "S"

def onMinimal (tree : Tree) (drawn : Bool) : Except Cause String := do
  let construction ← Construction.ofTree tree
  let minimal ← construction.automaton.minimize
  if drawn then return minimal.drawing "Q"
  else
    return lines
        ["states: " ++ toString construction.automaton.states.size ++ " -> "
          ++ toString minimal.states.size, ""]
      ++ minimal.transitionGrid "Q"

def wordLine {σ : Type} [Ordered σ] (automaton : Automaton σ) (stem : String) (traced : Bool)
    (word : String) : String :=
  let trace := automaton.trace word.toList
  if traced then automaton.runLine stem word trace
  else Automaton.verdictLine word trace.accepted

def onWords (tree : Tree) (words : List String) (minimized traced : Bool) :
    Except Cause String := do
  let construction ← Construction.ofTree tree
  if minimized then
    let minimal ← construction.automaton.minimize
    return lines (words.map (wordLine minimal "Q" traced))
  else
    return lines (words.map (wordLine construction.automaton "S" traced))

def onIdentifiers (words : List String) : String :=
  lines (words.map fun word => Automaton.verdictLine word (isIdentifier word))

end Report

end Recognizer
