import Recognizer.Automaton.Level
import Recognizer.Text.Layout

/-!
Drawings of trees and automata as text for a graph layout tool: a frame, a line
for every node and a line for every arrow.
-/

namespace Recognizer

namespace Drawing

open Layout

def escapeChar (c : Char) : String :=
  if c = '"' then "\\\""
  else if c = '\\' then "\\\\"
  else if c = '\n' then "\\n"
  else String.ofList [c]

def escape (text : String) : String :=
  joined (text.toList.map escapeChar)

inductive Statement where
  | node (name caption shape : String)
  | arrow (source target : String)
  | labelledArrow (source target caption : String)
  deriving DecidableEq, Repr

def Statement.text : Statement → String
  | node name caption shape =>
      name ++ " [label = \"" ++ escape caption ++ "\" shape = " ++ shape ++ "];"
  | arrow source target => source ++ " -> " ++ target ++ ";"
  | labelledArrow source target caption =>
      source ++ " -> " ++ target ++ " [label = \"" ++ escape caption ++ "\"];"

def framed (opening : List String) (statements : List Statement) : String :=
  lines (opening ++ statements.map Statement.text ++ ["\x7d"])

def nodeName (id : Nat) : String := "n" ++ toString id

end Drawing

namespace Tree

open Drawing

def caption : Tree → String
  | leaf symbol position => String.ofList [symbol] ++ "\n" ++ toString position
  | concat _ _ => "."
  | union _ _ => "|"
  | star _ => "*"

def shape : Tree → String
  | leaf _ _ => "box"
  | _ => "ellipse"

def size : Tree → Nat
  | leaf _ _ => 1
  | concat left right => 1 + left.size + right.size
  | union left right => 1 + left.size + right.size
  | star child => 1 + child.size

def declaration (id : Nat) (tree : Tree) : Statement :=
  .node (nodeName id) tree.caption tree.shape

def link (source target : Nat) : Statement :=
  .arrow (nodeName source) (nodeName target)

/-- The nodes are numbered in the order of `nodes`, and the arrow to a node comes
after everything below that node. -/
def statements (id : Nat) : Tree → List Statement
  | leaf symbol position => [declaration id (leaf symbol position)]
  | concat left right =>
      declaration id (concat left right)
        :: (left.statements (id + 1) ++ link id (id + 1)
        :: (right.statements (id + 1 + left.size) ++ [link id (id + 1 + left.size)]))
  | union left right =>
      declaration id (union left right)
        :: (left.statements (id + 1) ++ link id (id + 1)
        :: (right.statements (id + 1 + left.size) ++ [link id (id + 1 + left.size)]))
  | star child =>
      declaration id (star child) :: (child.statements (id + 1) ++ [link id (id + 1)])

def drawing (tree : Tree) : String :=
  framed ["digraph tree \x7b", "node [fontname = \"Helvetica\" fontsize = 10];"]
    (tree.statements 0)

end Tree

namespace Automaton

open Drawing

variable {σ : Type} [Ordered σ]

def startName : String := "__start__"

def stateStatements [Labelled σ] (automaton : Automaton σ) (stem : String) : List Statement :=
  (automaton.named stem).map fun entry =>
    .node entry.2 (entry.2 ++ "\n" ++ label entry.1)
      (if automaton.isAccepting entry.1 then "doublecircle" else "circle")

/-- Edges to something without a name are left out. -/
def edgeStatements (automaton : Automaton σ) (stem : String) : List Statement :=
  automaton.edges.filterMap fun edge =>
    match automaton.name stem edge.1, automaton.name stem edge.2.2 with
    | some source, some target => some (.labelledArrow source target (String.ofList [edge.2.1]))
    | _, _ => none

def startStatements (automaton : Automaton σ) (stem : String) : List Statement :=
  ((automaton.name stem automaton.start).map (Statement.arrow startName)).toList

def drawing [Labelled σ] (automaton : Automaton σ) (stem : String) : String :=
  framed
    ["digraph automaton \x7b", "rankdir = LR;",
     "node [shape = circle fontname = \"Helvetica\" fontsize = 10];",
     startName ++ " [label = \"\" shape = none];"]
    (automaton.stateStatements stem ++ automaton.startStatements stem
      ++ automaton.edgeStatements stem)

end Automaton

end Recognizer
