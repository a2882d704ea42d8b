import Recognizer.Automaton.Level
import Recognizer.Text.Layout
import Recognizer.Tree.Follow

/-!
What is known of the nodes and positions of a tree, in tables.
-/

namespace Recognizer.Report

open Layout

def optional {α : Type} (text : α → String) : Option α → String
  | none => ""
  | some value => text value

/-- The first five columns are of fixed width, the sixth fits its widest entry
and the last is not padded. -/
def nodeLine (width : Nat) (id kind position symbol nullable first last : String) : String :=
  String.intercalate "|"
    [alignLeft 5 id, alignLeft 7 kind, alignLeft 4 position, alignLeft 4 symbol,
     alignLeft 9 nullable, alignLeft width first, last]

def nodeRow (width : Nat) (row : Tree.Attributes) : String :=
  nodeLine width (toString row.id) row.node.kind.text (optional toString row.position)
    (optional (fun c => String.ofList [c]) row.symbol) (truth row.nullable) (label row.first)
    (label row.last)

def nodeTable (tree : Tree) : String :=
  let rows := tree.attributes
  let width := (rows.map fun row => (label row.first).utf8ByteSize).foldl max 8
  lines (nodeLine width "Id" "Kind" "Pos" "Sym" "Nullable" "Firstpos" "Lastpos"
    :: rows.map (nodeRow width))

def rootSummary (tree : Tree) : String :=
  lines
    ["nullable(root) = " ++ truth tree.nullable,
     "firstpos(root) = " ++ label tree.first,
     "lastpos(root)  = " ++ label tree.last]

/-- A position without a leaf in the tree has no symbol. -/
def followerTable (tree : Tree) (followers : Followers) : String :=
  let symbols := tree.symbols
  lines ("Leaf\tSymbol\tFollow Pos"
    :: followers.toList.map fun entry =>
      String.intercalate "\t"
        [toString entry.1, optional (fun c => String.ofList [c]) symbols[entry.1]?,
         label entry.2])

end Recognizer.Report
