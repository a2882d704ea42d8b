import Recognizer.Tree.Basic

/-!
What the positions of a tree can do in the words of its language: whether the
empty word is one, which positions can come first and last, and which can come
right after which. From these an automaton is built without a detour.
-/

namespace Recognizer

namespace Tree

def nullable : Tree → Bool
  | leaf _ _ => false
  | concat left right => left.nullable && right.nullable
  | union left right => left.nullable || right.nullable
  | star _ => true

def first : Tree → Positions
  | leaf _ position => {position}
  | concat left right => if left.nullable then left.first ∪ right.first else left.first
  | union left right => left.first ∪ right.first
  | star child => child.first

def last : Tree → Positions
  | leaf _ position => {position}
  | concat left right => if right.nullable then left.last ∪ right.last else right.last
  | union left right => left.last ∪ right.last
  | star child => child.last

end Tree

/-- For a position, the positions that can come right after it. -/
abbrev Followers := FiniteMap Nat Positions

namespace Followers

def fresh (tree : Tree) : Followers :=
  tree.leaves.foldl (fun table leaf => table.insert leaf.1 ∅) ∅

def link (table : Followers) (sources targets : Positions) : Followers :=
  sources.toList.foldl
    (fun table source => table.alter source fun known => some (known.getD ∅ ∪ targets)) table

/-- The pairs of a tree added to a table. Only a concatenation and a star make
pairs of their own, all others come from the nodes below. -/
def extend (table : Followers) : Tree → Followers
  | .leaf _ _ => table
  | .concat left right => ((table.link left.last right.first).extend left).extend right
  | .union left right => (table.extend left).extend right
  | .star child => (table.link child.last child.first).extend child

end Followers

namespace Tree

def followers (tree : Tree) : Followers :=
  (Followers.fresh tree).extend tree

structure Attributes where
  id : Nat
  node : Tree
  nullable : Bool
  first : Positions
  last : Positions

namespace Attributes

def position (attributes : Attributes) : Option Nat :=
  match attributes.node with
  | .leaf _ position => some position
  | _ => none

def symbol (attributes : Attributes) : Option Char :=
  match attributes.node with
  | .leaf symbol _ => some symbol
  | _ => none

end Attributes

/-- A row for every node, counted from 1. -/
def attributes (tree : Tree) : List Attributes :=
  tree.nodes.mapIdx fun index node =>
    { id := index + 1
      node
      nullable := node.nullable
      first := node.first
      last := node.last }

end Tree

end Recognizer
