import Recognizer.Ordered
import Recognizer.Symbol

/-!
Syntax trees of regular expressions. Every leaf has a symbol and a position; the
construction of an automaton asks for the positions to be exactly `1..n`.
-/

namespace Recognizer

inductive Tree where
  | leaf (symbol : Char) (position : Nat)
  | concat (left right : Tree)
  | union (left right : Tree)
  | star (child : Tree)
  deriving DecidableEq, Repr

abbrev Positions := FiniteSet Nat

namespace Tree

inductive Kind where
  | leaf
  | concat
  | union
  | star
  deriving DecidableEq, Repr

def kind : Tree → Kind
  | leaf _ _ => .leaf
  | concat _ _ => .concat
  | union _ _ => .union
  | star _ => .star

def Kind.text : Kind → String
  | .leaf => "Leaf"
  | .concat => "Concat"
  | .union => "Union"
  | .star => "Star"

def isEndMarker : Tree → Bool
  | leaf symbol _ => symbol == endMarker
  | _ => false

def children : Tree → List Tree
  | leaf _ _ => []
  | concat left right => [left, right]
  | union left right => [left, right]
  | star child => [child]

/-- A node comes before the nodes below it, those on the left before those on the right. -/
def nodes : Tree → List Tree
  | leaf symbol position => [leaf symbol position]
  | concat left right => concat left right :: (left.nodes ++ right.nodes)
  | union left right => union left right :: (left.nodes ++ right.nodes)
  | star child => star child :: child.nodes

/-- Position and symbol of every leaf, from left to right. -/
def leaves : Tree → List (Nat × Char)
  | leaf symbol position => [(position, symbol)]
  | concat left right => left.leaves ++ right.leaves
  | union left right => left.leaves ++ right.leaves
  | star child => child.leaves

def leafCount (tree : Tree) : Nat := tree.leaves.length

def depth : Tree → Nat
  | leaf _ _ => 1
  | concat left right => 1 + max left.depth right.depth
  | union left right => 1 + max left.depth right.depth
  | star child => 1 + child.depth

/-- Of leaves with one position the last counts. -/
def symbols (tree : Tree) : FiniteMap Nat Char :=
  tree.leaves.foldl (fun found leaf => found.insert leaf.1 leaf.2) ∅

def record (found : FiniteMap Nat Char) (leaf : Nat × Char) :
    Except Cause (FiniteMap Nat Char) :=
  match found[leaf.1]? with
  | some earlier => .error (.sharedPosition leaf.1 earlier leaf.2)
  | none => .ok (found.insert leaf.1 leaf.2)

/-- The first number that breaks the count, with the number that was due. -/
def gap? : Nat → List Nat → Option (Nat × Nat)
  | _, [] => none
  | expected, found :: rest =>
      if found = expected then gap? (expected + 1) rest else some (found, expected)

/-- The symbols by position, provided that the positions are `1..n`, each once. -/
def checkedSymbols (tree : Tree) : Except Cause (FiniteMap Nat Char) := do
  let found ← tree.leaves.foldlM record ∅
  match gap? 1 found.keys with
  | some (position, expected) => .error (.sparsePosition position expected)
  | none => .ok found

/-- Usual regular expression text, with parentheses around every operator of two operands. -/
def toText : Tree → String
  | leaf symbol _ => String.ofList [symbol]
  | concat left right => "(" ++ left.toText ++ right.toText ++ ")"
  | union left right => "(" ++ left.toText ++ "|" ++ right.toText ++ ")"
  | star child => child.toText ++ "*"

end Tree

end Recognizer
