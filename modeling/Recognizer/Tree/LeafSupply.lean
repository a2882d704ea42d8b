import Recognizer.CharacterClass.Basic
import Recognizer.Tree.Basic

/-!
Growing trees whose leaves are numbered from 1 in the order of their creation.
A call that fails hands the supply of positions back as it got it.
-/

namespace Recognizer

namespace Tree

/-- Neighbours are joined two by two, an odd one at the end is carried over. -/
def joinPairs : List Tree → List Tree
  | left :: right :: rest => union left right :: joinPairs rest
  | trees => trees

/-- Rounds of joining until one tree is left, for which as many rounds as trees are enough. -/
def joinRounds : Nat → List Tree → List Tree
  | 0, trees => trees
  | rounds + 1, trees =>
      match trees with
      | _ :: _ :: _ => joinRounds rounds (joinPairs trees)
      | _ => trees

def balancedUnion (trees : List Tree) : Except Cause Tree :=
  match joinRounds trees.length trees with
  | tree :: _ => .ok tree
  | [] => .error .emptyUnion

end Tree

structure LeafSupply where
  next : Nat
  deriving DecidableEq, Repr

namespace LeafSupply

def initial : LeafSupply := ⟨1⟩

def leaf (supply : LeafSupply) (symbol : Char) : Tree × LeafSupply :=
  (.leaf symbol supply.next, ⟨supply.next + 1⟩)

def endLeaf (supply : LeafSupply) : Tree × LeafSupply :=
  supply.leaf endMarker

def symbolLeaf (supply : LeafSupply) (c : Char) : Except Cause Tree × LeafSupply :=
  match Symbol.ofChar c with
  | .error cause => (.error cause, supply)
  | .ok symbol =>
      let (leaf, rest) := supply.leaf symbol.char
      (.ok leaf, rest)

def leavesFor (supply : LeafSupply) : List Symbol → List Tree × LeafSupply
  | [] => ([], supply)
  | symbol :: symbols =>
      let (leaf, rest) := supply.leaf symbol.char
      let (leaves, final) := rest.leavesFor symbols
      (leaf :: leaves, final)

/-- One leaf for every symbol, in their order. -/
def classTree (supply : LeafSupply) (cls : CharacterClass) : Except Cause Tree × LeafSupply :=
  let (leaves, rest) := supply.leavesFor cls.symbols
  (Tree.balancedUnion leaves, rest)

end LeafSupply

namespace Tree

/-- One symbol of the first class, any number of the second, and the end marker. -/
def identifier (first rest : CharacterClass) : Except Cause Tree := do
  let (head, supply) := LeafSupply.initial.classTree first
  let head ← head
  let (tail, supply) := supply.classTree rest
  let tail ← tail
  return concat (concat head (star tail)) supply.endLeaf.1

end Tree

end Recognizer
