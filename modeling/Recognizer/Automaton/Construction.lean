import Recognizer.Automaton.Basic
import Recognizer.Tree.Follow

/-!
The automaton of a tree. A state is the set of positions that can be read next;
it accepts when the position of the end marker is among them.
-/

namespace Recognizer

structure Construction where
  automaton : Automaton Positions
  endPosition : Nat

namespace Construction

/-- What a state offers: the symbol of each of its positions, the end marker
left out, with the positions that follow. -/
def offers (symbols : FiniteMap Nat Char) (followers : Followers) (state : Positions) :
    List (Char × Positions) :=
  state.toList.filterMap fun position =>
    match symbols[position]? with
    | none => none
    | some symbol =>
        if symbol = endMarker then none else some (symbol, followers.getD position ∅)

/-- All that follows the positions of one symbol. -/
def target (offers : List (Char × Positions)) (symbol : Char) : Positions :=
  FiniteSet.unions ((offers.filter fun offer => offer.1 = symbol).map Prod.snd)

/-- The empty set is the dead state, for which no transition is kept. -/
def row (alphabet : FiniteSet Char) (offers : List (Char × Positions)) :
    FiniteMap Char Positions :=
  FiniteMap.tabulate
    (fun symbol =>
      let positions := target offers symbol
      if positions.isEmpty then none else some positions)
    alphabet.toList

/-- States found so far, and those of them whose row is still to be read. -/
structure Search where
  found : FiniteSet Positions
  pending : List Positions

namespace Search

def initial (start : Positions) : Search := ⟨{start}, [start]⟩

def enqueue (search : Search) (state : Positions) : Search :=
  if search.found.contains state then search
  else ⟨search.found.insert state, search.pending ++ [state]⟩

/-- The oldest pending state is read and its new targets queue up in symbol order. -/
def step (rowOf : Positions → FiniteMap Char Positions) (search : Search) : Search :=
  match search.pending with
  | [] => search
  | state :: rest =>
      ((rowOf state).toList.map Prod.snd).foldl enqueue { search with pending := rest }

def run (rowOf : Positions → FiniteMap Char Positions) : Nat → Search → Search
  | 0, search => search
  | bound + 1, search =>
      match search.pending with
      | [] => search
      | _ :: _ => run rowOf bound (search.step rowOf)

end Search

/-- No state is read twice, so the number of sets of positions bounds the search. -/
def reachable (positionCount : Nat) (rowOf : Positions → FiniteMap Char Positions)
    (start : Positions) : FiniteSet Positions :=
  ((Search.initial start).run rowOf (Nat.pow 2 positionCount)).found

def build (tree : Tree) (symbols : FiniteMap Nat Char) (endPosition : Nat) : Construction :=
  let followers := tree.followers
  let alphabet : FiniteSet Char :=
    FiniteSet.ofList ((symbols.toList.map Prod.snd).filter (· ≠ endMarker))
  let rowOf := fun state => row alphabet (offers symbols followers state)
  let states := reachable tree.leafCount rowOf tree.first
  { automaton :=
      { states
        alphabet
        start := tree.first
        accepts := states.filter fun state => state.contains endPosition
        rows :=
          FiniteMap.tabulate
            (fun state =>
              let targets := rowOf state
              if targets.isEmpty then none else some targets)
            states.toList }
    endPosition }

def ofTree (tree : Tree) : Except Cause Construction := do
  let symbols ← tree.checkedSymbols
  match (symbols.toList.filter fun entry => entry.2 = endMarker).map Prod.fst with
  | [] => .error .noEndMarker
  | [endPosition] => .ok (build tree symbols endPosition)
  | positions => .error (.severalEndMarkers positions.length)

end Construction

end Recognizer
