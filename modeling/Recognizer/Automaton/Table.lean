import Recognizer.Automaton.Basic
import Recognizer.Cause
import Recognizer.Text.Layout

/-!
Automata as flat tables. State 0 is the start; the row of a state has one entry
for every symbol of the alphabet, the rows stand one after the other.
-/

namespace Recognizer

structure Table where
  alphabet : List Char
  accepting : List Bool
  next : List (Option Nat)
  deriving DecidableEq, Repr

namespace Table

def ofAutomaton {σ : Type} [Ordered σ] (automaton : Automaton σ) : Table :=
  { alphabet := automaton.alphabet.toList
    accepting := automaton.numbering.map automaton.isAccepting
    next := automaton.numbering.flatMap fun state =>
      automaton.alphabet.toList.map fun symbol =>
        (automaton.next state symbol).bind automaton.number }

def ascending : List Char → Bool
  | earlier :: later :: rest => decide (earlier < later) && ascending (later :: rest)
  | _ => true

/-- The parts of a table, when they fit together. -/
def ofParts (alphabet : List Char) (accepting : List Bool) (next : List (Option Nat)) :
    Except Cause Table :=
  if accepting.isEmpty then .error .noStartState
  else if !ascending alphabet then .error .unsortedAlphabet
  else if next.length ≠ accepting.length * alphabet.length then
    .error (.wrongTransitionCount (accepting.length * alphabet.length) next.length)
  else if next.any fun target => target.any fun state => accepting.length ≤ state then
    .error .unknownTarget
  else .ok { alphabet, accepting, next }

def stateCount (table : Table) : Nat := table.accepting.length

def isAccepting (table : Table) (state : Nat) : Bool :=
  table.accepting[state]?.getD false

def target (table : Table) (state : Nat) (symbol : Char) : Option Nat :=
  match table.alphabet.idxOf? symbol with
  | none => none
  | some column => table.next[state * table.alphabet.length + column]?.join

def runFrom (table : Table) : Nat → List Char → Option Nat
  | state, [] => some state
  | state, symbol :: word => (table.target state symbol).bind fun after => table.runFrom after word

def recognizes (table : Table) (word : List Char) : Bool :=
  (table.runFrom 0 word).any table.isAccepting

/-- A list as source text, its items separated by commas with a blank on both sides. -/
def listing (items : List String) : String :=
  "vec ! [" ++ String.intercalate " , " items ++ "]"

def targetCode : Option Nat → String
  | none => "None"
  | some state => "Some (" ++ toString state ++ "u32)"

def code (table : Table) : String :=
  String.intercalate " , "
    [listing (table.alphabet.map Quoted.char), listing (table.accepting.map Layout.truth),
     listing (table.next.map targetCode)]

end Table

end Recognizer
