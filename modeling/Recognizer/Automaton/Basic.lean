import Recognizer.Ordered

/-!
Deterministic automata with missing transitions, over any ordered type of
states. Nothing is checked: the start may be no state, an edge may leave the
states or carry a symbol outside the alphabet. States have numbers, the start
being 0, and short names: a stem and the number.
-/

namespace Recognizer

structure Automaton (σ : Type) [Ordered σ] where
  states : FiniteSet σ
  alphabet : FiniteSet Char
  start : σ
  accepts : FiniteSet σ
  rows : FiniteMap σ (FiniteMap Char σ)

namespace Automaton

variable {σ : Type} [Ordered σ]

def outgoing (automaton : Automaton σ) (state : σ) : Option (FiniteMap Char σ) :=
  automaton.rows[state]?

def next (automaton : Automaton σ) (state : σ) (symbol : Char) : Option σ :=
  (automaton.outgoing state).bind fun row => row[symbol]?

def isAccepting (automaton : Automaton σ) (state : σ) : Bool :=
  automaton.accepts.contains state

/-- Source, symbol and destination of the edges that leave a state. -/
def edges (automaton : Automaton σ) : List (σ × Char × σ) :=
  automaton.states.toList.flatMap fun source =>
    match automaton.outgoing source with
    | none => []
    | some row => row.toList.map fun entry => (source, entry.1, entry.2)

/-- The start first, whether it is a state or not, then the other states. -/
def numbering (automaton : Automaton σ) : List σ :=
  automaton.start :: (automaton.states.erase automaton.start).toList

def number (automaton : Automaton σ) (state : σ) : Option Nat :=
  automaton.numbering.findIdx? fun listed => compare listed state == .eq

def nameAt (stem : String) (number : Nat) : String := stem ++ toString number

def name (automaton : Automaton σ) (stem : String) (state : σ) : Option String :=
  (automaton.number state).map (nameAt stem)

def named (automaton : Automaton σ) (stem : String) : List (σ × String) :=
  automaton.numbering.mapIdx fun number state => (state, nameAt stem number)

end Automaton

end Recognizer
