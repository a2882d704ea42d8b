import Recognizer.Automaton.Basic

/-!
Reading a word. A missing transition ends a run for good; `none` stands for the
dead state behind it, which rejects everything.
-/

namespace Recognizer

namespace Automaton

variable {σ : Type} [Ordered σ]

/-- Gives up at the first missing transition. -/
def runFrom (automaton : Automaton σ) : σ → List Char → Option σ
  | state, [] => some state
  | state, symbol :: word =>
      match automaton.next state symbol with
      | none => none
      | some target => automaton.runFrom target word

def recognizes (automaton : Automaton σ) (word : List Char) : Bool :=
  match automaton.runFrom automaton.start word with
  | none => false
  | some state => automaton.isAccepting state

/-- The states after every symbol, the dead ones included. -/
def visitsFrom (automaton : Automaton σ) : Option σ → List Char → List (Option σ)
  | _, [] => []
  | visit, symbol :: word =>
      let after := visit.bind fun state => automaton.next state symbol
      after :: automaton.visitsFrom after word

end Automaton

structure Trace (σ : Type) where
  symbols : List Char
  visits : List (Option σ)
  accepted : Bool

namespace Trace

variable {σ : Type}

def last (trace : Trace σ) : Option σ :=
  trace.visits.getLast?.join

/-- The index of the symbol that ended the run. The first visit is never dead. -/
def deadAt (trace : Trace σ) : Option Nat :=
  (trace.visits.findIdx? Option.isNone).map (· - 1)

end Trace

namespace Automaton

variable {σ : Type} [Ordered σ]

def trace (automaton : Automaton σ) (word : List Char) : Trace σ :=
  let visits := some automaton.start :: automaton.visitsFrom (some automaton.start) word
  { symbols := word
    visits
    accepted := visits.getLast?.join.any automaton.isAccepting }

end Automaton

end Recognizer
