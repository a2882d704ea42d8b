import Recognizer.Automaton.Minimize
import Recognizer.Tree.Basic

/-!
The kinds of states that repeated minimization makes: sets of positions, blocks of
those, blocks of blocks. As text a set of positions stands in braces and a block in
brackets.
-/

namespace Recognizer

class Labelled (σ : Type) where
  label : σ → String

export Labelled (label)

def enclosed (opening closing : String) (items : List String) : String :=
  opening ++ String.intercalate ", " items ++ closing

instance : Labelled Positions where
  label positions := enclosed "\x7b" "\x7d" (positions.toList.map toString)

instance {σ : Type} [Ordered σ] [Labelled σ] : Labelled (FiniteSet σ) where
  label block := enclosed "[" "]" (block.toList.map label)

structure Level where
  State : Type
  ordered : Ordered State
  labelled : Labelled State

namespace Level

attribute [instance] Level.ordered Level.labelled

def positions : Level := ⟨Positions, inferInstance, inferInstance⟩

def blocks (level : Level) : Level := ⟨Block level.State, inferInstance, inferInstance⟩

def after : Nat → Level
  | 0 => positions
  | rounds + 1 => (after rounds).blocks

end Level

namespace Automaton

/-- Minimized again and again, with one way of choosing representatives in all rounds. -/
def minimizeRounds (choice : (σ : Type) → Choice σ) (automaton : Automaton Positions) :
    (rounds : Nat) → Except Cause (Automaton (Level.after rounds).State)
  | 0 => .ok automaton
  | rounds + 1 =>
      match automaton.minimizeRounds choice rounds with
      | .error cause => .error cause
      | .ok smaller => smaller.minimizeWith (choice (Level.after rounds).State)

end Automaton

end Recognizer
