import Recognizer.Automaton.Refinement
import Recognizer.Cause

/-!
Minimal automata. A state of the result is a block of states that behave alike;
its transitions are those of one member, its representative.
-/

namespace Recognizer

/-- Picks a member of a block, given as its least member and the others in order. -/
structure Choice (σ : Type) where
  pick : σ → List σ → σ
  member : ∀ least others, pick least others ∈ least :: others

namespace Choice

variable {σ : Type}

def first : Choice σ where
  pick least _ := least
  member _ _ := List.mem_cons_self

def last : Choice σ where
  pick least others := (least :: others).getLast (List.cons_ne_nil _ _)
  member _ _ := List.getLast_mem _

/-- The lower half is the smaller one. -/
def middle : Choice σ where
  pick least others :=
    (least :: others).get ⟨(least :: others).length / 2, by simp only [List.length_cons]; omega⟩
  member _ _ := List.get_mem _ _

end Choice

namespace Automaton

variable {σ : Type} [Ordered σ]

def blockOf (blocks : List (Block σ)) (state : σ) : Option (Block σ) :=
  blocks.find? fun block => block.contains state

/-- The moves of the representative. One that leads to no state is dropped. -/
def blockRow (automaton : Automaton σ) (choice : Choice σ) (blocks : List (Block σ))
    (block : Block σ) : Option (FiniteMap Char (Block σ)) :=
  match block.toList with
  | [] => none
  | least :: others =>
      match automaton.outgoing (choice.pick least others) with
      | none => none
      | some row =>
          let targets := row.filterMap fun _ target => blockOf blocks target
          if targets.isEmpty then none else some targets

def minimizeWith (automaton : Automaton σ) (choice : Choice σ) :
    Except Cause (Automaton (Block σ)) :=
  if automaton.states.isEmpty then .error .noStates
  else
    let blocks := automaton.finalPartition
    match blockOf blocks automaton.start with
    | none => .error .foreignStart
    | some start =>
        let states : FiniteSet (Block σ) := FiniteSet.ofList blocks
        .ok
          { states
            alphabet := automaton.alphabet
            start
            accepts := states.filter fun block => block.toList.any automaton.isAccepting
            rows := FiniteMap.tabulate (automaton.blockRow choice blocks) states.toList }

def minimize (automaton : Automaton σ) : Except Cause (Automaton (Block σ)) :=
  automaton.minimizeWith .first

end Automaton

end Recognizer
