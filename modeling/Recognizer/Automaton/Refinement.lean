import Recognizer.Automaton.Basic

/-!
Telling states apart. The states are split into accepting and rejecting ones, and
then round by round by the blocks that their transitions lead to, until a round
splits nothing.
-/

namespace Recognizer

abbrev Block (σ : Type) [Ordered σ] := FiniteSet σ

abbrev Partition (σ : Type) [Ordered σ] := List (Block σ)

namespace Partition

variable {σ : Type} [Ordered σ]

def blockIndex (partition : Partition σ) (state : σ) : Option Nat :=
  partition.findIdx? fun block => block.contains state

end Partition

namespace Automaton

variable {σ : Type} [Ordered σ]

/-- For every symbol of the alphabet the block behind the transition; none if it
is missing or leads to no state. -/
def behaviour (automaton : Automaton σ) (partition : Partition σ) (state : σ) :
    List (Option Nat) :=
  let row := automaton.outgoing state
  automaton.alphabet.toList.map fun symbol =>
    (row.bind fun targets => targets[symbol]?).bind partition.blockIndex

/-- The states of a block by their behaviour, the groups in the order of behaviours. -/
def split (automaton : Automaton σ) (partition : Partition σ) (block : Block σ) : Partition σ :=
  let tagged := block.toList.map fun state => (automaton.behaviour partition state, state)
  let behaviours : FiniteSet (List (Option Nat)) :=
    FiniteSet.ofList (tagged.map Prod.fst)
  behaviours.toList.map fun behaviour =>
    FiniteSet.ofList ((tagged.filter fun entry => entry.1 = behaviour).map Prod.snd)

def initialPartition (automaton : Automaton σ) : Partition σ :=
  [automaton.states.filter fun state => automaton.isAccepting state,
   automaton.states.filter fun state => !automaton.isAccepting state].filter
    fun block => !block.isEmpty

def refineOnce (automaton : Automaton σ) (partition : Partition σ) : Partition σ :=
  partition.flatMap (automaton.split partition)

def refine (automaton : Automaton σ) : Nat → Partition σ → Partition σ
  | 0, partition => partition
  | rounds + 1, partition =>
      let finer := automaton.refineOnce partition
      if finer.length = partition.length then partition
      else automaton.refine rounds finer

/-- Every round but the last makes a block more, and there are no more blocks than states. -/
def finalPartition (automaton : Automaton σ) : Partition σ :=
  automaton.refine automaton.states.size automaton.initialPartition

end Automaton

end Recognizer
