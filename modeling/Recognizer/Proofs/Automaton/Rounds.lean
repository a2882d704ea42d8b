import Recognizer.Automaton.Level
import Recognizer.Proofs.Automaton.Numbering
import Recognizer.Proofs.Automaton.Simulation

/-!
Tables of all automata. A table reads a word just when its automaton can run along
edges that the table lists. Trees make automata without any other edges, and so does
minimizing them, round after round and with any representatives.
-/

namespace Recognizer

namespace Automaton

/-- The automaton of a tree, or one that minimizing such an automaton yields. -/
inductive MadeFromTree : (level : Level) → Automaton level.State → Prop where
  | direct {tree : Tree} {construction : Construction}
      (built : Construction.ofTree tree = .ok construction) :
      MadeFromTree .positions construction.automaton
  | minimized {level : Level} {automaton : Automaton level.State}
      {smaller : Automaton level.blocks.State} (choice : Choice level.State)
      (made : MadeFromTree level automaton)
      (reduced : automaton.minimizeWith choice = .ok smaller) :
      MadeFromTree level.blocks smaller

theorem SelfContained.minimizeWith {σ : Type} [Ordered σ] {automaton : Automaton σ}
    (contained : automaton.SelfContained) (choice : Choice σ) :
    ∃ smaller, automaton.minimizeWith choice = .ok smaller ∧ smaller.SelfContained := by
  obtain ⟨smaller, reduced, merges⟩ :=
    minimizeWith_eq_ok automaton choice contained.start contained.uses
  exact ⟨smaller, reduced, merges.selfContained contained.uses⟩

theorem MadeFromTree.selfContained {level : Level} {automaton : Automaton level.State}
    (made : MadeFromTree level automaton) : automaton.SelfContained := by
  induction made with
  | direct built => exact (Construction.represents_of_ofTree built).selfContained
  | minimized choice _ reduced ih =>
      obtain ⟨smaller, found, contained⟩ := ih.minimizeWith choice
      cases reduced.symm.trans found
      exact contained

theorem exists_minimizeRounds {tree : Tree} {construction : Construction}
    (built : Construction.ofTree tree = .ok construction) (choice : (σ : Type) → Choice σ)
    (rounds : Nat) :
    ∃ smaller, construction.automaton.minimizeRounds choice rounds = .ok smaller ∧
      MadeFromTree (Level.after rounds) smaller := by
  induction rounds with
  | zero => exact ⟨construction.automaton, rfl, MadeFromTree.direct built⟩
  | succ rounds ih =>
      obtain ⟨earlier, found, made⟩ := ih
      obtain ⟨smaller, reduced, _⟩ := made.selfContained.minimizeWith (choice _)
      refine ⟨smaller, ?_, MadeFromTree.minimized (choice _) made reduced⟩
      rw [minimizeRounds, found]
      exact reduced

end Automaton

namespace Construction

/-- The minimal automaton and its table read the words that the automaton of the tree reads. -/
theorem exists_minimal {tree : Tree} {construction : Construction}
    (built : ofTree tree = .ok construction) :
    ∃ minimal, construction.automaton.minimize = .ok minimal ∧
      (∀ word, minimal.recognizes word = construction.automaton.recognizes word) ∧
      ∀ word, (Table.ofAutomaton minimal).recognizes word =
        construction.automaton.recognizes word := by
  have represents := represents_of_ofTree built
  obtain ⟨minimal, reduced, merges⟩ := Automaton.minimizeWith_eq_ok construction.automaton
    .first represents.start_mem represents.usesAlphabet
  have same := merges.recognizes_eq represents.closed
  have contained := merges.selfContained represents.usesAlphabet
  refine ⟨minimal, reduced, same, fun word => ?_⟩
  rw [Table.recognizes_ofAutomaton minimal contained.edgesListed, same]

end Construction

namespace Table

open Automaton

/-- A table accepts the words of the accepting listed runs. It agrees with an automaton
that has no other edges, as all those do that trees and rounds of minimizing make. -/
theorem recognizes_iff_listed_run :
    (∀ (σ : Type) [Ordered σ] (automaton : Automaton σ),
      (∀ word, (ofAutomaton automaton).recognizes word = true ↔
        ∃ final, automaton.ListedRun automaton.start word final ∧
          automaton.isAccepting final = true) ∧
      (automaton.EdgesListed → ∀ word,
        (ofAutomaton automaton).recognizes word = automaton.recognizes word)) ∧
    (∀ level automaton, MadeFromTree level automaton →
      automaton.EdgesListed ∧
      (∀ word, (ofAutomaton automaton).recognizes word = automaton.recognizes word) ∧
      ∀ choice, ∃ smaller, automaton.minimizeWith choice = .ok smaller) ∧
    ∀ tree construction, Construction.ofTree tree = .ok construction →
      ∀ choice rounds, ∃ smaller,
        construction.automaton.minimizeRounds choice rounds = .ok smaller ∧
          MadeFromTree (Level.after rounds) smaller := by
  refine ⟨fun σ _ automaton => ⟨?_, ?_⟩, fun level automaton made => ?_, ?_⟩
  · exact recognizes_ofAutomaton_iff automaton
  · exact recognizes_ofAutomaton automaton
  · have contained := made.selfContained
    refine ⟨contained.edgesListed, recognizes_ofAutomaton automaton contained.edgesListed, ?_⟩
    intro choice
    obtain ⟨smaller, reduced, _⟩ := contained.minimizeWith choice
    exact ⟨smaller, reduced⟩
  · exact fun tree construction built => exists_minimizeRounds built

/-- The start is no state. Edges lead to it, to something else that is no state, and on
with a symbol that is not in the alphabet. -/
def strayStart : Automaton Nat :=
  { states := {1}
    alphabet := FiniteSet.ofList ['a', 'b']
    start := 2
    accepts := FiniteSet.ofList [2, 7]
    rows := FiniteMap.tabulate
      (fun state => some (FiniteMap.tabulate
        (fun symbol => some (if state = 2 then 1 else if symbol = 'b' then 7 else 2))
        ['a', 'b', 'c']))
      [1, 2] }

theorem table_of_stray_start :
    (ofAutomaton strayStart).recognizes ['b', 'a'] = true ∧
      (ofAutomaton strayStart).recognizes ['a', 'b'] = false ∧
      strayStart.recognizes ['a', 'b'] = true ∧
      ∃ construction smaller,
        Construction.ofTree (.concat (.star (.leaf 'a' 1)) (.leaf endMarker 2)) =
          .ok construction ∧
        construction.automaton.minimizeRounds (fun _ => .last) 2 = .ok smaller ∧
        (ofAutomaton smaller).recognizes ['a', 'a'] = smaller.recognizes ['a', 'a'] := by
  obtain ⟨reads, _⟩ := recognizes_iff_listed_run.1 Nat strayStart
  refine ⟨(reads _).mpr ⟨2, ?_, by decide⟩, ?_, by decide, ?_⟩
  · have there : strayStart.next 2 'b' = some 1 := by decide
    have back : strayStart.next 1 'a' = some 2 := by decide
    apply ListedRun.move there (by decide) (Or.inl (by decide))
    apply ListedRun.move back (by decide) (Or.inr rfl)
    exact ListedRun.stop 2
  · rw [Bool.eq_false_iff, ne_eq, reads]
    rintro ⟨final, run, _⟩
    have there : strayStart.next 2 'a' = some 1 := by decide
    have astray : strayStart.next 1 'b' = some 7 := by decide
    rcases run with _ | ⟨moved, _, _, onward⟩
    cases there.symm.trans moved
    rcases onward with _ | ⟨moved, _, into, _⟩
    cases astray.symm.trans moved
    exact absurd into (by decide)
  · obtain ⟨construction, built⟩ : ∃ construction, Construction.ofTree
        (.concat (.star (.leaf 'a' 1)) (.leaf endMarker 2)) = .ok construction := ⟨_, rfl⟩
    obtain ⟨smaller, reduced, made⟩ :=
      recognizes_iff_listed_run.2.2 _ construction built (fun _ => .last) 2
    exact ⟨construction, smaller, built, reduced, (recognizes_iff_listed_run.2.1 _ _ made).2.1 _⟩

end Table

end Recognizer
