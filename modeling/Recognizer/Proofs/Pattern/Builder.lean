import Recognizer.Pattern.Code
import Recognizer.Proofs.Automaton.Listing
import Recognizer.Proofs.Pattern.Compilation

/-!
Builders that cannot fail. Whatever an automaton is like, the parts of its table pass every
check, and no number in them is too large. So the text that a definition is compiled to
puts its table together again, and nothing else can come of it.
-/

namespace Recognizer

namespace Pattern.Definition

/-- What comes of a builder's text when it is run: the parts in it, put together. An error
would be the end of the program. -/
def Builds (text : String) (outcome : Except Cause Table) : Prop :=
  ∃ code, text = "followpos_core :: automaton :: DfaTable :: from_raw (" ++ code
      ++ ") . expect (\"generated tables are always consistent\")" ∧
    Table.ofCode code = some outcome

theorem builds_iff {table : Table} (made : Table.ofCode table.code = some (.ok table))
    (outcome : Except Cause Table) :
    Builds (builderCode (.ok table)) outcome ↔ outcome = .ok table := by
  constructor
  · rintro ⟨code, text, found⟩
    -- What stands around the code is the same in every text.
    have same : table.code = code :=
      (String.append_right_inj _).mp ((String.append_left_inj _).mp text)
    rw [← same, made] at found
    exact (Option.some.inj found).symm
  · rintro rfl
    exact ⟨table.code, rfl, made⟩

theorem exists_automaton_of_table {definition : Definition} {table : Table}
    (compiled : definition.table = .ok table) :
    ∃ minimal : Automaton (Block Positions), table = Table.ofAutomaton minimal := by
  rcases definition.tree_error_or_table_ok with ⟨fault, failed, _⟩ |
    ⟨_, _, _, minimal, _, _, _, tabled, _⟩
  · rw [definition.table_of_tree_error failed] at compiled
    cases compiled
  · cases compiled.symm.trans tabled
    exact ⟨minimal, rfl⟩

end Pattern.Definition

namespace Table

open Pattern (Definition)

/-- Nothing is wrong with the parts of the table, and they make it again. -/
structure PassesCheck (table : Table) : Prop where
  fits : Fits table.alphabet table.accepting table.next
  narrow : table.Narrow
  accepted : ofParts table.alphabet table.accepting table.next = .ok table

/-- The parts of the table of any automaton are accepted, and so are those in the text of
a definition that has a table. -/
theorem parts_of_automata_pass_check :
    (∀ (σ : Type) [Ordered σ] (automaton : Automaton σ), automaton.states.size < UInt32.size →
      PassesCheck (ofAutomaton automaton)) ∧
    ∀ (definition : Definition) (table : Table), definition.table = .ok table →
      table.stateCount ≤ UInt32.size →
      PassesCheck table ∧ ∀ outcome,
        Definition.Builds (Definition.builderCode definition.table) outcome ↔
          outcome = .ok table := by
  constructor
  · intro σ _ automaton few
    exact ⟨fits_ofAutomaton automaton, narrow_ofAutomaton automaton few,
      ofParts_ofAutomaton automaton⟩
  · intro definition table compiled few
    obtain ⟨minimal, rfl⟩ := Definition.exists_automaton_of_table compiled
    have fits := fits_ofAutomaton minimal
    have narrow := narrow_of_fits fits few
    refine ⟨⟨fits, narrow, ofParts_ofAutomaton minimal⟩, fun outcome => ?_⟩
    rw [compiled]
    exact Definition.builds_iff (ofCode_of_fits narrow fits) outcome

/-- A start that is no state has a row of its own, and edges to no state have no number. -/
theorem stray_start_passes_check :
    ofParts ['a', 'b'] [true, false] [some 1, some 1, some 0, none] =
        .ok (ofAutomaton strayStart) ∧
      ∃ definition : Definition, definition.table =
          .ok ⟨['a', 'b'], [false, true], [some 0, some 1, some 0, some 1]⟩ ∧
        Definition.Builds (Definition.builderCode definition.table)
          (.ok ⟨['a', 'b'], [false, true], [some 0, some 1, some 0, some 1]⟩) := by
  obtain ⟨automata, definitions⟩ := parts_of_automata_pass_check
  refine ⟨(automata Nat strayStart (by decide)).accepted, ?_⟩
  have compiled : (Definition.mk "Tail" [⟨.bracketed [.range 'a' 'b'], true, ⟨1, 7⟩⟩,
      ⟨.literal 'b', false, ⟨1, 20⟩⟩] ⟨1, 0⟩).table =
        .ok ⟨['a', 'b'], [false, true], [some 0, some 1, some 0, some 1]⟩ := by decide +kernel
  exact ⟨_, compiled, ((definitions _ _ compiled (by decide)).2 _).mpr rfl⟩

end Table

end Recognizer
