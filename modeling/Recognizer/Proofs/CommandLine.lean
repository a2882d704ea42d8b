import Recognizer.CommandLine
import Recognizer.Proofs.Identifier

/-!
What a command can fail over. Only the two classes are in question: once they can be
read, neither of them is empty, their tree has an automaton and a minimal one, and every
report on it can be written.
-/

namespace Recognizer

namespace Report

variable {tree : Tree} {construction : Construction}
  (built : Construction.ofTree tree = .ok construction)

include built

theorem exists_onAutomaton (drawn : Bool) : ∃ text, onAutomaton tree drawn = .ok text := by
  rw [onAutomaton, built]
  cases drawn with
  | false => exact ⟨_, rfl⟩
  | true => exact ⟨_, rfl⟩

theorem exists_onMinimal (drawn : Bool) : ∃ text, onMinimal tree drawn = .ok text := by
  obtain ⟨minimal, reduced, _⟩ := Construction.exists_minimal built
  rw [onMinimal, built]
  simp only [bind, Except.bind, reduced]
  cases drawn with
  | false => exact ⟨_, rfl⟩
  | true => exact ⟨_, rfl⟩

theorem exists_onWords (words : List String) (minimized traced : Bool) :
    ∃ text, onWords tree words minimized traced = .ok text := by
  obtain ⟨minimal, reduced, _⟩ := Construction.exists_minimal built
  rw [onWords, built]
  cases minimized with
  | false => exact ⟨_, rfl⟩
  | true =>
      simp only [bind, Except.bind, if_true, reduced]
      exact ⟨_, rfl⟩

end Report

theorem identifierTree_of_first_error {first : String} {cause : Cause}
    (failed : CharacterClass.ofText first = .error cause) (rest : String) :
    identifierTree first rest =
      .error ⟨some ("invalid first character class " ++ Quoted.text first), cause⟩ := by
  rw [identifierTree, failed]
  rfl

theorem identifierTree_of_rest_error {first rest : String} {head : CharacterClass} {cause : Cause}
    (made : CharacterClass.ofText first = .ok head)
    (failed : CharacterClass.ofText rest = .error cause) :
    identifierTree first rest =
      .error ⟨some ("invalid rest character class " ++ Quoted.text rest), cause⟩ := by
  rw [identifierTree, made, failed]
  rfl

/-- Two classes that can be read have a tree, and its automaton can be built. -/
theorem exists_identifierTree {first rest : String} {head tail : CharacterClass}
    (headMade : CharacterClass.ofText first = .ok head)
    (tailMade : CharacterClass.ofText rest = .ok tail) :
    ∃ tree construction, identifierTree first rest = .ok tree ∧
      Construction.ofTree tree = .ok construction := by
  obtain ⟨body, position, grown, numbered, unmarked⟩ := Tree.exists_identifier
    (CharacterClass.symbols_ne_nil_of_ofText headMade)
    (CharacterClass.symbols_ne_nil_of_ofText tailMade)
  obtain ⟨construction, built⟩ := Construction.exists_of_closed numbered unmarked
  exact ⟨_, construction, identifierTree_eq_ok headMade tailMade grown, built⟩

theorem classes_of_identifierTree {first rest : String} {tree : Tree}
    (grown : identifierTree first rest = .ok tree) :
    ∃ head tail, CharacterClass.ofText first = .ok head ∧ CharacterClass.ofText rest = .ok tail := by
  cases headMade : CharacterClass.ofText first with
  | error cause =>
      rw [identifierTree_of_first_error headMade] at grown
      cases grown
  | ok head =>
      cases tailMade : CharacterClass.ofText rest with
      | error cause =>
          rw [identifierTree_of_rest_error headMade tailMade] at grown
          cases grown
      | ok tail => exact ⟨head, tail, rfl, rfl⟩

theorem exists_construction_of_identifierTree {first rest : String} {tree : Tree}
    (grown : identifierTree first rest = .ok tree) :
    ∃ construction, Construction.ofTree tree = .ok construction := by
  obtain ⟨head, tail, headMade, tailMade⟩ := classes_of_identifierTree grown
  obtain ⟨other, construction, same, built⟩ := exists_identifierTree headMade tailMade
  cases grown.symm.trans same
  exact ⟨construction, built⟩

namespace CommandLine

theorem Command.exists_report {tree : Tree} {construction : Construction}
    (built : Construction.ofTree tree = .ok construction) (command : Command) :
    ∃ text, command.report tree = .ok text := by
  cases command with
  | tree drawn => exact ⟨_, rfl⟩
  | functions => exact ⟨_, rfl⟩
  | automaton drawn => exact Report.exists_onAutomaton built drawn
  | minimal drawn => exact Report.exists_onMinimal built drawn
  | simulate words minimized traced => exact Report.exists_onWords built words minimized traced
  | check words => exact ⟨_, rfl⟩

theorem Invocation.exists_outcome {first rest : String} {tree : Tree}
    (grown : identifierTree first rest = .ok tree) (command : Command) :
    ∃ warning text, Invocation.outcome ⟨first, rest, command⟩ = .printed warning text := by
  obtain ⟨construction, built⟩ := exists_construction_of_identifierTree grown
  obtain ⟨text, reported⟩ := command.exists_report built
  cases command with
  | check words => exact ⟨_, _, rfl⟩
  | tree | functions | automaton | minimal | simulate =>
      refine ⟨"", text, ?_⟩
      rw [outcome]
      simp only [grown, reported, bind, Except.bind, Failure.plain]

end CommandLine

/-- Only the classes can stop a command: there is a tree just when both can be read, the
first one is blamed first, and no class that is read is empty. From a tree on nothing
fails, neither an automaton nor a report. -/
theorem only_classes_can_fail (first rest : String) :
    ((∃ tree, identifierTree first rest = .ok tree) ↔
      ∃ head tail, CharacterClass.ofText first = .ok head ∧
        CharacterClass.ofText rest = .ok tail) ∧
    (∀ cause, CharacterClass.ofText first = .error cause →
      identifierTree first rest =
        .error ⟨some ("invalid first character class " ++ Quoted.text first), cause⟩) ∧
    (∀ head cause, CharacterClass.ofText first = .ok head →
      CharacterClass.ofText rest = .error cause →
      identifierTree first rest =
        .error ⟨some ("invalid rest character class " ++ Quoted.text rest), cause⟩) ∧
    (∀ text cls, CharacterClass.ofText text = .ok cls → cls.symbols ≠ []) ∧
    ∀ tree, identifierTree first rest = .ok tree →
      (∃ construction minimal, Construction.ofTree tree = .ok construction ∧
        construction.automaton.minimize = .ok minimal) ∧
      (∀ drawn, ∃ text, Report.onAutomaton tree drawn = .ok text) ∧
      (∀ drawn, ∃ text, Report.onMinimal tree drawn = .ok text) ∧
      (∀ words minimized traced, ∃ text,
        Report.onWords tree words minimized traced = .ok text) ∧
      ∀ command, ∃ warning text,
        CommandLine.Invocation.outcome ⟨first, rest, command⟩ = .printed warning text := by
  refine ⟨⟨?_, ?_⟩, ?_, ?_, ?_, fun tree grown => ?_⟩
  · rintro ⟨tree, grown⟩
    exact classes_of_identifierTree grown
  · rintro ⟨head, tail, headMade, tailMade⟩
    obtain ⟨tree, _, grown, _⟩ := exists_identifierTree headMade tailMade
    exact ⟨tree, grown⟩
  · exact fun cause failed => identifierTree_of_first_error failed rest
  · exact fun head cause => identifierTree_of_rest_error
  · exact fun text cls => CharacterClass.symbols_ne_nil_of_ofText
  · obtain ⟨construction, built⟩ := exists_construction_of_identifierTree grown
    obtain ⟨minimal, reduced, _⟩ := Construction.exists_minimal built
    exact ⟨⟨construction, minimal, built, reduced⟩, Report.exists_onAutomaton built,
      Report.exists_onMinimal built, Report.exists_onWords built,
      CommandLine.Invocation.exists_outcome grown⟩

/-- Hyphens at an edge are literal. Of two broken classes the first is blamed. -/
theorem broken_classes_are_blamed_in_order :
    (∃ tree, identifierTree "-a" "0-9-" = .ok tree ∧
      ∃ text, Report.onWords tree ["a-7", "7"] true true = .ok text) ∧
    identifierTree "z-a" "" =
      .error ⟨some ("invalid first character class " ++ Quoted.text "z-a"),
        .reversedRange 'z' 'a'⟩ ∧
    identifierTree "a" "" =
      .error ⟨some ("invalid rest character class " ++ Quoted.text ""), .emptyClass⟩ ∧
    ∃ cls, CharacterClass.ofText "-a" = .ok cls ∧ cls.symbols ≠ [] := by
  obtain ⟨both, _, _, several, later⟩ := only_classes_can_fail "-a" "0-9-"
  obtain ⟨tree, grown⟩ := both.mpr ⟨_, _, rfl, rfl⟩
  have written := (later tree grown).2.2.2.1 ["a-7", "7"] true true
  exact ⟨⟨tree, grown, written⟩, (only_classes_can_fail "z-a" "").2.1 _ rfl,
    (only_classes_can_fail "a" "").2.2.1 _ _ rfl rfl, _, rfl, several "-a" _ rfl⟩

end Recognizer
