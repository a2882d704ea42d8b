import Recognizer.Proofs.Automaton.Parts
import Recognizer.Proofs.Pattern.Compilation
import Recognizer.Report.Summary

/-!
Two ways to recognize identifiers. A pattern of two terms is compiled to a table; two
classes, which may be given as text, become a tree whose automaton is run, or the
minimal one. Both make one tree, so all matchers give the same verdicts.
-/

namespace Recognizer

namespace Pattern

/-- A class in brackets and one as text are the same when they have the same items. -/
theorem Term.exists_class_of_text (term : Term) (valid : term.Valid) (text : String)
    (spelled : term.body = .bracketed (CharacterClass.items text.toList)) :
    ∃ cls, CharacterClass.ofText text = .ok cls ∧ term.characters = .ok cls ∧
      cls.symbols ≠ [] := by
  obtain ⟨cls, made, several, _⟩ := term.exists_characters valid
  have some : CharacterClass.items text.toList ≠ [] := by
    obtain ⟨_, _, item, listed, _⟩ := valid
    rw [Term.items, spelled] at listed
    exact List.ne_nil_of_mem listed
  refine ⟨cls, ?_, made, several⟩
  rw [Term.characters, spelled] at made
  rw [CharacterClass.ofText_eq_ofItems some]
  exact Fault.located_eq_ok_iff.mp made

namespace Definition

/-- One character of the first class and any number of the second one. -/
def Spells (definition : Definition) (first rest : CharacterClass) : Prop :=
  ∃ head tail, definition.terms = [head, tail] ∧
    head.repeated = false ∧ head.characters = .ok first ∧
    tail.repeated = true ∧ tail.characters = .ok rest

theorem Spells.exists_tree {definition : Definition} {first rest : CharacterClass}
    (spells : definition.Spells first rest) (someFirst : first.symbols ≠ [])
    (someRest : rest.symbols ≠ []) :
    ∃ tree, Tree.identifier first rest = .ok tree ∧ definition.tree = .ok tree := by
  obtain ⟨head, tail, terms, once, headMade, again, tailMade⟩ := spells
  obtain ⟨headTree, headGrown, _⟩ := LeafSupply.initial.exists_classTree first someFirst
  obtain ⟨tailTree, tailGrown, _⟩ :=
    LeafSupply.exists_classTree ⟨LeafSupply.initial.next + first.symbols.length⟩ rest someRest
  have firstTerm := Term.tree_of_classTree headMade headGrown
  have restTerm := Term.tree_of_classTree tailMade tailGrown
  rw [once, if_neg Bool.false_ne_true] at firstTerm
  rw [again, if_pos rfl] at restTerm
  refine ⟨_, Tree.identifier_of_classTrees headGrown tailGrown, ?_⟩
  rw [tree, terms]
  simp only [body, firstTerm, restTerm, bind, Except.bind, Option.elim_none, Option.elim_some]
  rfl

end Definition

end Pattern

namespace Report

open Layout

/-- A line for every word with the verdict on it. -/
def verdicts (accepts : List Char → Bool) (words : List String) : String :=
  lines (words.map fun word => Automaton.verdictLine word (accepts word.toList))

theorem lines_wordLine {σ : Type} [Ordered σ] (automaton : Automaton σ) (stem : String)
    (words : List String) :
    lines (words.map (wordLine automaton stem false)) = verdicts automaton.recognizes words := by
  simp only [verdicts, ← Automaton.accepted_trace]
  rfl

/-- The minimal automaton is asked or the one of the tree, the text is the same. -/
theorem onWords_eq_verdicts {tree : Tree} {construction : Construction}
    (built : Construction.ofTree tree = .ok construction) (words : List String)
    (minimized : Bool) :
    onWords tree words minimized false =
      .ok (verdicts construction.automaton.recognizes words) := by
  obtain ⟨minimal, reduced, same, _⟩ := Construction.exists_minimal built
  have agree : minimal.recognizes = construction.automaton.recognizes := funext same
  rw [onWords, built]
  cases minimized with
  | false =>
      rw [← lines_wordLine construction.automaton "S"]
      rfl
  | true =>
      rw [← agree, ← lines_wordLine minimal "Q"]
      simp only [bind, Except.bind, if_true, reduced]
      rfl

theorem onIdentifiers_eq_verdicts {table : Table} (compiled : identifierTable = .ok table)
    (words : List String) : onIdentifiers words = verdicts table.recognizes words := by
  simp only [onIdentifiers, isIdentifier, compiled]
  rfl

end Report

theorem identifierTree_eq_ok {first rest : String} {head tail : CharacterClass} {tree : Tree}
    (headMade : CharacterClass.ofText first = .ok head)
    (tailMade : CharacterClass.ofText rest = .ok tail)
    (grown : Tree.identifier head tail = .ok tree) : identifierTree first rest = .ok tree := by
  rw [identifierTree, headMade, tailMade]
  simp only [Failure.during, bind, Except.bind, grown]
  rfl

/-- The terms of the pattern spell the classes that the texts stand for. -/
theorem spells_identifierPattern :
    ∃ first rest, CharacterClass.ofText "A-Za-z_" = .ok first ∧
      CharacterClass.ofText "A-Za-z_0-9" = .ok rest ∧ first.symbols ≠ [] ∧ rest.symbols ≠ [] ∧
      identifierPattern.Spells first rest := by
  let head : Pattern.Term :=
    ⟨.bracketed [.range 'A' 'Z', .range 'a' 'z', .single '_'], false, .start⟩
  let tail : Pattern.Term :=
    ⟨.bracketed [.range 'A' 'Z', .range 'a' 'z', .single '_', .range '0' '9'], true, .start⟩
  have letter : head.Holds 'A' ∧ tail.Holds 'A' := by
    constructor
    all_goals exact ⟨.range 'A' 'Z', List.mem_cons_self, by decide, by decide⟩
  obtain ⟨first, firstText, firstMade, someFirst⟩ :=
    head.exists_class_of_text ⟨by decide, 'A', letter.1⟩ "A-Za-z_" rfl
  obtain ⟨rest, restText, restMade, someRest⟩ :=
    tail.exists_class_of_text ⟨by decide, 'A', letter.2⟩ "A-Za-z_0-9" rfl
  exact ⟨first, rest, firstText, restText, someFirst, someRest, head, tail, rfl, rfl, firstMade,
    rfl, restMade⟩

/-- A pattern of a class and a repeated class becomes the tree of the two classes, and its
table is that of the minimal automaton. So the compiled identifier pattern gives the
verdicts of the automaton, and of the minimal one, that the classes as text lead to;
and for any tree it does not matter which of the two automata gives them. -/
theorem matchers_give_same_verdicts :
    (∀ (definition : Pattern.Definition) (first rest : CharacterClass),
      first.symbols ≠ [] → rest.symbols ≠ [] → definition.Spells first rest →
      ∃ tree construction minimal, Tree.identifier first rest = .ok tree ∧
        definition.tree = .ok tree ∧ Construction.ofTree tree = .ok construction ∧
        construction.automaton.minimize = .ok minimal ∧
        definition.table = .ok (Table.ofAutomaton minimal)) ∧
    (∃ tree table, identifierTree "A-Za-z_" "A-Za-z_0-9" = .ok tree ∧
      identifierTable = .ok table ∧
      Table.ofParts table.alphabet table.accepting table.next = .ok table ∧
      ∀ words minimized,
        Report.onWords tree words minimized false = .ok (Report.onIdentifiers words)) ∧
    ∀ tree construction, Construction.ofTree tree = .ok construction →
      ∀ words, ∃ text, Report.onWords tree words true false = .ok text ∧
        Report.onWords tree words false false = .ok text := by
  refine ⟨fun definition first rest someFirst someRest spells => ?_, ?_, ?_⟩
  · obtain ⟨tree, identified, grown⟩ := spells.exists_tree someFirst someRest
    obtain ⟨construction, minimal, known⟩ := Pattern.Definition.exists_table_of_tree _ grown
    exact ⟨tree, construction, minimal, identified, grown, known⟩
  · obtain ⟨first, rest, firstText, restText, someFirst, someRest, spells⟩ :=
      spells_identifierPattern
    obtain ⟨tree, identified, grown⟩ := spells.exists_tree someFirst someRest
    obtain ⟨construction, minimal, built, reduced, compiled⟩ :=
      Pattern.Definition.exists_table_of_tree _ grown
    obtain ⟨other, found, _, same⟩ := Construction.exists_minimal built
    cases reduced.symm.trans found
    refine ⟨tree, _, identifierTree_eq_ok firstText restText identified, compiled,
      Table.ofParts_ofAutomaton minimal, fun words minimized => ?_⟩
    rw [Report.onWords_eq_verdicts built, Report.onIdentifiers_eq_verdicts compiled, funext same]
  · intro tree construction built words
    exact ⟨_, Report.onWords_eq_verdicts built words true,
      Report.onWords_eq_verdicts built words false⟩

/-- The character `a`, then any number of `a` and `b`. -/
def startsWithLetter : Pattern.Definition :=
  { name := "Letters"
    terms := [⟨.literal 'a', false, ⟨1, 10⟩⟩, ⟨.bracketed [.range 'a' 'b'], true, ⟨1, 14⟩⟩]
    place := ⟨1, 0⟩ }

theorem verdicts_on_letters :
    let a : Symbol := ⟨'a', by decide, by decide⟩
    let b : Symbol := ⟨'b', by decide, by decide⟩
    ∃ tree table, Tree.identifier ⟨[a], by decide⟩ ⟨[a, b], by decide⟩ = .ok tree ∧
      startsWithLetter.tree = .ok tree ∧ startsWithLetter.table = .ok table ∧
      ∃ text, Report.onWords tree ["abb", "#", ""] true false = .ok text ∧
        Report.onWords tree ["abb", "#", ""] false false = .ok text := by
  obtain ⟨compiled, _, indifferent⟩ := matchers_give_same_verdicts
  obtain ⟨tree, construction, minimal, identified, grown, built, _, tabled⟩ :=
    compiled startsWithLetter ⟨[⟨'a', by decide, by decide⟩], by decide⟩
      ⟨[⟨'a', by decide, by decide⟩, ⟨'b', by decide, by decide⟩], by decide⟩
      (List.cons_ne_nil _ _) (List.cons_ne_nil _ _) ⟨_, _, rfl, rfl, rfl, rfl, rfl⟩
  exact ⟨tree, _, identified, grown, tabled, indifferent tree construction built _⟩

end Recognizer
