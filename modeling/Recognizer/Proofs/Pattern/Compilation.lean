import Recognizer.Proofs.Automaton.Minimality
import Recognizer.Proofs.Automaton.Rounds
import Recognizer.Proofs.Pattern.Cut

/-!
From a pattern definition to its table. The terms are joined from left to right and
closed by the end marker; the first term that is not valid stops this, and once
there is a tree nothing can fail any more.
-/

namespace Recognizer

namespace Construction

/-- Numbered in order and closed by the end marker, a tree has an automaton. -/
theorem exists_of_closed {body : Tree} {position : Nat} (numbered : body.Numbered 1 position)
    (unmarked : body.Unmarked) :
    ∃ construction, ofTree (.concat body (.leaf endMarker position)) =
      .ok construction := by
  have closing : (Tree.leaf endMarker position).Numbered position (position + 1) := ⟨rfl, rfl⟩
  have dense := (numbered.concat closing).dense
  refine ⟨_, (ofTree_eq_ok_iff _ _).mpr ⟨dense, position, fun other => ?_, rfl⟩⟩
  constructor
  · intro among
    rcases List.mem_append.mp among with inBody | last
    · exact absurd rfl (unmarked _ inBody)
    · cases List.mem_singleton.mp last
      rfl
  · rintro rfl
    exact List.mem_append_right _ (List.mem_singleton_self _)

end Construction

namespace Pattern.Definition

theorem body_of_valid {terms : List Term} (valid : ∀ term ∈ terms, term.Valid) {before : Tree}
    {start free : Nat} (numbered : before.Numbered start free) (unmarked : before.Unmarked) :
    ∃ tree after, body (some before) ⟨free⟩ terms = .ok (some tree, ⟨after⟩) ∧
      tree.Numbered start after ∧ tree.Unmarked ∧
      tree.language = before.language * cutLanguage terms := by
  -- the tree so far and the next free position go through all terms
  induction terms generalizing before free with
  | nil => exact ⟨before, free, rfl, numbered, unmarked, by rw [cutLanguage_nil, mul_one]⟩
  | cons term terms ih =>
      obtain ⟨tree, next, grown, inOrder, plain, words⟩ :=
        term.tree_of_valid (valid term List.mem_cons_self) ⟨free⟩
      have joined : (Tree.concat before tree).Unmarked := fun leaf among =>
        (List.mem_append.mp among).elim (unmarked leaf) (plain leaf)
      obtain ⟨whole, after, rest, wholeNumbered, wholeUnmarked, wholeWords⟩ :=
        ih (fun other later => valid other (List.mem_cons_of_mem term later))
          (numbered.concat inOrder) joined
      refine ⟨whole, after, ?_, wholeNumbered, wholeUnmarked, ?_⟩
      · rw [body, grown]
        exact rest
      · rw [wholeWords, cutLanguage_cons, ← words, ← mul_assoc]
        rfl

theorem body_of_not_valid {early late : List Term} {term : Term}
    (valid : ∀ other ∈ early, other.Valid) (refused : ¬term.Valid) (before : Option Tree)
    (supply : LeafSupply) :
    ∃ cause, body before supply (early ++ term :: late) =
      .error ⟨.construction cause, term.place⟩ := by
  induction early generalizing before supply with
  | nil =>
      obtain ⟨cause, failed⟩ := term.tree_of_not_valid refused supply
      refine ⟨cause, ?_⟩
      rw [List.nil_append, body, failed]
      rfl
  | cons other early ih =>
      obtain ⟨tree, next, grown, _⟩ := other.tree_of_valid (valid other List.mem_cons_self) supply
      obtain ⟨cause, failed⟩ := ih (fun member later => valid member (List.mem_cons_of_mem _ later))
        (some (before.elim tree fun earlier => .concat earlier tree)) ⟨next⟩
      refine ⟨cause, ?_⟩
      rw [List.cons_append, body, grown]
      exact failed

variable (definition : Definition)

theorem tree_of_valid (some : definition.terms ≠ [])
    (valid : ∀ term ∈ definition.terms, term.Valid) :
    ∃ body position, definition.tree = .ok (.concat body (.leaf endMarker position)) ∧
      body.Numbered 1 position ∧ body.Unmarked ∧
      body.language = cutLanguage definition.terms := by
  obtain ⟨name, terms, place⟩ := definition
  cases terms with
  | nil => exact absurd rfl some
  | cons term terms =>
      obtain ⟨first, free, grown, inOrder, plain, words⟩ :=
        term.tree_of_valid (valid term List.mem_cons_self) .initial
      obtain ⟨whole, after, rest, numbered, unmarked, wholeWords⟩ :=
        body_of_valid (fun other later => valid other (List.mem_cons_of_mem term later))
          inOrder plain
      refine ⟨whole, after, ?_, numbered, unmarked, ?_⟩
      · rw [tree, body, grown]
        simp only [bind, Except.bind, Option.elim_none, rest]
        rfl
      · rw [wholeWords, words, cutLanguage_cons]

theorem tree_of_no_terms (none : definition.terms = []) :
    definition.tree = .error ⟨.noTerms definition.name, definition.place⟩ := by
  rw [tree, none]
  rfl

theorem tree_of_not_valid {early late : List Term} {term : Term}
    (terms : definition.terms = early ++ term :: late) (valid : ∀ other ∈ early, other.Valid)
    (refused : ¬term.Valid) :
    ∃ cause, definition.tree = .error ⟨.construction cause, term.place⟩ := by
  obtain ⟨cause, failed⟩ : ∃ cause, body none .initial (early ++ term :: late) =
    .error ⟨.construction cause, term.place⟩ := body_of_not_valid valid refused none .initial
  refine ⟨cause, ?_⟩
  rw [tree, terms, failed]
  rfl

theorem exists_first_refused {terms : List Term} (refused : ¬∀ term ∈ terms, term.Valid) :
    ∃ early term late, terms = early ++ term :: late ∧ (∀ other ∈ early, other.Valid) ∧
      ¬term.Valid := by
  induction terms with
  | nil => exact absurd (fun _ member => absurd member List.not_mem_nil) refused
  | cons term terms ih =>
      by_cases valid : term.Valid
      · obtain ⟨early, culprit, late, rfl, before, invalid⟩ :=
          ih fun later => refused (List.forall_mem_cons.mpr ⟨valid, later⟩)
        exact ⟨term :: early, culprit, late, rfl, List.forall_mem_cons.mpr ⟨valid, before⟩, invalid⟩
      · exact ⟨[], term, terms, rfl, fun _ member => absurd member List.not_mem_nil, valid⟩

/-- A closed tree becomes a table for the words of its body. -/
theorem exists_table {body : Tree} {position : Nat} (numbered : body.Numbered 1 position)
    (unmarked : body.Unmarked)
    (grown : definition.tree = .ok (.concat body (.leaf endMarker position))) :
    ∃ construction minimal,
      Construction.ofTree (.concat body (.leaf endMarker position)) = .ok construction ∧
      construction.automaton.minimize = .ok minimal ∧
      definition.table = .ok (Table.ofAutomaton minimal) ∧
      ∀ word, (Table.ofAutomaton minimal).recognizes word = true ↔ word ∈ body.language := by
  obtain ⟨construction, built⟩ := Construction.exists_of_closed numbered unmarked
  obtain ⟨minimal, reduced, _, same⟩ := Construction.exists_minimal built
  refine ⟨construction, minimal, built, reduced, ?_, fun word => ?_⟩
  · rw [table, grown]
    simp only [bind, Except.bind, Fault.located, built, reduced]
    rfl
  · rw [same, Automaton.recognizes_iff_mem_language,
      Construction.language_closed (Construction.represents_of_ofTree built)]

theorem table_of_tree_error {fault : Fault} (failed : definition.tree = .error fault) :
    definition.table = .error fault := by
  rw [table, failed]
  rfl

/-- The fault blames the first term that is not valid. -/
def Refused (fault : Fault) : Prop :=
  ∃ early term late cause, definition.terms = early ++ term :: late ∧
    (∀ other ∈ early, other.Valid) ∧ ¬term.Valid ∧ fault = ⟨.construction cause, term.place⟩

theorem Refused.not_valid {definition : Definition} {fault : Fault}
    (refused : definition.Refused fault) : ¬∀ term ∈ definition.terms, term.Valid := by
  obtain ⟨early, term, late, _, terms, _, invalid, _⟩ := refused
  intro valid
  refine invalid (valid term ?_)
  rw [terms]
  exact List.mem_append_right early List.mem_cons_self

theorem tree_error_or_table_ok :
    (∃ fault, definition.tree = .error fault ∧
      (definition.terms = [] ∧ fault = ⟨.noTerms definition.name, definition.place⟩ ∨
        definition.Refused fault)) ∨
    (definition.terms ≠ [] ∧ ∀ term ∈ definition.terms, term.Valid) ∧
      ∃ tree construction minimal, definition.tree = .ok tree ∧
        Construction.ofTree tree = .ok construction ∧
        construction.automaton.minimize = .ok minimal ∧
        definition.table = .ok (Table.ofAutomaton minimal) ∧
        ∀ word, (Table.ofAutomaton minimal).recognizes word = true ↔ Cut definition.terms word := by
  by_cases none : definition.terms = []
  · exact Or.inl ⟨_, definition.tree_of_no_terms none, Or.inl ⟨none, rfl⟩⟩
  · by_cases valid : ∀ term ∈ definition.terms, term.Valid
    · obtain ⟨body, position, grown, numbered, unmarked, words⟩ :=
        definition.tree_of_valid none valid
      obtain ⟨construction, minimal, built, reduced, tabled, reads⟩ :=
        definition.exists_table numbered unmarked grown
      rw [words] at reads
      exact Or.inr ⟨⟨none, valid⟩, _, construction, minimal, grown, built, reduced, tabled, reads⟩
    · obtain ⟨early, term, late, terms, before, refused⟩ := exists_first_refused valid
      obtain ⟨cause, failed⟩ := definition.tree_of_not_valid terms before refused
      exact Or.inl ⟨_, failed, Or.inr ⟨early, term, late, cause, terms, before, refused, rfl⟩⟩

/-- The table of a tree is that of its minimal automaton. -/
theorem exists_table_of_tree {tree : Tree} (grown : definition.tree = .ok tree) :
    ∃ construction minimal, Construction.ofTree tree = .ok construction ∧
      construction.automaton.minimize = .ok minimal ∧
      definition.table = .ok (Table.ofAutomaton minimal) := by
  rcases definition.tree_error_or_table_ok with ⟨fault, failed, _⟩ |
    ⟨_, other, construction, minimal, found, built, reduced, tabled, _⟩
  · rw [grown] at failed
    cases failed
  · cases grown.symm.trans found
    exact ⟨construction, minimal, built, reduced, tabled⟩

/-- A definition compiles just when it has terms and all of them are valid, and the
table then reads the words that can be cut by the terms. Otherwise the first term
that is not valid is to blame, or the definition when it has none. -/
theorem table_reads_cuts (definition : Definition) :
    ((∃ table, definition.table = .ok table) ↔
      definition.terms ≠ [] ∧ ∀ term ∈ definition.terms, term.Valid) ∧
    (∀ table, definition.table = .ok table →
      ∀ word, table.recognizes word = true ↔ Cut definition.terms word) ∧
    (∀ fault, definition.table = .error fault →
      definition.terms = [] ∧ fault = ⟨.noTerms definition.name, definition.place⟩ ∨
        definition.Refused fault) ∧
    ∀ tree, definition.tree = .ok tree → ∃ construction minimal,
      Construction.ofTree tree = .ok construction ∧
      construction.automaton.minimize = .ok minimal ∧
      definition.table = .ok (Table.ofAutomaton minimal) := by
  rcases definition.tree_error_or_table_ok with ⟨fault, failed, reason⟩ |
    ⟨well, tree, construction, minimal, grown, built, reduced, tabled, reads⟩
  · have stopped := definition.table_of_tree_error failed
    refine ⟨?_, ?_, ?_, ?_⟩
    · constructor
      · rintro ⟨table, made⟩
        rw [stopped] at made
        cases made
      · rintro ⟨some, valid⟩
        rcases reason with ⟨none, _⟩ | refused
        · exact absurd none some
        · exact absurd valid refused.not_valid
    · intro table made
      rw [stopped] at made
      cases made
    · intro other found
      rw [stopped] at found
      cases found
      exact reason
    · intro tree grown
      rw [failed] at grown
      cases grown
  · refine ⟨⟨fun _ => well, fun _ => ⟨_, tabled⟩⟩, ?_, ?_, ?_⟩
    · intro table made
      rw [tabled] at made
      cases made
      exact reads
    · intro fault failed
      rw [tabled] at failed
      cases failed
    · intro other found
      rw [grown] at found
      cases found
      exact ⟨construction, minimal, built, reduced, tabled⟩

/-- A repeated class and a literal it also holds: the last piece is the literal. -/
theorem table_reads_overlapping_terms :
    ∃ table, Definition.table
        ⟨"Tail", [⟨.bracketed [.range 'a' 'b'], true, ⟨1, 7⟩⟩, ⟨.literal 'b', false, ⟨1, 20⟩⟩],
          ⟨1, 0⟩⟩ = .ok table ∧
      table.recognizes ['a', 'b', 'b'] = true ∧ table.recognizes ['b', 'a'] = false := by
  obtain ⟨success, reads, _⟩ := table_reads_cuts
    ⟨"Tail", [⟨.bracketed [.range 'a' 'b'], true, ⟨1, 7⟩⟩, ⟨.literal 'b', false, ⟨1, 20⟩⟩], ⟨1, 0⟩⟩
  have first : Term.Valid ⟨.bracketed [.range 'a' 'b'], true, ⟨1, 7⟩⟩ := by
    refine ⟨List.forall_mem_singleton.mpr ⟨⟨?_, ?_⟩, ⟨?_, ?_⟩, ?_, ?_⟩, 'a', _,
      List.mem_singleton_self _, ?_, ?_⟩
    all_goals decide
  have second : Term.Valid ⟨.literal 'b', false, ⟨1, 20⟩⟩ := by
    refine ⟨List.forall_mem_singleton.mpr ⟨?_, ?_⟩, 'b', _, List.mem_singleton_self _, rfl⟩
    all_goals decide
  obtain ⟨table, made⟩ := success.mpr ⟨List.cons_ne_nil _ _, List.forall_mem_cons.mpr
    ⟨first, List.forall_mem_singleton.mpr second⟩⟩
  refine ⟨table, made, (reads table made _).mpr ?_, ?_⟩
  · refine ⟨[['a', 'b'], ['b']], List.Forall₂.cons ?_ (List.Forall₂.cons ?_ List.Forall₂.nil), rfl⟩
    · intro c inside
      refine ⟨_, List.mem_singleton_self _, ?_⟩
      rcases List.mem_pair.mp inside with rfl | rfl
      · exact ⟨by decide, by decide⟩
      · exact ⟨by decide, by decide⟩
    · exact ⟨'b', ⟨_, List.mem_singleton_self _, rfl⟩, rfl⟩
  · rw [Bool.eq_false_iff, ne_eq, reads table made]
    rintro ⟨pieces, read, same⟩
    obtain ⟨front, rest, _, last, rfl⟩ := List.forall₂_cons_left_iff.mp read
    obtain ⟨piece, others, ⟨c, ⟨item, listed, held⟩, rfl⟩, none, rfl⟩ :=
      List.forall₂_cons_left_iff.mp last
    cases List.mem_singleton.mp listed
    cases none
    have ends := congrArg List.getLast? same
    rw [held] at ends
    simp at ends

end Pattern.Definition

end Recognizer
