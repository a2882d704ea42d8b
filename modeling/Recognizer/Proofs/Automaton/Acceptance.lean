import Recognizer.Proofs.Automaton.Direct

/-!
What the automaton of a tree accepts. From a set of positions one can read the
words that start at one of them and go on to the end of the tree. The automaton
accepts a word when such a word continues it with the end marker.
-/

namespace Recognizer

namespace Tree

/-- Words from one of the positions, that one included, up to the end of the tree. -/
def readable (tree : Tree) (state : Positions) : Language Char :=
  {word | ∃ position ∈ state, ∃ path ∈ tree.rest position, tree.Spells (position :: path) word}

theorem nil_not_mem_readable (tree : Tree) (state : Positions) : [] ∉ tree.readable state := by
  rintro ⟨position, _, path, _, spelled⟩
  cases spelled

theorem exists_spelled (tree : Tree) (distinct : tree.Distinct) {position : Nat}
    {path : List Nat} (member : path ∈ tree.rest position) : ∃ word, tree.Spells path word := by
  induction path generalizing position with
  | nil => exact ⟨[], List.Forall₂.nil⟩
  | cons later path ih =>
      obtain ⟨follows, onward⟩ := (tree.cons_mem_rest distinct position later path).mp member
      obtain ⟨leaf, known, same⟩ := List.mem_map.mp (tree.mem_positions_of_follows follows).2
      obtain ⟨word, spelled⟩ := ih onward
      exact ⟨leaf.2 :: word, List.Forall₂.cons (same ▸ known) spelled⟩

/-- Something can be read from every position that has a leaf. -/
theorem exists_cons_mem_readable (tree : Tree) (distinct : tree.Distinct) {state : Positions}
    {position : Nat} {symbol : Char} (member : position ∈ state)
    (leaf : (position, symbol) ∈ tree.leaves) : ∃ word, symbol :: word ∈ tree.readable state := by
  obtain ⟨path, after⟩ := tree.rest_nonempty (List.mem_map.mpr ⟨_, leaf, rfl⟩)
  obtain ⟨word, spelled⟩ := tree.exists_spelled distinct after
  exact ⟨word, position, member, path, after, List.Forall₂.cons leaf spelled⟩

theorem mem_readable_first (tree : Tree) (distinct : tree.Distinct) (symbol : Char)
    (word : List Char) :
    symbol :: word ∈ tree.readable tree.first ↔ symbol :: word ∈ tree.language := by
  rw [mem_language_iff_spelled tree distinct]
  constructor
  · rintro ⟨position, isFirst, path, after, spelled⟩
    exact ⟨position :: path,
      (tree.cons_mem_positionLanguage distinct position path).mpr ⟨isFirst, after⟩, spelled⟩
  · rintro ⟨path, member, spelled⟩
    cases path with
    | nil => cases spelled
    | cons position path =>
        obtain ⟨isFirst, after⟩ :=
          (tree.cons_mem_positionLanguage distinct position path).mp member
        exact ⟨position, isFirst, path, after, spelled⟩

/-- Reading one symbol is a move, as long as it is not the last symbol to be read. -/
theorem mem_readable_move (tree : Tree) (distinct : tree.Distinct) (state : Positions)
    (symbol : Char) (unmarked : symbol ≠ endMarker) (word : List Char) (more : word ≠ []) :
    word ∈ tree.readable (tree.move state symbol) ↔ symbol :: word ∈ tree.readable state := by
  constructor
  · rintro ⟨later, moved, path, after, spelled⟩
    obtain ⟨_, position, member, leaf, follows⟩ :=
      (tree.mem_move distinct state symbol later).mp moved
    exact ⟨position, member, later :: path,
      (tree.cons_mem_rest distinct position later path).mpr ⟨follows, after⟩,
      List.Forall₂.cons leaf spelled⟩
  · rintro ⟨position, member, path, after, spelled⟩
    obtain ⟨leaf, spelled⟩ := List.forall₂_cons.mp spelled
    cases path with
    | nil =>
        cases spelled
        exact absurd rfl more
    | cons later path =>
        obtain ⟨follows, onward⟩ := (tree.cons_mem_rest distinct position later path).mp after
        exact ⟨later, (tree.mem_move distinct state symbol later).mpr
          ⟨unmarked, position, member, leaf, follows⟩, path, onward, spelled⟩

end Tree

namespace Construction

variable {tree : Tree} {construction : Construction}

theorem mem_languageFrom_iff (represents : construction.Represents tree) (state : Positions)
    (known : state ∈ construction.automaton.states) (word : List Char) :
    word ∈ construction.automaton.languageFrom state ↔
      endMarker ∉ word ∧ ∃ after, word ++ endMarker :: after ∈ tree.readable state := by
  -- on the word: the set of positions after each symbol is the next state
  induction word generalizing state with
  | nil =>
      rw [Automaton.nil_mem_languageFrom, represents.accepting, and_iff_right known]
      constructor
      · intro member
        obtain ⟨after, readable⟩ := tree.exists_cons_mem_readable represents.distinct member
          ((represents.marked _).mpr rfl)
        exact ⟨List.not_mem_nil, after, readable⟩
      · rintro ⟨_, after, position, member, path, _, spelled⟩
        obtain ⟨leaf, _⟩ := List.forall₂_cons.mp spelled
        exact (represents.marked position).mp leaf ▸ member
  | cons symbol word ih =>
      rw [Automaton.cons_mem_languageFrom]
      constructor
      · rintro ⟨target, moved, accepted⟩
        have into := (represents.states target).mpr (Or.inr ⟨state, known, symbol, moved⟩)
        obtain ⟨unmarked, after, readable⟩ := (ih target into).mp accepted
        obtain ⟨_, rfl, later, member⟩ := (represents.next state symbol target).mp moved
        have plain := ((tree.mem_move represents.distinct state symbol later).mp member).1
        refine ⟨?_, after, ?_⟩
        · intro inside
          rcases List.mem_cons.mp inside with here | later
          · exact plain here.symm
          · exact unmarked later
        · exact (tree.mem_readable_move represents.distinct state symbol plain _ (by simp)).mp
            readable
      · rintro ⟨unmarked, after, readable⟩
        have plain : symbol ≠ endMarker := fun same => unmarked (same ▸ List.mem_cons_self)
        have onward := (tree.mem_readable_move represents.distinct state symbol plain
          (word ++ endMarker :: after) (by simp)).mpr readable
        obtain ⟨later, member, _⟩ := id onward
        have moved := (represents.next state symbol _).mpr ⟨known, rfl, later, member⟩
        have into := (represents.states _).mpr (Or.inr ⟨state, known, symbol, moved⟩)
        exact ⟨_, moved, (ih _ into).mpr
          ⟨fun inside => unmarked (List.mem_cons_of_mem _ inside), after, onward⟩⟩

theorem mem_language_iff (represents : construction.Represents tree) (word : List Char) :
    word ∈ construction.automaton.language ↔
      endMarker ∉ word ∧ ∃ after, word ++ endMarker :: after ∈ tree.language := by
  have known := (represents.states tree.first).mpr (Or.inl rfl)
  have first := tree.mem_readable_first represents.distinct
  rw [Automaton.language, represents.start, mem_languageFrom_iff represents tree.first known]
  cases word with
  | nil => simp only [List.nil_append, first]
  | cons symbol word => simp only [List.cons_append, first]

section Closed

variable {body : Tree} {position : Nat}

/-- The marker that closes a tree is its only one. -/
theorem endMarker_not_mem_leaves
    (represents : construction.Represents (.concat body (.leaf endMarker position)))
    (other : Nat) : (other, endMarker) ∉ body.leaves := by
  intro inside
  have apart := Tree.distinct_concat represents.distinct
  have here := (represents.marked other).mp (List.mem_append_left _ inside)
  have last := (represents.marked position).mp
    (List.mem_append_right body.leaves (List.mem_singleton_self _))
  refine Tree.not_mem_right apart (List.mem_map.mpr ⟨_, inside, rfl⟩) ?_
  simp [Tree.positions, Tree.leaves, here, last]

theorem endMarker_not_mem_of_mem_body
    (represents : construction.Represents (.concat body (.leaf endMarker position)))
    {word : List Char} (member : word ∈ body.language) : endMarker ∉ word := by
  intro inside
  obtain ⟨⟨other, symbol⟩, leaf, same⟩ := Tree.letter_of_mem_words _ body member inside
  have same : symbol = endMarker := same
  exact endMarker_not_mem_leaves represents other (same ▸ leaf)

/-- The words of a closed tree are those of its body, each followed by the marker. -/
theorem followed_by_marker_iff
    (represents : construction.Represents (.concat body (.leaf endMarker position)))
    {word : List Char} (unmarked : endMarker ∉ word) (after : List Char) :
    word ++ endMarker :: after ∈ (Tree.concat body (.leaf endMarker position)).language ↔
      word ∈ body.language ∧ after = [] := by
  change _ ∈ body.language * {[endMarker]} ↔ _
  rw [Language.mem_mul]
  constructor
  · rintro ⟨front, inBody, _, rfl, same⟩
    have plain := endMarker_not_mem_of_mem_body represents inBody
    -- the marker is in neither front, so both splits are at the same place
    obtain ⟨rfl, _, rfl⟩ :=
      (List.append_cons_inj_of_notMem plain List.not_mem_nil).mp same
    exact ⟨inBody, rfl⟩
  · rintro ⟨inBody, rfl⟩
    exact ⟨word, inBody, [endMarker], rfl, rfl⟩

theorem language_closed
    (represents : construction.Represents (.concat body (.leaf endMarker position))) :
    construction.automaton.language = body.language := by
  ext word
  rw [mem_language_iff represents]
  constructor
  · rintro ⟨unmarked, after, member⟩
    exact ((followed_by_marker_iff represents unmarked after).mp member).1
  · intro inBody
    have unmarked := endMarker_not_mem_of_mem_body represents inBody
    exact ⟨unmarked, [], (followed_by_marker_iff represents unmarked []).mpr ⟨inBody, rfl⟩⟩

end Closed

/-- A word is accepted when the end marker can come next in a word of the tree. For
a tree that the marker closes these are the words of what stands before it. -/
theorem recognizes_iff_marker_can_follow (tree : Tree) (construction : Construction)
    (built : ofTree tree = .ok construction) :
    (∀ word, construction.automaton.recognizes word = true ↔
      endMarker ∉ word ∧ ∃ after, word ++ endMarker :: after ∈ tree.language) ∧
    ∀ body position, tree = .concat body (.leaf endMarker position) →
      ∀ word, construction.automaton.recognizes word = true ↔ word ∈ body.language := by
  have represents := represents_of_ofTree built
  constructor
  · intro word
    rw [Automaton.recognizes_iff_mem_language, mem_language_iff represents]
  · rintro body position rfl word
    rw [Automaton.recognizes_iff_mem_language, language_closed represents]

/-- The marker below a star, with positions from right to left. -/
theorem recognizes_up_to_repeated_marker :
    ∃ construction,
      ofTree (.star (.concat (.leaf 'a' 2) (.leaf endMarker 1))) = .ok construction ∧
        construction.automaton.recognizes ['a'] = true ∧
        construction.automaton.recognizes ['a', endMarker, 'a'] = false := by
  obtain ⟨construction, built⟩ : ∃ construction,
      ofTree (.star (.concat (.leaf 'a' 2) (.leaf endMarker 1))) = .ok construction := ⟨_, rfl⟩
  have accepted := (recognizes_iff_marker_can_follow _ construction built).1
  refine ⟨construction, built, (accepted ['a']).mpr ⟨by decide, ['a', endMarker], ?_⟩, ?_⟩
  · refine Language.mem_kstar.mpr ⟨[['a', endMarker], ['a', endMarker]], rfl, ?_⟩
    intro part member
    have same : part = ['a', endMarker] := by simpa using member
    exact same ▸ Language.append_mem_mul (a := ['a']) (b := [endMarker]) rfl rfl
  · rw [Bool.eq_false_iff, ne_eq, accepted]
    exact fun unmarked => unmarked.1 (by decide)

end Construction

end Recognizer
