import Mathlib.Order.Bounds.Defs
import Recognizer.Proofs.Automaton.Direct

/-!
The states of the automaton of a tree. They are the least collection that has the
first positions and that no move leaves, so the order in which pending states are
read makes no difference. The stored rows are the non-empty moves of these states.
-/

namespace Recognizer

namespace Tree

/-- All followers of those positions of a state that carry a symbol. -/
def after (tree : Tree) (state : Positions) (symbol : Char) : Positions :=
  FiniteSet.unions
    ((state.toList.filter fun position => (position, symbol) ∈ tree.leaves).map
      fun position => tree.followers.getD position ∅)

theorem mem_after (tree : Tree) (state : Positions) (symbol : Char) (later : Nat) :
    later ∈ tree.after state symbol ↔
      ∃ position ∈ state, (position, symbol) ∈ tree.leaves ∧ tree.Follows position later := by
  rw [after, FiniteSet.mem_unions]
  simp only [List.mem_map, List.mem_filter, Std.ExtTreeSet.mem_toList, decide_eq_true_eq]
  constructor
  · rintro ⟨_, ⟨position, ⟨inside, leaf⟩, rfl⟩, member⟩
    exact ⟨position, inside, leaf, (mem_followers tree position later).mp member⟩
  · rintro ⟨position, inside, leaf, follows⟩
    exact ⟨_, ⟨position, ⟨inside, leaf⟩, rfl⟩, (mem_followers tree position later).mpr follows⟩

/-- The search puts the offers of a state together by symbol, which comes to the same. -/
theorem move_eq_after (tree : Tree) (distinct : tree.Distinct) (state : Positions)
    {symbol : Char} (unmarked : symbol ≠ endMarker) :
    tree.move state symbol = tree.after state symbol := by
  apply Std.ExtTreeSet.ext_mem
  intro later
  rw [mem_move tree distinct, mem_after, and_iff_right unmarked]

/-- A collection that has the first positions and that no move leaves. A move that comes
to nothing asks for no state. -/
structure Collects (tree : Tree) (collection : Set Positions) : Prop where
  first : tree.first ∈ collection
  closed : ∀ state ∈ collection, ∀ symbol, symbol ≠ endMarker →
    tree.after state symbol ≠ ∅ → tree.after state symbol ∈ collection

end Tree

namespace Construction

open Search

/-- What the search for states comes to. Some order of reading comes to an end, and all that
do find the same states. -/
structure ClosureOf (construction : Construction) (tree : Tree) : Prop where
  states : IsLeast {collection | tree.Collects collection}
    {state | state ∈ construction.automaton.states}
  ends : ∃ search,
    Relation.ReflTransGen (Takes (construction.reading tree)) (initial tree.first) search ∧
      search.pending = []
  anyOrder : ∀ search,
    Relation.ReflTransGen (Takes (construction.reading tree)) (initial tree.first) search →
      search.pending = [] → search.found = construction.automaton.states
  start : construction.automaton.start = tree.first
  next : ∀ state ∈ construction.automaton.states, ∀ symbol, symbol ≠ endMarker →
    construction.automaton.next state symbol =
      if (tree.after state symbol).isEmpty then none else some (tree.after state symbol)
  marker : ∀ state, construction.automaton.next state endMarker = none
  inhabited : ∀ state ∈ construction.automaton.states, state ≠ ∅
  rows : ∀ state row, construction.automaton.outgoing state = some row →
    state ∈ construction.automaton.states ∧ row ≠ ∅ ∧
      ∀ symbol ∈ row, symbol ∈ construction.automaton.alphabet
  alphabet : ∀ symbol, symbol ∈ construction.automaton.alphabet ↔
    symbol ≠ endMarker ∧ ∃ position, (position, symbol) ∈ tree.leaves
  marked : ∀ position, (position, endMarker) ∈ tree.leaves ↔ position = construction.endPosition
  accepts : ∀ state, state ∈ construction.automaton.accepts ↔
    state ∈ construction.automaton.states ∧ construction.endPosition ∈ state

section Represents

variable {tree : Tree} {construction : Construction} (represents : construction.Represents tree)

include represents

theorem Represents.next_eq_after {state : Positions}
    (known : state ∈ construction.automaton.states) {symbol : Char}
    (unmarked : symbol ≠ endMarker) :
    construction.automaton.next state symbol =
      if (tree.after state symbol).isEmpty then none else some (tree.after state symbol) := by
  rw [← tree.move_eq_after represents.distinct state unmarked]
  apply Option.ext
  intro target
  rw [represents.next, and_iff_right known, FiniteSet.ite_isEmpty_eq_some_iff]

theorem Represents.next_marker (state : Positions) :
    construction.automaton.next state endMarker = none := by
  rw [Option.eq_none_iff_forall_not_mem]
  intro target moved
  obtain ⟨_, rfl, later, member⟩ := (represents.next state endMarker target).mp moved
  exact ((tree.mem_move represents.distinct state endMarker later).mp member).1 rfl

theorem Represents.inhabited {state : Positions}
    (known : state ∈ construction.automaton.states) : state ≠ ∅ := by
  have some : ∃ position, position ∈ state := by
    rcases (represents.states state).mp known with rfl | ⟨source, _, symbol, moved⟩
    · exact tree.exists_mem_first
    · exact ((represents.next source symbol state).mp moved).2.2
  obtain ⟨_, member⟩ := some
  exact Std.ExtTreeSet.ne_empty_of_mem member

theorem Represents.collects :
    tree.Collects {state | state ∈ construction.automaton.states} := by
  constructor
  case first =>
    rw [← represents.start]
    exact represents.start_mem
  case closed =>
    intro state known symbol unmarked some
    apply represents.closed state known symbol
    rw [represents.next_eq_after known unmarked, if_neg]
    exact some ∘ Std.ExtTreeSet.isEmpty_iff.mp

theorem Represents.mem_accepts_iff (state : Positions) :
    state ∈ construction.automaton.accepts ↔
      state ∈ construction.automaton.states ∧ construction.endPosition ∈ state := by
  rw [Std.ExtTreeSet.mem_iff_contains]
  exact represents.accepting state

/-- A stored symbol leads somewhere, so some leaf carries it. -/
theorem Represents.mem_alphabet_of_row {state : Positions}
    (known : state ∈ construction.automaton.states) {row : FiniteMap Char Positions}
    (stored : construction.automaton.outgoing state = some row) {symbol : Char}
    (listed : symbol ∈ row) : symbol ∈ construction.automaton.alphabet := by
  apply represents.usesAlphabet state known symbol row[symbol]
  rw [Automaton.next, stored, Option.bind_some]
  exact Std.ExtTreeMap.getElem?_eq_some_getElem listed

end Represents

/-- Every state that the search can reach is in any collection that no move leaves. -/
theorem mem_of_reached (tree : Tree) (dense : tree.Dense) (endPosition : Nat)
    {collection : Set Positions} (collects : tree.Collects collection) {state : Positions}
    (reached : Reached ((build tree tree.symbols endPosition).reading tree) tree.first state) :
    state ∈ collection := by
  induction reached with
  | start => exact collects.first
  | @step state target _ next ih =>
      obtain ⟨symbol, found⟩ := (mem_targets_iff _ state target).mp next
      obtain ⟨rfl, later, member⟩ := (getElem?_reading_build tree dense endPosition _ _ _).mp found
      have unmarked := ((tree.mem_move dense.distinct state symbol later).mp member).1
      rw [tree.move_eq_after dense.distinct state unmarked] at member ⊢
      apply collects.closed state ih symbol unmarked
      exact Std.ExtTreeSet.ne_empty_of_mem member

/-- The states that an automaton has are those that must be there, whichever pending state
is read next, and its rows are their non-empty moves. -/
theorem search_finds_least_collection (tree : Tree) (construction : Construction)
    (built : ofTree tree = .ok construction) : construction.ClosureOf tree := by
  obtain ⟨dense, endPosition, marked, rfl⟩ := (ofTree_eq_ok_iff tree construction).mp built
  have represents := represents_build tree dense endPosition marked
  have states := mem_states_build tree dense endPosition
  constructor
  case states =>
    constructor
    · exact represents.collects
    · intro collection collects state known
      exact mem_of_reached tree dense endPosition collects ((states state).mp known)
  case ends =>
    refine ⟨_, takes_run (2 ^ tree.positions.length) (initial tree.first), ?_⟩
    exact pending_run (mem_positions_of_reached tree dense endPosition)
  case anyOrder =>
    intro search taken finished
    obtain ⟨read, explored⟩ := explored_of_takes taken
    apply Std.ExtTreeSet.ext_mem
    intro state
    rw [explored.found_iff finished, states]
  case start => exact represents.start
  case next => exact fun state known symbol => represents.next_eq_after known
  case marker => exact represents.next_marker
  case inhabited => exact fun state => represents.inhabited
  case rows =>
    intro state row stored
    obtain ⟨known, some, _⟩ := (outgoing_build tree endPosition state row).mp stored
    exact ⟨known, some, fun symbol => represents.mem_alphabet_of_row known stored⟩
  case alphabet => exact represents.alphabet
  case marked => exact represents.marked
  case accepts => exact represents.mem_accepts_iff

/-- All three positions come first, and the end marker below the star has followers as
well, but it moves nowhere. -/
theorem states_of_repeated_marker :
    let tree := Tree.star (.concat (.union (.leaf 'a' 3) (.star (.leaf 'a' 1)))
      (.leaf endMarker 2))
    let first : Positions := FiniteSet.ofList [1, 2, 3]
    let later : Positions := FiniteSet.ofList [1, 2]
    ∃ construction, ofTree tree = .ok construction ∧
      (∀ state, state ∈ construction.automaton.states ↔ state = first ∨ state = later) ∧
      construction.automaton.next later 'a' = some later ∧
      tree.after later endMarker = first ∧
      construction.automaton.next later endMarker = none := by
  intro tree first later
  obtain ⟨construction, built⟩ : ∃ construction, ofTree tree = .ok construction := ⟨_, rfl⟩
  have closure := search_finds_least_collection tree construction built
  have start : tree.first = first := FiniteSet.toList_injective (by decide +kernel)
  have moved : ∀ state, state = first ∨ state = later → tree.after state 'a' = later := by
    rintro state (rfl | rfl)
    · exact FiniteSet.toList_injective (by decide +kernel)
    · exact FiniteSet.toList_injective (by decide +kernel)
  have silent : ∀ state symbol, symbol ≠ 'a' → symbol ≠ endMarker →
      tree.after state symbol = ∅ := by
    intro state symbol other unmarked
    rw [FiniteSet.eq_empty_iff]
    intro position member
    obtain ⟨_, _, leaf, _⟩ := (tree.mem_after state symbol position).mp member
    simp [tree, Tree.leaves, other, unmarked] at leaf
  have collects : tree.Collects {state | state = first ∨ state = later} := by
    constructor
    case first => exact Or.inl start
    case closed =>
      intro state known symbol unmarked some
      by_cases letter : symbol = 'a'
      · rw [letter, moved state known]
        exact Or.inr rfl
      · exact absurd (silent state symbol letter unmarked) some
  have isFirst : first ∈ construction.automaton.states := by
    rw [← start]
    exact closure.states.1.first
  have isLater : later ∈ construction.automaton.states := by
    have some : tree.after first 'a' ≠ ∅ := by
      rw [moved first (Or.inl rfl)]
      apply Std.ExtTreeSet.isEmpty_eq_false_iff.mp
      decide +kernel
    rw [← moved first (Or.inl rfl)]
    exact closure.states.1.closed first isFirst 'a' (by decide) some
  have states : ∀ state, state ∈ construction.automaton.states ↔ state = first ∨ state = later := by
    intro state
    constructor
    · exact fun known => closure.states.2 collects known
    · rintro (rfl | rfl)
      · exact isFirst
      · exact isLater
  have next : construction.automaton.next later 'a' = some later := by
    rw [closure.next later isLater 'a' (by decide), moved later (Or.inr rfl)]
    rfl
  exact ⟨construction, built, states, next, FiniteSet.toList_injective (by decide +kernel),
    closure.marker later⟩

end Construction

end Recognizer
