import Recognizer.Proofs.Automaton.Runs
import Recognizer.Proofs.Automaton.Search
import Recognizer.Proofs.Tree.Dense
import Recognizer.Proofs.Tree.Followers

/-!
What the automaton of a tree is: its states are the sets of positions that can be
reached from the first ones, each moves to all that follows the positions of one
symbol, and none is the empty set. A tree has one just when its positions are
dense and a single leaf carries the end marker.
-/

namespace Recognizer

namespace Tree

/-- All that follows the positions of one symbol among some positions. -/
def move (tree : Tree) (state : Positions) (symbol : Char) : Positions :=
  Construction.target (Construction.offers tree.symbols tree.followers state) symbol

theorem mem_offers (tree : Tree) (distinct : tree.Distinct) (state : Positions)
    (offer : Char × Positions) :
    offer ∈ Construction.offers tree.symbols tree.followers state ↔
      ∃ position ∈ state, (position, offer.1) ∈ tree.leaves ∧ offer.1 ≠ endMarker ∧
        offer.2 = tree.followers.getD position ∅ := by
  rw [Construction.offers, List.mem_filterMap]
  constructor
  · rintro ⟨position, member, chosen⟩
    rw [Std.ExtTreeSet.mem_toList] at member
    split at chosen
    · cases chosen
    · next symbol found =>
        split at chosen
        · cases chosen
        · next unmarked =>
            cases chosen
            exact ⟨position, member, (getElem?_symbols tree distinct _ _).mp found, unmarked, rfl⟩
  · rintro ⟨position, member, leaf, unmarked, same⟩
    refine ⟨position, Std.ExtTreeSet.mem_toList.mpr member, ?_⟩
    rw [(getElem?_symbols tree distinct _ _).mpr leaf]
    simp [unmarked, ← same]

theorem mem_move (tree : Tree) (distinct : tree.Distinct) (state : Positions) (symbol : Char)
    (later : Nat) :
    later ∈ tree.move state symbol ↔ symbol ≠ endMarker ∧
      ∃ position ∈ state, (position, symbol) ∈ tree.leaves ∧ tree.Follows position later := by
  rw [move, Construction.target, FiniteSet.mem_unions]
  constructor
  · rintro ⟨set, chosen, member⟩
    obtain ⟨offer, kept, rfl⟩ := List.mem_map.mp chosen
    obtain ⟨offered, same⟩ := List.mem_filter.mp kept
    obtain ⟨position, inside, leaf, unmarked, following⟩ :=
      (mem_offers tree distinct state offer).mp offered
    rw [decide_eq_true_eq] at same
    rw [following, mem_followers] at member
    rw [same] at leaf unmarked
    exact ⟨unmarked, position, inside, leaf, member⟩
  · rintro ⟨unmarked, position, inside, leaf, follows⟩
    refine ⟨tree.followers.getD position ∅, List.mem_map.mpr
      ⟨(symbol, tree.followers.getD position ∅), List.mem_filter.mpr ⟨?_, by simp⟩, rfl⟩,
      (mem_followers tree position later).mpr follows⟩
    exact (mem_offers tree distinct state _).mpr ⟨position, inside, leaf, unmarked, rfl⟩

end Tree

namespace Construction

/-- How an automaton and its end position belong to a tree. -/
structure Represents (construction : Construction) (tree : Tree) : Prop where
  distinct : tree.Distinct
  marked : ∀ position, (position, endMarker) ∈ tree.leaves ↔ position = construction.endPosition
  start : construction.automaton.start = tree.first
  alphabet : ∀ symbol, symbol ∈ construction.automaton.alphabet ↔
    symbol ≠ endMarker ∧ ∃ position, (position, symbol) ∈ tree.leaves
  states : ∀ state, state ∈ construction.automaton.states ↔
    state = tree.first ∨ ∃ source ∈ construction.automaton.states, ∃ symbol,
      construction.automaton.next source symbol = some state
  reached : ∀ state ∈ construction.automaton.states, ∃ word,
    construction.automaton.runFrom construction.automaton.start word = some state
  accepting : ∀ state, construction.automaton.isAccepting state = true ↔
    state ∈ construction.automaton.states ∧ construction.endPosition ∈ state
  next : ∀ state symbol target, construction.automaton.next state symbol = some target ↔
    state ∈ construction.automaton.states ∧ target = tree.move state symbol ∧
      ∃ position, position ∈ target

section Represents

variable {tree : Tree} {construction : Construction} (represents : construction.Represents tree)

include represents

theorem Represents.start_mem : construction.automaton.start ∈ construction.automaton.states :=
  (represents.states _).mpr (Or.inl represents.start)

theorem Represents.closed : construction.automaton.Closed := by
  intro state known symbol target moved
  exact (represents.states target).mpr (Or.inr ⟨state, known, symbol, moved⟩)

theorem Represents.usesAlphabet : construction.automaton.UsesAlphabet := by
  intro state _ symbol target moved
  obtain ⟨_, rfl, later, member⟩ := (represents.next state symbol target).mp moved
  obtain ⟨unmarked, position, _, leaf, _⟩ :=
    (tree.mem_move represents.distinct state symbol later).mp member
  exact (represents.alphabet symbol).mpr ⟨unmarked, position, leaf⟩

theorem Represents.selfContained : construction.automaton.SelfContained :=
  ⟨represents.start_mem, represents.usesAlphabet, represents.closed⟩

end Represents

theorem getElem?_row (alphabet : FiniteSet Char) (offers : List (Char × Positions))
    (symbol : Char) (positions : Positions) :
    (row alphabet offers)[symbol]? = some positions ↔
      symbol ∈ alphabet ∧ positions = target offers symbol ∧ ∃ position, position ∈ positions := by
  rw [row, FiniteMap.getElem?_tabulate_eq_some, Std.ExtTreeSet.mem_toList,
    FiniteSet.ite_isEmpty_eq_some_iff]

theorem mem_targets_iff (rowOf : Positions → FiniteMap Char Positions) (state target : Positions) :
    target ∈ targets rowOf state ↔ ∃ symbol : Char, (rowOf state)[symbol]? = some target := by
  simp only [targets, List.mem_map, Prod.exists,
    Std.ExtTreeMap.mem_toList_iff_getElem?_eq_some, exists_eq_right]

/-- The row that the search for states reads at a state. -/
def reading (construction : Construction) (tree : Tree) (state : Positions) :
    FiniteMap Char Positions :=
  row construction.automaton.alphabet (offers tree.symbols tree.followers state)

theorem outgoing_build (tree : Tree) (endPosition : Nat) (state : Positions)
    (targets : FiniteMap Char Positions) :
    (build tree tree.symbols endPosition).automaton.outgoing state = some targets ↔
      state ∈ (build tree tree.symbols endPosition).automaton.states ∧ targets ≠ ∅ ∧
        targets = (build tree tree.symbols endPosition).reading tree state := by
  change (FiniteMap.tabulate (fun state =>
    if ((build tree tree.symbols endPosition).reading tree state).isEmpty then none
    else some ((build tree tree.symbols endPosition).reading tree state)) _)[state]? = _ ↔ _
  rw [FiniteMap.getElem?_tabulate_eq_some, Std.ExtTreeSet.mem_toList]
  apply and_congr_right
  intro _
  by_cases empty : (build tree tree.symbols endPosition).reading tree state = ∅
  · rw [if_pos (Std.ExtTreeMap.isEmpty_iff.mpr empty), empty]
    simp
  · rw [if_neg (empty ∘ Std.ExtTreeMap.isEmpty_iff.mp), Option.some.injEq]
    constructor
    · rintro rfl
      exact ⟨empty, rfl⟩
    · exact fun same => same.2.symm

section Build

variable (tree : Tree) (dense : tree.Dense) (endPosition : Nat)

include dense

theorem mem_alphabet_build (symbol : Char) :
    symbol ∈ (build tree tree.symbols endPosition).automaton.alphabet ↔
      symbol ≠ endMarker ∧ ∃ position, (position, symbol) ∈ tree.leaves := by
  simp only [build, FiniteSet.mem_ofList, List.mem_filter, List.mem_map, Prod.exists,
    Std.ExtTreeMap.mem_toList_iff_getElem?_eq_some, tree.getElem?_symbols dense.distinct,
    exists_eq_right, decide_eq_true_eq]
  exact and_comm

/-- A row holds the non-empty moves; their symbols are always in the alphabet. -/
theorem getElem?_reading_build (state target : Positions) (symbol : Char) :
    ((build tree tree.symbols endPosition).reading tree state)[symbol]? = some target ↔
      target = tree.move state symbol ∧ ∃ position, position ∈ target := by
  rw [reading, getElem?_row, Tree.move]
  refine and_iff_right_of_imp ?_
  rintro ⟨rfl, later, member⟩
  obtain ⟨unmarked, position, _, leaf, _⟩ :=
    (tree.mem_move dense.distinct state symbol later).mp member
  exact (mem_alphabet_build tree dense endPosition symbol).mpr ⟨unmarked, position, leaf⟩

/-- A state never has positions outside the tree. -/
theorem mem_positions_of_reached (state : Positions)
    (reached : Reached ((build tree tree.symbols endPosition).reading tree) tree.first state) :
    ∀ position ∈ state, position ∈ tree.positions := by
  induction reached with
  | start => exact fun position member => tree.mem_positions_of_mem_first member
  | step _ next _ =>
      intro later member
      obtain ⟨symbol, found⟩ := (mem_targets_iff _ _ _).mp next
      obtain ⟨rfl, _⟩ := (getElem?_reading_build tree dense endPosition _ _ _).mp found
      obtain ⟨_, position, _, _, follows⟩ := (tree.mem_move dense.distinct _ _ _).mp member
      exact (tree.mem_positions_of_follows follows).2

theorem mem_states_build (state : Positions) :
    state ∈ (build tree tree.symbols endPosition).automaton.states ↔
      Reached ((build tree tree.symbols endPosition).reading tree) tree.first state := by
  have size : tree.leafCount = tree.positions.length := (List.length_map _).symm
  change state ∈ reachable tree.leafCount _ tree.first ↔ _
  rw [size]
  exact mem_reachable_iff (mem_positions_of_reached tree dense endPosition) state

theorem next_build (state target : Positions) (symbol : Char) :
    (build tree tree.symbols endPosition).automaton.next state symbol = some target ↔
      state ∈ (build tree tree.symbols endPosition).automaton.states ∧
        target = tree.move state symbol ∧ ∃ position, position ∈ target := by
  rw [Automaton.next, Option.bind_eq_some_iff, ← getElem?_reading_build tree dense endPosition]
  constructor
  · rintro ⟨targets, kept, found⟩
    obtain ⟨known, _, rfl⟩ := (outgoing_build tree endPosition state targets).mp kept
    exact ⟨known, found⟩
  · rintro ⟨known, found⟩
    refine ⟨_, (outgoing_build tree endPosition state _).mpr ⟨known, ?_, rfl⟩, found⟩
    intro empty
    rw [empty, Std.ExtTreeMap.getElem?_empty] at found
    cases found

theorem represents_build
    (marked : ∀ position, (position, endMarker) ∈ tree.leaves ↔ position = endPosition) :
    (build tree tree.symbols endPosition).Represents tree where
  distinct := dense.distinct
  marked := marked
  start := rfl
  alphabet := mem_alphabet_build tree dense endPosition
  next state symbol target := next_build tree dense endPosition state target symbol
  accepting state := by
    rw [Automaton.isAccepting, ← Std.ExtTreeSet.mem_iff_contains]
    change state ∈ Std.ExtTreeSet.filter _ _ ↔ _
    rw [FiniteSet.mem_filter_iff, ← Std.ExtTreeSet.mem_iff_contains]
    rfl
  states state := by
    simp only [mem_states_build tree dense endPosition, next_build tree dense endPosition]
    constructor
    · intro reached
      cases reached with
      | start => exact Or.inl rfl
      | step source next =>
          obtain ⟨symbol, found⟩ := (mem_targets_iff _ _ _).mp next
          exact Or.inr ⟨_, source, symbol, source,
            (getElem?_reading_build tree dense endPosition _ _ _).mp found⟩
    · rintro (rfl | ⟨source, reached, symbol, _, moved⟩)
      · exact Reached.start
      · exact Reached.step reached ((mem_targets_iff _ _ _).mpr
          ⟨symbol, (getElem?_reading_build tree dense endPosition _ _ _).mpr moved⟩)
  reached state known := by
    rw [mem_states_build tree dense endPosition] at known
    induction known with
    | start => exact ⟨[], rfl⟩
    | step source next ih =>
        obtain ⟨word, run⟩ := ih
        obtain ⟨symbol, found⟩ := (mem_targets_iff _ _ _).mp next
        have moved := (next_build tree dense endPosition _ _ symbol).mpr
          ⟨(mem_states_build tree dense endPosition _).mpr source,
            (getElem?_reading_build tree dense endPosition _ _ _).mp found⟩
        refine ⟨word ++ [symbol], ?_⟩
        rw [Automaton.runFrom_append, run, Option.bind_some, Automaton.runFrom_singleton, moved]

end Build

theorem filter_marked_eq_singleton_iff (tree : Tree) (distinct : tree.Distinct)
    (endPosition : Nat) :
    (tree.symbols.toList.filter fun entry => entry.2 = endMarker).map Prod.fst = [endPosition] ↔
      ∀ position, (position, endMarker) ∈ tree.leaves ↔ position = endPosition := by
  have once : ((tree.symbols.toList.filter fun entry => entry.2 = endMarker).map
      Prod.fst).Nodup := by
    refine List.Nodup.sublist (List.filter_sublist.map _) ?_
    rw [Std.ExtTreeMap.map_fst_toList_eq_keys]
    exact Std.ExtTreeMap.nodup_keys
  rw [← List.perm_singleton, List.perm_ext_iff_of_nodup once (List.nodup_singleton _)]
  refine forall_congr' fun position => ?_
  simp only [List.mem_map, List.mem_filter, decide_eq_true_eq, Prod.exists, List.mem_singleton,
    Std.ExtTreeMap.mem_toList_iff_getElem?_eq_some, tree.getElem?_symbols distinct,
    exists_and_right, exists_eq_right]

theorem ofTree_eq_ok_iff (tree : Tree) (construction : Construction) :
    ofTree tree = .ok construction ↔
      tree.Dense ∧ ∃ endPosition,
        (∀ position, (position, endMarker) ∈ tree.leaves ↔ position = endPosition) ∧
          construction = build tree tree.symbols endPosition := by
  rw [ofTree]
  cases checked : tree.checkedSymbols with
  | error cause =>
      have sparse : ¬tree.Dense := fun dense => by
        rw [(tree.checkedSymbols_eq_ok_iff tree.symbols).mpr ⟨dense, rfl⟩] at checked
        cases checked
      simp [bind, Except.bind, sparse]
  | ok symbols =>
      obtain ⟨dense, rfl⟩ := (tree.checkedSymbols_eq_ok_iff symbols).mp checked
      simp only [bind, Except.bind, ← filter_marked_eq_singleton_iff tree dense.distinct]
      rw [and_iff_right dense]
      split
      · next none => simp [none]
      · next endPosition one =>
          simp only [one, Except.ok.injEq, List.cons.injEq, and_true]
          constructor
          · rintro rfl
            exact ⟨endPosition, rfl, rfl⟩
          · rintro ⟨_, rfl, same⟩
            exact same.symm
      · next positions _ several =>
          simp only [reduceCtorEq, false_iff]
          rintro ⟨endPosition, one, _⟩
          exact several endPosition one

theorem represents_of_ofTree {tree : Tree} {construction : Construction}
    (built : ofTree tree = .ok construction) : construction.Represents tree := by
  obtain ⟨dense, endPosition, marked, rfl⟩ := (ofTree_eq_ok_iff tree construction).mp built
  exact represents_build tree dense endPosition marked

end Construction

end Recognizer
