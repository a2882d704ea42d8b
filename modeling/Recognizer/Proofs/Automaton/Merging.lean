import Recognizer.Automaton.Minimize
import Recognizer.Proofs.Automaton.Stability

/-!
What minimizing yields. The states are the blocks of the final partition, and
from each block the moves are those of any of its states, whichever was picked as
the representative.
-/

namespace Recognizer.Automaton

open Recognizer.Partition

variable {σ : Type} [Ordered σ]

theorem mem_of_blockOf {partition : Partition σ} {state : σ} {block : Block σ}
    (found : blockOf partition state = some block) : block ∈ partition ∧ state ∈ block := by
  have holds := List.find?_some (p := fun block : Block σ => block.contains state) found
  exact ⟨List.mem_of_find?_eq_some found, Std.ExtTreeSet.mem_iff_contains.mpr holds⟩

section BlockOf

variable {partition : Partition σ} {states : FiniteSet σ} (covers : partition.Covers states)

include covers

theorem blockOf_eq_some_iff (state : σ) (block : Block σ) :
    blockOf partition state = some block ↔ block ∈ partition ∧ state ∈ block := by
  constructor
  · exact mem_of_blockOf
  · rintro ⟨listed, member⟩
    have some : (blockOf partition state).isSome := List.find?_isSome.mpr
      ⟨block, listed, Std.ExtTreeSet.mem_iff_contains.mp member⟩
    obtain ⟨other, found⟩ := Option.isSome_iff_exists.mp some
    obtain ⟨also, inside⟩ := mem_of_blockOf found
    rw [found, block_unique covers also listed inside member]

theorem blockOf_eq_none_iff (state : σ) : blockOf partition state = none ↔ state ∉ states := by
  rw [blockOf, List.find?_eq_none, covers.cover]
  simp only [not_exists, not_and, Std.ExtTreeSet.mem_iff_contains]

theorem blockOf_eq_of_together {state other : σ} (together : partition.Together state other) :
    ∃ block ∈ partition, other ∈ block ∧ blockOf partition state = some block := by
  obtain ⟨block, listed, here, there⟩ := together
  exact ⟨block, listed, there, (blockOf_eq_some_iff covers state block).mpr ⟨listed, here⟩⟩

end BlockOf

theorem getElem?_blockRow (automaton : Automaton σ) (choice : Choice σ) (blocks : List (Block σ))
    {block : Block σ} (inhabited : ∃ state, state ∈ block) :
    ∃ representative ∈ block, ∀ symbol,
      ((automaton.blockRow choice blocks block).bind fun row => row[symbol]?) =
        (automaton.next representative symbol).bind (blockOf blocks) := by
  cases members : block.toList with
  | nil =>
      obtain ⟨state, member⟩ := inhabited
      rw [← Std.ExtTreeSet.mem_toList, members] at member
      exact absurd member List.not_mem_nil
  | cons least others =>
      have picked : choice.pick least others ∈ block :=
        Std.ExtTreeSet.mem_toList.mp (members ▸ choice.member least others)
      refine ⟨choice.pick least others, picked, fun symbol => ?_⟩
      simp only [blockRow, members, next]
      cases automaton.outgoing (choice.pick least others) with
      | none => rfl
      | some row =>
          have entry : (row.filterMap fun _ target => blockOf blocks target)[symbol]? =
              row[symbol]?.bind (blockOf blocks) := Std.ExtTreeMap.getElem?_filterMap'
          rw [Option.bind_some, ← entry]
          dsimp only
          by_cases empty :
              (row.filterMap fun _ target => blockOf blocks target).isEmpty = true
          · rw [if_pos empty, Std.ExtTreeMap.isEmpty_iff.mp empty, Std.ExtTreeMap.getElem?_empty]
            rfl
          · rw [if_neg empty, Option.bind_some]

/-- What minimizing writes into its result. -/
structure Yields (automaton : Automaton σ) (choice : Choice σ) (minimal : Automaton (Block σ)) :
    Prop where
  states : ∀ block, block ∈ minimal.states ↔ block ∈ automaton.finalPartition
  alphabet : minimal.alphabet = automaton.alphabet
  start : blockOf automaton.finalPartition automaton.start = some minimal.start
  accepts : minimal.accepts =
    minimal.states.filter fun block => block.toList.any automaton.isAccepting
  rows : minimal.rows =
    FiniteMap.tabulate (automaton.blockRow choice automaton.finalPartition) minimal.states.toList

/-- How an automaton is taken to one with blocks as states. -/
structure MergesInto (automaton : Automaton σ) (minimal : Automaton (Block σ)) : Prop where
  states : ∀ block, block ∈ minimal.states ↔ block ∈ automaton.finalPartition
  alphabet : minimal.alphabet = automaton.alphabet
  start : minimal.start ∈ minimal.states ∧ automaton.start ∈ minimal.start
  accepting : ∀ block, ∀ state ∈ block, block ∈ minimal.states →
    minimal.isAccepting block = automaton.isAccepting state
  rejecting : ∀ block ∉ minimal.states, minimal.isAccepting block = false
  moves : ∀ block ∈ minimal.states, ∀ state ∈ block, ∀ symbol,
    Option.Rel (fun target goal => target ∈ goal ∧ goal ∈ minimal.states)
      (automaton.withinStates.next state symbol) (minimal.next block symbol)
  sources : ∀ block symbol goal, minimal.next block symbol = some goal → block ∈ minimal.states

section MergesInto

variable {automaton : Automaton σ} {minimal : Automaton (Block σ)}
  (merges : automaton.MergesInto minimal)

include merges

theorem MergesInto.exists_mem {block : Block σ} (known : block ∈ minimal.states) :
    ∃ state, state ∈ block :=
  (covers_finalPartition automaton).inhabited block ((merges.states block).mp known)

theorem MergesInto.known_of_mem {block : Block σ} (known : block ∈ minimal.states) {state : σ}
    (here : state ∈ block) : state ∈ automaton.states :=
  ((covers_finalPartition automaton).cover state).mpr
    ⟨block, (merges.states block).mp known, here⟩

theorem MergesInto.exists_move {block goal : Block σ} {symbol : Char}
    (moved : minimal.next block symbol = some goal) :
    goal ∈ minimal.states ∧ ∃ state ∈ block, state ∈ automaton.states ∧ ∃ target ∈ goal,
      automaton.withinStates.next state symbol = some target := by
  have known := merges.sources block symbol goal moved
  obtain ⟨state, here⟩ := merges.exists_mem known
  have related := merges.moves block known state here symbol
  rw [moved] at related
  obtain ⟨target, taken, inside, into⟩ := exists_left_of_rel related
  exact ⟨into, state, here, merges.known_of_mem known here, target, inside, taken⟩

theorem MergesInto.closed : minimal.Closed :=
  fun _ _ _ _ moved => (merges.exists_move moved).1

theorem MergesInto.usesAlphabet (uses : automaton.UsesAlphabet) : minimal.UsesAlphabet := by
  intro block _ symbol goal moved
  obtain ⟨_, state, _, known, target, _, taken⟩ := merges.exists_move moved
  rw [merges.alphabet]
  exact uses state known symbol target
    ((next_withinStates_eq_some_iff automaton state target symbol).mp taken).1

theorem MergesInto.selfContained (uses : automaton.UsesAlphabet) : minimal.SelfContained :=
  ⟨merges.start.1, merges.usesAlphabet uses, merges.closed⟩

end MergesInto

section Minimize

variable (automaton : Automaton σ) (choice : Choice σ)

/-- States of one block have the same moves up to blocks, also for symbols outside
the alphabet, for which none of them has a move. -/
theorem rel_next_of_together (uses : automaton.UsesAlphabet) {state other : σ}
    (together : automaton.finalPartition.Together state other) (symbol : Char) :
    Option.Rel automaton.finalPartition.Together (automaton.withinStates.next state symbol)
      (automaton.withinStates.next other symbol) := by
  by_cases inAlphabet : symbol ∈ automaton.alphabet
  · exact stable_finalPartition automaton state other together symbol inAlphabet
  · have missing : ∀ source ∈ automaton.states,
        automaton.withinStates.next source symbol = none := by
      intro source known
      rw [next_withinStates]
      cases moved : automaton.next source symbol with
      | none => rfl
      | some target => exact absurd (uses source known symbol target moved) inAlphabet
    obtain ⟨known, also⟩ := known_of_together automaton together
    rw [missing state known, missing other also]
    exact Option.Rel.none

/-- Whichever member was picked, the row of a block has the moves of each of its states. -/
theorem lookup_blockRow (uses : automaton.UsesAlphabet) {block : Block σ}
    (listed : block ∈ automaton.finalPartition) {state : σ} (here : state ∈ block)
    (symbol : Char) :
    ((automaton.blockRow choice automaton.finalPartition block).bind fun row => row[symbol]?) =
      (automaton.withinStates.next state symbol).bind (blockOf automaton.finalPartition) := by
  have covers := covers_finalPartition automaton
  have outside := fun target => (blockOf_eq_none_iff covers target).mpr
  obtain ⟨representative, there, entry⟩ :=
    getElem?_blockRow automaton choice automaton.finalPartition ⟨state, here⟩
  rw [entry, bind_next_withinStates automaton outside]
  have related := rel_next_of_together automaton uses ⟨block, listed, there, here⟩ symbol
  generalize automaton.withinStates.next representative symbol = picked at related ⊢
  generalize automaton.withinStates.next state symbol = own at related ⊢
  cases related with
  | none => rfl
  | some together =>
      obtain ⟨goal, isBlock, inside, found⟩ := blockOf_eq_of_together covers together
      rw [Option.bind_some, Option.bind_some, found]
      exact ((blockOf_eq_some_iff covers _ goal).mpr ⟨isBlock, inside⟩).symm

section Yields

variable {automaton choice} {minimal : Automaton (Block σ)}

theorem yields_of_minimizeWith (succeeded : automaton.minimizeWith choice = .ok minimal) :
    automaton.Yields choice minimal := by
  rw [minimizeWith] at succeeded
  split at succeeded
  · cases succeeded
  · dsimp only at succeeded
    split at succeeded
    · cases succeeded
    · next found =>
        cases succeeded
        exact ⟨FiniteSet.mem_ofList _, rfl, found, rfl, rfl⟩

variable (yields : automaton.Yields choice minimal)

include yields

theorem Yields.isAccepting_eq {block : Block σ} (known : block ∈ minimal.states) {state : σ}
    (here : state ∈ block) : minimal.isAccepting block = automaton.isAccepting state := by
  rw [isAccepting, yields.accepts, Bool.eq_iff_iff, ← Std.ExtTreeSet.mem_iff_contains,
    FiniteSet.mem_filter_iff, and_iff_right known, List.any_eq_true]
  constructor
  · rintro ⟨other, there, accepted⟩
    rw [Std.ExtTreeSet.mem_toList] at there
    rw [← accepted]
    exact accepting_of_together automaton ⟨block, (yields.states block).mp known, there, here⟩
  · exact fun accepted => ⟨state, Std.ExtTreeSet.mem_toList.mpr here, accepted⟩

theorem Yields.known_of_accepts {block : Block σ} (accepted : block ∈ minimal.accepts) :
    block ∈ minimal.states := by
  rw [yields.accepts, FiniteSet.mem_filter_iff] at accepted
  exact accepted.1

theorem Yields.known_of_row {block : Block σ} {row : FiniteMap Char (Block σ)}
    (stored : minimal.rows[block]? = some row) : block ∈ minimal.states := by
  rw [yields.rows, FiniteMap.getElem?_tabulate_eq_some] at stored
  exact Std.ExtTreeSet.mem_toList.mp stored.1

theorem Yields.outgoing_eq {block : Block σ} (known : block ∈ minimal.states) :
    minimal.outgoing block = automaton.blockRow choice automaton.finalPartition block := by
  rw [outgoing, yields.rows,
    FiniteMap.getElem?_tabulate_of_mem _ (Std.ExtTreeSet.mem_toList.mpr known)]

theorem Yields.rel_next (uses : automaton.UsesAlphabet) {block : Block σ}
    (known : block ∈ minimal.states) {state : σ} (here : state ∈ block) (symbol : Char) :
    Option.Rel (fun target goal => target ∈ goal ∧ goal ∈ minimal.states)
      (automaton.withinStates.next state symbol) (minimal.next block symbol) := by
  have covers := covers_finalPartition automaton
  have moved : minimal.next block symbol =
      (automaton.withinStates.next state symbol).bind (blockOf automaton.finalPartition) := by
    rw [← lookup_blockRow automaton choice uses ((yields.states block).mp known) here,
      ← yields.outgoing_eq known]
    rfl
  rw [moved]
  cases taken : automaton.withinStates.next state symbol with
  | none => exact Option.Rel.none
  | some target =>
      have into := ((next_withinStates_eq_some_iff automaton state target symbol).mp taken).2
      obtain ⟨goal, listed, inside⟩ := (covers.cover target).mp into
      rw [Option.bind_some, (blockOf_eq_some_iff covers target goal).mpr ⟨listed, inside⟩]
      exact Option.Rel.some ⟨inside, (yields.states goal).mpr listed⟩

theorem Yields.start_mem : minimal.start ∈ minimal.states ∧ automaton.start ∈ minimal.start := by
  obtain ⟨listed, member⟩ := mem_of_blockOf yields.start
  exact ⟨(yields.states minimal.start).mpr listed, member⟩

theorem Yields.mergesInto (uses : automaton.UsesAlphabet) : automaton.MergesInto minimal where
  states := yields.states
  alphabet := yields.alphabet
  start := yields.start_mem
  accepting _ _ here known := yields.isAccepting_eq known here
  rejecting block foreign := by
    rw [isAccepting, ← Bool.not_eq_true, ← Std.ExtTreeSet.mem_iff_contains]
    exact fun accepted => foreign (yields.known_of_accepts accepted)
  moves _ known _ here := yields.rel_next uses known here
  sources block symbol goal moved := by
    obtain ⟨row, stored, _⟩ := Option.bind_eq_some_iff.mp moved
    exact yields.known_of_row stored

end Yields

theorem exists_yields (known : automaton.start ∈ automaton.states) :
    ∃ minimal, automaton.minimizeWith choice = .ok minimal ∧
      automaton.Yields choice minimal := by
  have covers := covers_finalPartition automaton
  have inhabited : automaton.states.isEmpty = false :=
    (FiniteSet.isEmpty_eq_false_iff_exists _).mpr ⟨automaton.start, known⟩
  obtain ⟨start, listed, member⟩ := (covers.cover automaton.start).mp known
  have found := (blockOf_eq_some_iff covers automaton.start start).mpr ⟨listed, member⟩
  have succeeded : ∃ minimal, automaton.minimizeWith choice = .ok minimal := by
    rw [minimizeWith]
    simp only [inhabited, found]
    exact ⟨_, rfl⟩
  obtain ⟨minimal, succeeded⟩ := succeeded
  exact ⟨minimal, succeeded, yields_of_minimizeWith succeeded⟩

/-- Nothing but the start being a state is asked for. The blocks of the final partition are
then the states, and edges with symbols of the alphabet are merged. -/
theorem minimizeWith_of_start_mem (known : automaton.start ∈ automaton.states) :
    ∃ minimal, automaton.minimizeWith choice = .ok minimal ∧
      (∀ block, block ∈ minimal.states ↔ block ∈ automaton.finalPartition) ∧
      (automaton.UsesAlphabet → automaton.MergesInto minimal) := by
  obtain ⟨minimal, succeeded, yields⟩ := exists_yields automaton choice known
  exact ⟨minimal, succeeded, yields.states, yields.mergesInto⟩

/-- Minimizing succeeds for an automaton whose start is a state and whose alphabet
has the symbols of its edges. -/
theorem minimizeWith_eq_ok (known : automaton.start ∈ automaton.states)
    (uses : automaton.UsesAlphabet) :
    ∃ minimal, automaton.minimizeWith choice = .ok minimal ∧ automaton.MergesInto minimal := by
  obtain ⟨minimal, succeeded, _, merges⟩ := minimizeWith_of_start_mem automaton choice known
  exact ⟨minimal, succeeded, merges uses⟩

end Minimize

end Recognizer.Automaton
