import Recognizer.Proofs.Automaton.Simulation

/-!
What minimizing stores, for any automaton. It fails only when the start is no state.
Otherwise the new states divide the old ones into blocks that accept as a whole or not
at all, rows are kept for these blocks only, and no row is empty. Which members of the
blocks were picked makes no difference.
-/

namespace Recognizer

namespace FiniteMap

variable {κ ν : Type} [Ordered κ]

theorem tabulate_congr {value other : κ → Option ν} {keys : List κ}
    (same : ∀ key ∈ keys, value key = other key) : tabulate value keys = tabulate other keys := by
  induction keys with
  | nil => rfl
  | cons key rest ih =>
      have later := ih fun other member => same other (List.mem_cons_of_mem key member)
      simp only [tabulate, same key List.mem_cons_self, later]

theorem eq_empty_of_getElem?_eq_none {entries : FiniteMap κ ν}
    (none : ∀ key : κ, entries[key]? = none) : entries = ∅ := by
  apply Std.ExtTreeMap.ext_getElem?
  intro key
  rw [Std.ExtTreeMap.getElem?_empty, none key]

/-- Rows that are only kept when they have an entry differ in some entry. -/
theorem eq_of_lookup_eq {row other : Option (FiniteMap κ ν)}
    (kept : ∀ entries ∈ row, entries ≠ ∅) (kept' : ∀ entries ∈ other, entries ≠ ∅)
    (same : ∀ key : κ, (row.bind fun entries => entries[key]?) =
      other.bind fun entries => entries[key]?) : row = other := by
  cases row with
  | none =>
      cases other with
      | none => rfl
      | some entries =>
          have empty := eq_empty_of_getElem?_eq_none fun key => (same key).symm
          exact absurd empty (kept' entries rfl)
  | some entries =>
      cases other with
      | none => exact absurd (eq_empty_of_getElem?_eq_none same) (kept entries rfl)
      | some entries' =>
          apply congrArg some
          apply Std.ExtTreeMap.ext_getElem?
          exact same

end FiniteMap

namespace Partition

variable {σ : Type} [Ordered σ] {partition : Partition σ} {states : FiniteSet σ}

/-- The blocks in their own order cover the same states. -/
theorem Covers.toList (covers : partition.Covers states) {blocks : FiniteSet (Block σ)}
    (same : ∀ block, block ∈ blocks ↔ block ∈ partition) :
    Partition.Covers blocks.toList states where
  inhabited block listed := by
    apply covers.inhabited block
    rwa [← same, ← Std.ExtTreeSet.mem_toList]
  apart := by
    apply List.Pairwise.imp_of_mem _ (FiniteSet.nodup_toList blocks)
    intro block other listed also different state here there
    rw [Std.ExtTreeSet.mem_toList, same] at listed also
    exact different (block_unique covers listed also here there)
  cover state := by
    rw [covers.cover]
    simp only [Std.ExtTreeSet.mem_toList, same]

end Partition

namespace Automaton

variable {σ : Type} [Ordered σ]

/-- How the blocks divide the states, and what is kept of a block. -/
structure DividedInto (automaton : Automaton σ) (minimal : Automaton (Block σ)) : Prop where
  blocks : Partition.Covers minimal.states.toList automaton.states
  known : ∀ state ∈ automaton.states, ∃ block, minimal.IsBlockOf state block ∧
    blockOf minimal.states.toList state = some block
  foreign : ∀ state ∉ automaton.states, blockOf minimal.states.toList state = none
  start : blockOf minimal.states.toList automaton.start = some minimal.start
  uniform : ∀ block ∈ minimal.states,
    (∀ state ∈ block, automaton.isAccepting state = true) ∨
      ∀ state ∈ block, automaton.isAccepting state = false
  accepts : ∀ block, block ∈ minimal.accepts ↔
    block ∈ minimal.states ∧ ∀ state ∈ block, automaton.isAccepting state = true
  rows : ∀ block row, minimal.rows[block]? = some row → block ∈ minimal.states ∧ row ≠ ∅ ∧
    ∀ (symbol : Char) goal, row[symbol]? = some goal → goal ∈ minimal.states

variable (automaton : Automaton σ) (choice : Choice σ)

theorem minimizeWith_of_start_not_mem (foreign : automaton.start ∉ automaton.states) :
    automaton.minimizeWith choice =
      .error (if automaton.states.isEmpty then .noStates else .foreignStart) := by
  have covers := covers_finalPartition automaton
  have missing := (blockOf_eq_none_iff covers automaton.start).mpr foreign
  rw [minimizeWith]
  by_cases empty : automaton.states.isEmpty = true
  · rw [if_pos empty, if_pos empty]
  · rw [if_neg empty, if_neg empty]
    simp only [missing]

section Rows

variable {automaton choice} {blocks : List (Block σ)} {block : Block σ}
  {row : FiniteMap Char (Block σ)} (stored : automaton.blockRow choice blocks block = some row)

include stored

theorem blockRow_ne_empty : row ≠ ∅ := by
  unfold blockRow at stored
  split at stored
  · cases stored
  · split at stored
    · cases stored
    · dsimp only at stored
      split at stored
      · cases stored
      · next kept =>
          cases stored
          rwa [Std.ExtTreeMap.isEmpty_iff] at kept

theorem mem_of_blockRow (inhabited : ∃ state, state ∈ block) {symbol : Char} {goal : Block σ}
    (found : row[symbol]? = some goal) : goal ∈ blocks := by
  obtain ⟨representative, _, entry⟩ := getElem?_blockRow automaton choice blocks inhabited
  have moved := entry symbol
  rw [stored, Option.bind_some, found, eq_comm, Option.bind_eq_some_iff] at moved
  obtain ⟨target, _, into⟩ := moved
  exact (mem_of_blockOf into).1

end Rows

theorem Yields.dividedInto {minimal : Automaton (Block σ)}
    (yields : automaton.Yields choice minimal) : automaton.DividedInto minimal := by
  have blocks := (covers_finalPartition automaton).toList yields.states
  have found := blockOf_eq_some_iff blocks
  simp only [Std.ExtTreeSet.mem_toList] at found
  have inhabited : ∀ block ∈ minimal.states, ∃ state, state ∈ block :=
    fun block known => blocks.inhabited block (Std.ExtTreeSet.mem_toList.mpr known)
  have alike : ∀ block ∈ minimal.states, ∀ state ∈ block, ∀ other ∈ block,
      automaton.isAccepting other = automaton.isAccepting state := by
    intro block known state here other there
    rw [← yields.isAccepting_eq known here, ← yields.isAccepting_eq known there]
  constructor
  case blocks => exact blocks
  case known =>
    intro state inside
    obtain ⟨block, listed, here⟩ := (blocks.cover state).mp inside
    have known := Std.ExtTreeSet.mem_toList.mp listed
    refine ⟨block, ⟨known, here, ?_⟩, (found state block).mpr ⟨known, here⟩⟩
    intro other also there
    exact Partition.block_unique blocks (Std.ExtTreeSet.mem_toList.mpr also) listed there here
  case foreign => exact fun state => (blockOf_eq_none_iff blocks state).mpr
  case start => exact (found automaton.start minimal.start).mpr yields.start_mem
  case uniform =>
    intro block known
    obtain ⟨state, here⟩ := inhabited block known
    have same := alike block known state here
    cases accepted : automaton.isAccepting state with
    | true => exact Or.inl fun other there => (same other there).trans accepted
    | false => exact Or.inr fun other there => (same other there).trans accepted
  case accepts =>
    intro block
    rw [yields.accepts, FiniteSet.mem_filter_iff, List.any_eq_true]
    apply and_congr_right
    intro known
    constructor
    · rintro ⟨state, here, accepted⟩ other there
      rw [Std.ExtTreeSet.mem_toList] at here
      exact (alike block known state here other there).trans accepted
    · intro every
      obtain ⟨state, here⟩ := inhabited block known
      exact ⟨state, Std.ExtTreeSet.mem_toList.mpr here, every state here⟩
  case rows =>
    intro block row stored
    have known := yields.known_of_row stored
    have made := (yields.outgoing_eq known).symm.trans stored
    refine ⟨known, blockRow_ne_empty made, ?_⟩
    intro symbol goal moved
    exact (yields.states goal).mpr (mem_of_blockRow made (inhabited block known) moved)

/-- Minimizing fails just when there are no states or the start is none of them. Otherwise
every state is in one block, and acceptance and rows belong to the blocks. -/
theorem minimizeWith_divides_states :
    (∀ cause, automaton.minimizeWith choice = .error cause → cause.kind = .state) ∧
    ((∃ cause, automaton.minimizeWith choice = .error cause) ↔
      automaton.states.isEmpty = true ∨ automaton.start ∉ automaton.states) ∧
    ∀ minimal, automaton.minimizeWith choice = .ok minimal → automaton.DividedInto minimal := by
  by_cases known : automaton.start ∈ automaton.states
  · obtain ⟨minimal, succeeded, yields⟩ := exists_yields automaton choice known
    have inhabited : automaton.states.isEmpty = false :=
      (FiniteSet.isEmpty_eq_false_iff_exists _).mpr ⟨automaton.start, known⟩
    rw [succeeded]
    refine ⟨?_, ?_, ?_⟩
    · intro cause failed
      cases failed
    · simp [inhabited, known]
    · intro other same
      cases same
      exact yields.dividedInto
  · rw [minimizeWith_of_start_not_mem automaton choice known]
    refine ⟨?_, ?_, ?_⟩
    · intro cause failed
      cases failed
      split <;> rfl
    · simp [known]
    · intro minimal succeeded
      cases succeeded

/-- Two of the four states cannot be reached, and two edges lead to no state. -/
def ragged : Automaton Nat :=
  { states := FiniteSet.ofList [0, 1, 2, 3]
    alphabet := FiniteSet.ofList ['a', 'b']
    start := 0
    accepts := FiniteSet.ofList [2, 3, 9]
    rows := FiniteMap.tabulate
      (fun state => some (FiniteMap.tabulate
        (fun symbol => if symbol = 'a' then some (if state = 3 then 9 else state + 2)
          else if state = 1 then some 7 else none)
        ['a', 'b']))
      [0, 1, 3] }

theorem usesAlphabet_ragged : ragged.UsesAlphabet := by
  intro state _ symbol target moved
  obtain ⟨row, found, entry⟩ := Option.bind_eq_some_iff.mp moved
  cases ((FiniteMap.getElem?_tabulate_eq_some _ _ _ row).mp found).2
  have listed := ((FiniteMap.getElem?_tabulate_eq_some _ _ _ target).mp entry).1
  exact (FiniteSet.mem_ofList _ symbol).mpr listed

theorem ragged_is_divided :
    (∃ minimal, ragged.minimizeWith .last = .ok minimal ∧ ragged.DividedInto minimal) ∧
      ∃ cause, { ragged with start := 7 }.minimizeWith .last = .error cause ∧
        cause.kind = .state := by
  have known : (0 : Nat) ∈ ragged.states := (FiniteSet.mem_ofList _ _).mpr (by decide)
  have inhabited : ragged.states.isEmpty = false :=
    (FiniteSet.isEmpty_eq_false_iff_exists _).mpr ⟨0, known⟩
  constructor
  · obtain ⟨_, failed, divided⟩ := minimizeWith_divides_states ragged .last
    cases outcome : ragged.minimizeWith .last with
    | error cause =>
        have excluded := failed.mp ⟨cause, outcome⟩
        rw [inhabited] at excluded
        rcases excluded with empty | foreign
        · cases empty
        · exact absurd known foreign
    | ok minimal => exact ⟨minimal, rfl, divided minimal outcome⟩
  · obtain ⟨kinds, failed, _⟩ :=
      minimizeWith_divides_states { ragged with start := 7 } .last
    have foreign : (7 : Nat) ∉ ragged.states := by
      rw [ragged, FiniteSet.mem_ofList]
      decide
    obtain ⟨cause, refused⟩ := failed.mpr (Or.inr foreign)
    exact ⟨cause, refused, kinds cause refused⟩

section Representatives

variable {automaton} {choice other : Choice σ} {minimal minimal' : Automaton (Block σ)}

theorem Yields.unique (uses : automaton.UsesAlphabet) (yields : automaton.Yields choice minimal)
    (yields' : automaton.Yields other minimal') : minimal = minimal' := by
  have states : minimal.states = minimal'.states := by
    apply Std.ExtTreeSet.ext_mem
    intro block
    rw [yields.states, yields'.states]
  have alphabet : minimal.alphabet = minimal'.alphabet := by
    rw [yields.alphabet, yields'.alphabet]
  have start : minimal.start = minimal'.start :=
    Option.some.inj (yields.start.symm.trans yields'.start)
  have accepts : minimal.accepts = minimal'.accepts := by
    rw [yields.accepts, yields'.accepts, states]
  have rows : minimal.rows = minimal'.rows := by
    rw [yields.rows, yields'.rows, states]
    apply FiniteMap.tabulate_congr
    intro block listed
    rw [Std.ExtTreeSet.mem_toList, yields'.states] at listed
    obtain ⟨state, here⟩ := (covers_finalPartition automaton).inhabited block listed
    -- both rows have the moves of one state of the block, whichever was picked
    apply FiniteMap.eq_of_lookup_eq
    · exact fun row stored => blockRow_ne_empty stored
    · exact fun row stored => blockRow_ne_empty stored
    · intro symbol
      rw [lookup_blockRow automaton choice uses listed here,
        lookup_blockRow automaton other uses listed here]
  cases minimal
  cases minimal'
  cases states
  cases alphabet
  cases start
  cases accepts
  cases rows
  rfl

end Representatives

/-- Any two ways of picking members of blocks lead to the same automaton or the same error. -/
theorem representatives_make_no_difference (uses : automaton.UsesAlphabet)
    (other : Choice σ) : automaton.minimizeWith choice = automaton.minimizeWith other := by
  by_cases known : automaton.start ∈ automaton.states
  · obtain ⟨minimal, succeeded, yields⟩ := exists_yields automaton choice known
    obtain ⟨minimal', succeeded', yields'⟩ := exists_yields automaton other known
    rw [succeeded, succeeded', yields.unique uses yields']
  · rw [minimizeWith_of_start_not_mem automaton choice known,
      minimizeWith_of_start_not_mem automaton other known]

/-- The states 0 and 1 have different rows, and each choice reads another one. -/
theorem ragged_rows_make_no_difference :
    ragged.UsesAlphabet ∧ ragged.outgoing 0 ≠ ragged.outgoing 1 ∧
      Choice.first.pick 0 [1] = 0 ∧ Choice.last.pick 0 [1] = 1 ∧
      ragged.minimizeWith .first = ragged.minimizeWith .last := by
  have different : ragged.next 0 'b' ≠ ragged.next 1 'b' := by decide
  refine ⟨usesAlphabet_ragged, ?_, rfl, rfl,
    representatives_make_no_difference ragged .first usesAlphabet_ragged .last⟩
  intro same
  exact different (congrArg (fun row => row.bind fun targets => targets['b']?) same)

end Automaton

end Recognizer
