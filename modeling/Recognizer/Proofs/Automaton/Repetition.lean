import Recognizer.Proofs.Automaton.Blocks
import Recognizer.Proofs.Automaton.Residuals
import Recognizer.Proofs.Automaton.Rounds

/-!
Minimizing again. The blocks of a minimal automaton are all told apart, so another round
puts each of them into a block of its own and keeps everything else. New names in the
order of the old ones leave the table of an automaton as it is, so the table of a minimal
automaton stays the same however often it is minimized.
-/

namespace Recognizer

namespace Automaton

section Renames

variable {σ τ : Type} [Ordered σ] [Ordered τ] {automaton : Automaton σ} {other : Automaton τ}
  {rename : σ → τ} (renames : Renames rename automaton other)
  (ordered : ∀ state later, compare (rename state) (rename later) = compare state later)

include renames ordered

theorem Renames.numbering_eq : other.numbering = automaton.numbering.map rename := by
  rw [numbering, numbering, List.map_cons, renames.start]
  apply congrArg (other.start :: ·)
  apply FiniteSet.toList_eq_of_ascending
  · rw [List.pairwise_map]
    apply List.Pairwise.imp _ Std.ExtTreeSet.ordered_toList
    intro state later less
    rw [ordered, less]
  · intro partner
    rw [List.mem_map, Std.ExtTreeSet.mem_erase, ← renames.start]
    constructor
    · rintro ⟨state, listed, rfl⟩
      rw [Std.ExtTreeSet.mem_toList, Std.ExtTreeSet.mem_erase] at listed
      rw [ordered]
      exact ⟨listed.1, renames.states.mapsTo listed.2⟩
    · rintro ⟨different, also⟩
      obtain ⟨state, known, rfl⟩ := renames.states.surjOn also
      rw [ordered] at different
      refine ⟨state, ?_, rfl⟩
      rw [Std.ExtTreeSet.mem_toList, Std.ExtTreeSet.mem_erase]
      exact ⟨different, known⟩

theorem Renames.number_eq {state : σ} (listed : state ∈ automaton.numbering) :
    other.number (rename state) = automaton.number state := by
  obtain ⟨index, found⟩ := List.mem_iff_getElem?.mp listed
  rw [(number_eq_some_iff automaton state index).mpr found, number_eq_some_iff,
    renames.numbering_eq ordered, List.getElem?_map, found]
  rfl

theorem Renames.ofAutomaton_eq (contained : automaton.SelfContained) :
    Table.ofAutomaton other = Table.ofAutomaton automaton := by
  have states : ∀ state ∈ automaton.numbering, state ∈ automaton.states := by
    intro state listed
    rcases (mem_numbering_iff automaton state).mp listed with same | known
    · rw [same]
      exact contained.start
    · exact known
  have accepting : other.numbering.map other.isAccepting =
      automaton.numbering.map automaton.isAccepting := by
    rw [renames.numbering_eq ordered, List.map_map]
    apply List.map_congr_left
    intro state listed
    exact (renames.accepting state (states state listed)).symm
  have next : (other.numbering.flatMap fun state => other.alphabet.toList.map fun symbol =>
        (other.next state symbol).bind other.number) =
      automaton.numbering.flatMap fun state => automaton.alphabet.toList.map fun symbol =>
        (automaton.next state symbol).bind automaton.number := by
    rw [renames.numbering_eq ordered, ← renames.alphabet, List.flatMap_map]
    apply List.flatMap_congr
    intro state listed
    apply List.map_congr_left
    intro symbol _
    rw [← renames.moves state (states state listed) symbol]
    cases moved : automaton.next state symbol with
    | none => rfl
    | some target =>
        have into := contained.closed state (states state listed) symbol target moved
        exact renames.number_eq ordered ((mem_numbering_iff automaton target).mpr (Or.inr into))
  rw [Table.ofAutomaton, Table.ofAutomaton, accepting, next, renames.alphabet]

end Renames

variable {σ : Type} [Ordered σ]

/-- Any two states are told apart. -/
def Reduced (automaton : Automaton σ) : Prop :=
  ∀ state other, automaton.finalPartition.Together state other → state = other

/-- States of blocks that are not told apart. -/
def Matched (minimal : Automaton (Block σ)) (state other : σ) : Prop :=
  ∃ block partner, minimal.finalPartition.Together block partner ∧
    state ∈ block ∧ other ∈ partner

section Minimal

variable {automaton : Automaton σ} {minimal : Automaton (Block σ)}

/-- Matched states go to matched states, for the moves of the blocks are those of their states. -/
theorem MergesInto.rel_next_of_matched (merges : automaton.MergesInto minimal) {state other : σ}
    (matched : minimal.Matched state other) {symbol : Char} (known : symbol ∈ automaton.alphabet) :
    Option.Rel minimal.Matched (automaton.withinStates.next state symbol)
      (automaton.withinStates.next other symbol) := by
  obtain ⟨block, partner, together, here, there⟩ := matched
  obtain ⟨inside, also⟩ := known_of_together minimal together
  have related := stable_finalPartition minimal block partner together symbol
    (merges.alphabet ▸ known)
  rw [next_withinStates_of_closed minimal merges.closed inside,
    next_withinStates_of_closed minimal merges.closed also] at related
  have moved := merges.moves block inside state here symbol
  have moved' := merges.moves partner also other there symbol
  generalize minimal.next block symbol = goal at related moved
  generalize minimal.next partner symbol = goal' at related moved'
  generalize automaton.withinStates.next state symbol = target at moved ⊢
  generalize automaton.withinStates.next other symbol = target' at moved' ⊢
  cases related with
  | none =>
      cases moved
      cases moved'
      exact Option.Rel.none
  | some still =>
      cases moved with
      | some into =>
          cases moved' with
          | some into' => exact Option.Rel.some ⟨_, _, still, into.1, into'.1⟩

theorem MergesInto.reduced (merges : automaton.MergesInto minimal) : minimal.Reduced := by
  intro block partner together
  obtain ⟨inside, also⟩ := known_of_together minimal together
  obtain ⟨state, here⟩ := merges.exists_mem inside
  obtain ⟨other, there⟩ := merges.exists_mem also
  have matched : automaton.finalPartition.Together state other := by
    apply together_of_matched automaton minimal.Matched
    · rintro state other ⟨block, partner, together, here, there⟩
      obtain ⟨inside, also⟩ := known_of_together minimal together
      exact ⟨merges.known_of_mem inside here, merges.known_of_mem also there⟩
    · rintro state other ⟨block, partner, together, here, there⟩
      obtain ⟨inside, also⟩ := known_of_together minimal together
      rw [← merges.accepting block state here inside, ← merges.accepting partner other there also]
      exact accepting_of_together minimal together
    · exact fun _ _ matched _ known => merges.rel_next_of_matched matched known
    · exact ⟨block, partner, together, here, there⟩
  -- the two states share a block, and there is only one block for each of them
  obtain ⟨shared, isBlock, first, second⟩ := matched
  have covers := covers_finalPartition automaton
  have same := Partition.block_unique covers ((merges.states block).mp inside) isBlock here first
  exact same.trans
    (Partition.block_unique covers ((merges.states partner).mp also) isBlock there second).symm

section Reduced

variable (reduced : automaton.Reduced) (merges : automaton.MergesInto minimal)

include reduced merges

theorem Reduced.eq_singleton {block : Block σ} (known : block ∈ minimal.states) {state : σ}
    (here : state ∈ block) : block = {state} := by
  apply Std.ExtTreeSet.ext_mem
  intro other
  rw [FiniteSet.mem_singleton_iff]
  constructor
  · exact fun there => reduced other state ⟨block, (merges.states block).mp known, there, here⟩
  · intro same
    rwa [same]

theorem Reduced.mem_states_iff (block : Block σ) :
    block ∈ minimal.states ↔ ∃ state ∈ automaton.states, block = {state} := by
  constructor
  · intro known
    obtain ⟨state, here⟩ := merges.exists_mem known
    exact ⟨state, merges.known_of_mem known here, reduced.eq_singleton merges known here⟩
  · rintro ⟨state, inside, rfl⟩
    obtain ⟨block, listed, here⟩ := ((covers_finalPartition automaton).cover state).mp inside
    have known := (merges.states block).mpr listed
    rwa [reduced.eq_singleton merges known here] at known

theorem Reduced.renames (closed : automaton.Closed) :
    Renames (fun state => ({state} : Block σ)) automaton minimal where
  alphabet := merges.alphabet.symm
  states := by
    refine ⟨?_, ?_, ?_⟩
    · exact fun state known => (reduced.mem_states_iff merges {state}).mpr ⟨state, known, rfl⟩
    · intro state _ other _ same
      have member : state ∈ ({state} : Block σ) := (FiniteSet.mem_singleton_iff _ _).mpr rfl
      have same : ({state} : Block σ) = {other} := same
      rwa [same, FiniteSet.mem_singleton_iff] at member
    · intro block known
      obtain ⟨state, inside, same⟩ := (reduced.mem_states_iff merges block).mp known
      exact ⟨state, inside, same.symm⟩
  start := (reduced.eq_singleton merges merges.start.1 merges.start.2).symm
  accepting state known := by
    have also := (reduced.mem_states_iff merges {state}).mpr ⟨state, known, rfl⟩
    exact (merges.accepting {state} state ((FiniteSet.mem_singleton_iff _ _).mpr rfl) also).symm
  moves state known symbol := by
    have also := (reduced.mem_states_iff merges {state}).mpr ⟨state, known, rfl⟩
    have moved := merges.moves {state} also state ((FiniteSet.mem_singleton_iff _ _).mpr rfl) symbol
    rw [next_withinStates_of_closed automaton closed known] at moved
    generalize automaton.next state symbol = target at moved ⊢
    generalize minimal.next {state} symbol = goal at moved ⊢
    cases moved with
    | none => rfl
    | some into => exact congrArg some (reduced.eq_singleton merges into.2 into.1).symm

/-- An automaton without states to merge has the table of its minimal automaton. -/
theorem Reduced.ofAutomaton_eq (contained : automaton.SelfContained) :
    Table.ofAutomaton minimal = Table.ofAutomaton automaton :=
  (reduced.renames merges contained.closed).ofAutomaton_eq FiniteSet.compare_singleton contained

end Reduced

end Minimal

/-- Every state is put into a block of its own, in the same order, and nothing else is
added or lost. -/
structure Wraps (twice : Automaton (Block σ)) (automaton : Automaton σ) : Prop where
  states : ∀ block, block ∈ twice.states ↔ ∃ state ∈ automaton.states, block = {state}
  ordered : ∀ state ∈ automaton.states, ∀ later ∈ automaton.states,
    compare ({state} : Block σ) ({later} : Block σ) = compare state later
  alphabet : twice.alphabet = automaton.alphabet
  start : twice.start = {automaton.start}
  accepts : ∀ block, block ∈ twice.accepts ↔ ∃ state ∈ automaton.accepts, block = {state}
  edges : ∀ block symbol goal, twice.next block symbol = some goal ↔
    ∃ state target, automaton.next state symbol = some target ∧ block = {state} ∧ goal = {target}

theorem MergesInto.known_of_accepts {automaton : Automaton σ} {minimal : Automaton (Block σ)}
    (merges : automaton.MergesInto minimal) {block : Block σ}
    (accepted : block ∈ minimal.accepts) : block ∈ minimal.states := by
  by_contra foreign
  have rejected := merges.rejecting block foreign
  rw [isAccepting, Std.ExtTreeSet.mem_iff_contains.mp accepted] at rejected
  cases rejected

/-- Without states to merge, and with nothing stored for what is no state, each state is
only put into a block. -/
theorem Reduced.wraps {automaton : Automaton σ} {minimal : Automaton (Block σ)}
    (reduced : automaton.Reduced) (merges : automaton.MergesInto minimal)
    (closed : automaton.Closed)
    (accepting : ∀ state ∈ automaton.accepts, state ∈ automaton.states)
    (sources : ∀ state symbol target,
      automaton.next state symbol = some target → state ∈ automaton.states) :
    minimal.Wraps automaton := by
  have renames := reduced.renames merges closed
  have states := reduced.mem_states_iff merges
  constructor
  case states => exact states
  case ordered => exact fun state _ later _ => FiniteSet.compare_singleton state later
  case alphabet => exact merges.alphabet
  case start => exact renames.start.symm
  case accepts =>
    intro block
    constructor
    · intro accepted
      obtain ⟨state, known, rfl⟩ := (states block).mp (merges.known_of_accepts accepted)
      refine ⟨state, ?_, rfl⟩
      rw [Std.ExtTreeSet.mem_iff_contains] at accepted ⊢
      exact (renames.accepting state known).trans accepted
    · rintro ⟨state, accepted, rfl⟩
      have known := accepting state accepted
      rw [Std.ExtTreeSet.mem_iff_contains] at accepted ⊢
      exact (renames.accepting state known).symm.trans accepted
  case edges =>
    intro block symbol goal
    constructor
    · intro moved
      obtain ⟨state, known, rfl⟩ := (states block).mp (merges.sources block symbol goal moved)
      rw [← renames.moves state known symbol, Option.map_eq_some_iff] at moved
      obtain ⟨target, taken, same⟩ := moved
      exact ⟨state, target, taken, rfl, same.symm⟩
    · rintro ⟨state, target, taken, rfl, rfl⟩
      rw [← renames.moves state (sources state symbol target taken) symbol, taken]
      rfl

theorem MergesInto.wraps {automaton : Automaton σ} {minimal : Automaton (Block σ)}
    {twice : Automaton (Block (Block σ))} (merges : automaton.MergesInto minimal)
    (again : minimal.MergesInto twice) : twice.Wraps minimal :=
  merges.reduced.wraps again merges.closed (fun _ => merges.known_of_accepts) merges.sources

/-- An automaton with the type of its states, which minimizing changes. -/
structure Stage where
  State : Type
  ordered : Ordered State
  automaton : Automaton State

namespace Stage

attribute [instance] Stage.ordered

def minimize (stage : Stage) : Except Cause Stage :=
  match stage.automaton.minimize with
  | .error cause => .error cause
  | .ok minimal => .ok ⟨Block stage.State, inferInstance, minimal⟩

def after (stage : Stage) : Nat → Except Cause Stage
  | 0 => .ok stage
  | rounds + 1 =>
      match stage.after rounds with
      | .error cause => .error cause
      | .ok later => later.minimize

theorem exists_minimize {stage : Stage} (contained : stage.automaton.SelfContained)
    (reduced : stage.automaton.Reduced) :
    ∃ later, stage.minimize = .ok later ∧ later.automaton.SelfContained ∧
      later.automaton.Reduced ∧
      Table.ofAutomaton later.automaton = Table.ofAutomaton stage.automaton := by
  obtain ⟨minimal, succeeded, merges⟩ :=
    minimizeWith_eq_ok stage.automaton .first contained.start contained.uses
  refine ⟨⟨Block stage.State, inferInstance, minimal⟩, ?_, merges.selfContained contained.uses,
    merges.reduced, reduced.ofAutomaton_eq merges contained⟩
  rw [minimize, Automaton.minimize, succeeded]

theorem exists_after (stage : Stage) (contained : stage.automaton.SelfContained)
    (reduced : stage.automaton.Reduced) (rounds : Nat) :
    ∃ later, stage.after rounds = .ok later ∧ later.automaton.SelfContained ∧
      later.automaton.Reduced ∧
      Table.ofAutomaton later.automaton = Table.ofAutomaton stage.automaton := by
  induction rounds with
  | zero => exact ⟨stage, rfl, contained, reduced, rfl⟩
  | succ rounds ih =>
      obtain ⟨earlier, found, inside, apart, same⟩ := ih
      obtain ⟨later, succeeded, inside', apart', same'⟩ := exists_minimize inside apart
      refine ⟨later, ?_, inside', apart', same'.trans same⟩
      rw [after, found]
      exact succeeded

end Stage

/-- A second round only puts the blocks of the first one into blocks, and no further round
changes the table. An automaton without states to merge has the table of its minimal one. -/
theorem minimizing_again_keeps_table (automaton : Automaton σ)
    (known : automaton.start ∈ automaton.states) (uses : automaton.UsesAlphabet) :
    (∃ minimal twice, automaton.minimize = .ok minimal ∧ minimal.minimize = .ok twice ∧
      twice.Wraps minimal ∧ Table.ofAutomaton twice = Table.ofAutomaton minimal ∧
      ∀ rounds, ∃ later, (Stage.mk (Block σ) inferInstance minimal).after rounds = .ok later ∧
        Table.ofAutomaton later.automaton = Table.ofAutomaton minimal) ∧
    (automaton.Closed → ∀ minimal, automaton.minimize = .ok minimal →
      (∀ block ∈ minimal.states, ∀ state ∈ block, ∀ other ∈ block, state = other) →
        Table.ofAutomaton minimal = Table.ofAutomaton automaton) := by
  obtain ⟨minimal, succeeded, merges⟩ := minimizeWith_eq_ok automaton .first known uses
  constructor
  · have contained := merges.selfContained uses
    obtain ⟨twice, repeated, again⟩ :=
      minimizeWith_eq_ok minimal .first contained.start contained.uses
    refine ⟨minimal, twice, succeeded, repeated, merges.wraps again,
      merges.reduced.ofAutomaton_eq again contained, fun rounds => ?_⟩
    obtain ⟨later, found, _, _, same⟩ :=
      Stage.exists_after ⟨Block σ, inferInstance, minimal⟩ contained merges.reduced rounds
    exact ⟨later, found, same⟩
  · intro closed other succeeded' single
    cases succeeded.symm.trans succeeded'
    have reduced : automaton.Reduced := by
      rintro state other ⟨block, listed, here, there⟩
      exact single block ((merges.states block).mpr listed) state here other there
    exact reduced.ofAutomaton_eq merges ⟨known, uses, closed⟩

/-- Two states that take turns. It starts in the later one, and 9 is accepting without
being a state. -/
def toggle : Automaton Nat :=
  { states := FiniteSet.ofList [0, 1]
    alphabet := {'a'}
    start := 1
    accepts := FiniteSet.ofList [1, 9]
    rows := FiniteMap.tabulate
      (fun state => some (FiniteMap.tabulate (fun _ => some (1 - state)) ['a'])) [0, 1] }

theorem tables_of_ragged_and_toggle :
    (∃ minimal twice, ragged.minimize = .ok minimal ∧ minimal.minimize = .ok twice ∧
      twice.Wraps minimal ∧ Table.ofAutomaton twice = Table.ofAutomaton minimal) ∧
    ∃ minimal, toggle.minimize = .ok minimal ∧
      Table.ofAutomaton minimal = Table.ofAutomaton toggle := by
  constructor
  · have known : (0 : Nat) ∈ ragged.states := (FiniteSet.mem_ofList _ _).mpr (by decide)
    obtain ⟨minimal, twice, succeeded, repeated, wraps, same, _⟩ :=
      (minimizing_again_keeps_table ragged known usesAlphabet_ragged).1
    exact ⟨minimal, twice, succeeded, repeated, wraps, same⟩
  · have states : ∀ state, state ∈ toggle.states ↔ state = 0 ∨ state = 1 := by
      intro state
      rw [toggle, FiniteSet.mem_ofList]
      simp
    have moves : ∀ state symbol target, toggle.next state symbol = some target →
        symbol = 'a' ∧ target = 1 - state := by
      intro state symbol target moved
      obtain ⟨row, found, entry⟩ := Option.bind_eq_some_iff.mp moved
      cases ((FiniteMap.getElem?_tabulate_eq_some _ _ _ row).mp found).2
      obtain ⟨listed, taken⟩ := (FiniteMap.getElem?_tabulate_eq_some _ _ _ target).mp entry
      exact ⟨List.mem_singleton.mp listed, (Option.some.inj taken).symm⟩
    have known : (1 : Nat) ∈ toggle.states := (states 1).mpr (Or.inr rfl)
    have uses : toggle.UsesAlphabet := by
      intro state _ symbol target moved
      exact (FiniteSet.mem_singleton_iff symbol 'a').mpr (moves state symbol target moved).1
    have closed : toggle.Closed := by
      intro state _ symbol target moved
      rw [states, (moves state symbol target moved).2]
      omega
    obtain ⟨minimal, succeeded, merges⟩ := minimizeWith_eq_ok toggle .first known uses
    refine ⟨minimal, succeeded,
      (minimizing_again_keeps_table toggle known uses).2 closed minimal succeeded ?_⟩
    intro block inside state here other there
    have alike : toggle.isAccepting state = toggle.isAccepting other := by
      rw [← merges.accepting block state here inside, merges.accepting block other there inside]
    -- only one of the two states accepts
    have accepting : toggle.isAccepting 0 = false ∧ toggle.isAccepting 1 = true := by decide
    have first := (states state).mp (merges.known_of_mem inside here)
    have second := (states other).mp (merges.known_of_mem inside there)
    rcases first with rfl | rfl
    · rcases second with rfl | rfl
      · rfl
      · rw [accepting.1, accepting.2] at alike
        cases alike
    · rcases second with rfl | rfl
      · rw [accepting.1, accepting.2] at alike
        cases alike
      · rfl

end Automaton

end Recognizer
