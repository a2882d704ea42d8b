import Recognizer.Automaton.Refinement
import Recognizer.Proofs.Automaton.Runs

/-!
One round of telling states apart. A partition is a list of disjoint blocks that
cover the states. Two states stay together in a round when they were together and
each symbol takes them to one block, or takes neither of them to a state.
-/

namespace Recognizer

namespace Partition

variable {σ : Type} [Ordered σ]

structure Covers (partition : Partition σ) (states : FiniteSet σ) : Prop where
  inhabited : ∀ block ∈ partition, ∃ state, state ∈ block
  apart : partition.Pairwise fun block other => ∀ state, state ∈ block → state ∉ other
  cover : ∀ state, state ∈ states ↔ ∃ block ∈ partition, state ∈ block

/-- One block holds both states. -/
def Together (partition : Partition σ) (state other : σ) : Prop :=
  ∃ block ∈ partition, state ∈ block ∧ other ∈ block

theorem Together.symm {partition : Partition σ} {state other : σ}
    (together : partition.Together state other) : partition.Together other state :=
  let ⟨block, listed, here, there⟩ := together
  ⟨block, listed, there, here⟩

section Covers

variable {partition : Partition σ} {states : FiniteSet σ} (covers : partition.Covers states)

include covers

theorem block_unique {block other : Block σ} (listed : block ∈ partition)
    (also : other ∈ partition) {state : σ} (here : state ∈ block) (there : state ∈ other) :
    block = other := by
  have symmetric : Std.Symm fun block other : Block σ => ∀ state, state ∈ block → state ∉ other :=
    ⟨fun _ _ apart state here there => apart state there here⟩
  by_contra different
  exact covers.apart.forall listed also different state here there

theorem blockIndex_eq_some_iff (state : σ) (index : Nat) :
    partition.blockIndex state = some index ↔
      ∃ block, partition[index]? = some block ∧ state ∈ block := by
  rw [blockIndex, List.findIdx?_eq_some_iff_getElem]
  constructor
  · rintro ⟨inside, member, _⟩
    exact ⟨partition[index], List.getElem?_eq_getElem inside,
      Std.ExtTreeSet.mem_iff_contains.mpr member⟩
  · rintro ⟨block, at_index, member⟩
    obtain ⟨inside, rfl⟩ := List.getElem?_eq_some_iff.mp at_index
    refine ⟨inside, Std.ExtTreeSet.mem_iff_contains.mp member, fun earlier before held => ?_⟩
    exact (List.pairwise_iff_getElem.mp covers.apart earlier index (by omega) inside before)
      state (Std.ExtTreeSet.mem_iff_contains.mpr held) member

theorem blockIndex_eq_none_iff (state : σ) :
    partition.blockIndex state = none ↔ state ∉ states := by
  rw [blockIndex, List.findIdx?_eq_none_iff, covers.cover]
  simp only [not_exists, not_and, ← Bool.not_eq_true, ← Std.ExtTreeSet.mem_iff_contains]

theorem blockIndex_eq_iff {state other : σ} (known : state ∈ states) :
    partition.blockIndex state = partition.blockIndex other ↔
      partition.Together state other := by
  constructor
  · intro same
    cases found : partition.blockIndex state with
    | none => exact absurd known ((blockIndex_eq_none_iff covers state).mp found)
    | some index =>
        obtain ⟨block, listed, here⟩ := (blockIndex_eq_some_iff covers state index).mp found
        obtain ⟨_, again, there⟩ :=
          (blockIndex_eq_some_iff covers other index).mp (same ▸ found)
        rw [listed] at again
        cases again
        exact ⟨block, List.mem_of_getElem? listed, here, there⟩
  · rintro ⟨block, listed, here, there⟩
    obtain ⟨index, at_index⟩ := List.mem_iff_getElem?.mp listed
    rw [(blockIndex_eq_some_iff covers state index).mpr ⟨block, at_index, here⟩,
      (blockIndex_eq_some_iff covers other index).mpr ⟨block, at_index, there⟩]

end Covers

end Partition

namespace Automaton

open Recognizer.Partition

variable {σ : Type} [Ordered σ] (automaton : Automaton σ) {partition : Partition σ}

theorem behaviour_eq_iff (state other : σ) :
    automaton.behaviour partition state = automaton.behaviour partition other ↔
      ∀ symbol ∈ automaton.alphabet,
        (automaton.next state symbol).bind partition.blockIndex =
          (automaton.next other symbol).bind partition.blockIndex := by
  rw [behaviour, behaviour, List.map_inj_left]
  simp only [Std.ExtTreeSet.mem_toList]
  rfl

theorem mem_group_iff (block : Block σ) (behaviour : List (Option Nat)) (state : σ) :
    state ∈ FiniteSet.ofList (((block.toList.map fun state =>
        (automaton.behaviour partition state, state)).filter
          fun entry => entry.1 = behaviour).map Prod.snd) ↔
      state ∈ block ∧ automaton.behaviour partition state = behaviour := by
  rw [FiniteSet.mem_ofList]
  simp [and_comm]

/-- A group is made of the states of a block that behave as one of them does. -/
theorem mem_split_iff (block group : Block σ) :
    group ∈ automaton.split partition block ↔
      ∃ model ∈ block, ∀ state, state ∈ group ↔
        state ∈ block ∧
          automaton.behaviour partition state = automaton.behaviour partition model := by
  simp only [split, List.mem_map, Std.ExtTreeSet.mem_toList, FiniteSet.mem_ofList, List.map_map]
  constructor
  · rintro ⟨_, ⟨model, inside, rfl⟩, rfl⟩
    exact ⟨model, inside, mem_group_iff automaton block _⟩
  · rintro ⟨model, inside, members⟩
    refine ⟨_, ⟨model, inside, rfl⟩, Std.ExtTreeSet.ext_mem fun state => ?_⟩
    exact (mem_group_iff automaton block _ state).trans (members state).symm

theorem exists_group (partition : Partition σ) {block : Block σ} {state : σ}
    (member : state ∈ block) :
    ∃ group ∈ automaton.split partition block, ∀ other, other ∈ group ↔
      other ∈ block ∧
        automaton.behaviour partition other = automaton.behaviour partition state := by
  have members := fun other => FiniteSet.mem_filter_iff block
    (fun other => decide (automaton.behaviour partition other =
      automaton.behaviour partition state)) other
  simp only [decide_eq_true_eq] at members
  exact ⟨_, (mem_split_iff automaton block _).mpr ⟨state, member, members⟩, members⟩

theorem split_apart (block : Block σ) :
    (automaton.split partition block).Pairwise fun group other =>
      ∀ state, state ∈ group → state ∉ other := by
  rw [split, List.pairwise_map]
  refine (FiniteSet.nodup_toList _).imp fun different state here there => different ?_
  exact ((mem_group_iff automaton block _ state).mp here).2.symm.trans
    ((mem_group_iff automaton block _ state).mp there).2

variable (covers : partition.Covers automaton.states)

include covers

theorem covers_refineOnce : (automaton.refineOnce partition).Covers automaton.states where
  inhabited group listed := by
    obtain ⟨block, _, isGroup⟩ := List.mem_flatMap.mp listed
    obtain ⟨model, inside, members⟩ := (mem_split_iff automaton block group).mp isGroup
    exact ⟨model, (members model).mpr ⟨inside, rfl⟩⟩
  apart := by
    rw [refineOnce, List.pairwise_flatMap]
    refine ⟨fun block _ => split_apart automaton block, covers.apart.imp ?_⟩
    intro block other apart group isGroup group' isOther state here there
    obtain ⟨_, _, members⟩ := (mem_split_iff automaton block group).mp isGroup
    obtain ⟨_, _, members'⟩ := (mem_split_iff automaton other group').mp isOther
    exact apart state ((members state).mp here).1 ((members' state).mp there).1
  cover state := by
    rw [covers.cover]
    constructor
    · rintro ⟨block, listed, member⟩
      obtain ⟨group, grouped, members⟩ := exists_group automaton partition member
      exact ⟨group, List.mem_flatMap.mpr ⟨block, listed, grouped⟩,
        (members state).mpr ⟨member, rfl⟩⟩
    · rintro ⟨group, listed, member⟩
      obtain ⟨block, isBlock, isGroup⟩ := List.mem_flatMap.mp listed
      obtain ⟨_, _, members⟩ := (mem_split_iff automaton block group).mp isGroup
      exact ⟨block, isBlock, ((members state).mp member).1⟩

theorem together_refineOnce (state other : σ) :
    (automaton.refineOnce partition).Together state other ↔
      partition.Together state other ∧
        automaton.behaviour partition state = automaton.behaviour partition other := by
  constructor
  · rintro ⟨group, listed, here, there⟩
    obtain ⟨block, isBlock, isGroup⟩ := List.mem_flatMap.mp listed
    obtain ⟨model, _, members⟩ := (mem_split_iff automaton block group).mp isGroup
    obtain ⟨inState, alike⟩ := (members state).mp here
    obtain ⟨inOther, likewise⟩ := (members other).mp there
    exact ⟨⟨block, isBlock, inState, inOther⟩, alike.trans likewise.symm⟩
  · rintro ⟨⟨block, listed, inState, inOther⟩, alike⟩
    have known := (covers.cover state).mpr ⟨block, listed, inState⟩
    obtain ⟨group, isListed, here⟩ := ((covers_refineOnce automaton covers).cover state).mp known
    obtain ⟨parent, isBlock, isGroup⟩ := List.mem_flatMap.mp isListed
    obtain ⟨model, _, members⟩ := (mem_split_iff automaton parent group).mp isGroup
    obtain ⟨inParent, likewise⟩ := (members state).mp here
    have same := block_unique covers isBlock listed inParent inState
    exact ⟨group, isListed, here, (members other).mpr ⟨same ▸ inOther, alike ▸ likewise⟩⟩

/-- What one round keeps together. -/
theorem together_refineOnce_iff (state other : σ) :
    (automaton.refineOnce partition).Together state other ↔
      partition.Together state other ∧ ∀ symbol ∈ automaton.alphabet,
        Option.Rel partition.Together (automaton.withinStates.next state symbol)
          (automaton.withinStates.next other symbol) := by
  rw [together_refineOnce automaton covers, behaviour_eq_iff]
  refine and_congr_right fun _ => forall₂_congr fun symbol _ => ?_
  have outside := fun target => (blockIndex_eq_none_iff covers target).mpr
  rw [bind_next_withinStates automaton outside, bind_next_withinStates automaton outside]
  have inside := fun state target =>
    (automaton.next_withinStates_eq_some_iff state target symbol).mp
  -- within the states a move always has an index, so a missing one has no equal
  cases here : automaton.withinStates.next state symbol with
  | none =>
      cases there : automaton.withinStates.next other symbol with
      | none => simp
      | some target =>
          have indexed := (blockIndex_eq_none_iff covers target).not_left.mpr (inside _ _ there).2
          rw [Option.bind_none, Option.bind_some]
          exact iff_of_false (fun same => indexed same.symm) Option.not_rel_none_some
  | some source =>
      have known := (inside _ _ here).2
      cases there : automaton.withinStates.next other symbol with
      | none =>
          have indexed := (blockIndex_eq_none_iff covers source).not_left.mpr known
          rw [Option.bind_none, Option.bind_some]
          exact iff_of_false indexed Option.not_rel_some_none
      | some target =>
          rw [Option.bind_some, Option.bind_some, Option.rel_some_some,
            blockIndex_eq_iff covers known]

end Automaton

end Recognizer
