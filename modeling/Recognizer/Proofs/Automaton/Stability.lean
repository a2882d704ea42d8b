import Mathlib.Data.List.Perm.Subperm
import Recognizer.Proofs.Automaton.Partition

/-!
The rounds come to an end. A round never has fewer blocks than the one before, one
with as many blocks splits nothing, and there are no more blocks than states. What
is left is the coarsest partition that tells accepting states from the others and
whose blocks are moved as a whole.
-/

namespace Recognizer

namespace Partition

theorem length_le_length_flatMap {α β : Type} (parts : List α) (pieces : α → List β)
    (inhabited : ∀ part ∈ parts, pieces part ≠ []) :
    parts.length ≤ (parts.flatMap pieces).length ∧
      ((parts.flatMap pieces).length = parts.length →
        ∀ part ∈ parts, (pieces part).length = 1) := by
  -- both at once: a part with two pieces could only be made up for by an empty one
  induction parts with
  | nil => simp
  | cons part parts ih =>
      obtain ⟨grows, exact_⟩ := ih fun other member =>
        inhabited other (List.mem_cons_of_mem _ member)
      have some := List.length_pos_of_ne_nil (inhabited part List.mem_cons_self)
      rw [List.flatMap_cons, List.length_append, List.length_cons]
      refine ⟨by omega, fun same other member => ?_⟩
      rcases List.mem_cons.mp member with here | later
      · rw [here]
        omega
      · exact exact_ (by omega) other later

variable {σ : Type} [Ordered σ] {partition : Partition σ} {states : FiniteSet σ}

theorem length_le_size (covers : partition.Covers states) : partition.length ≤ states.size := by
  have inhabited : ∀ block ∈ partition, block.toList ≠ [] := by
    intro block listed empty
    obtain ⟨state, member⟩ := covers.inhabited block listed
    rw [← Std.ExtTreeSet.mem_toList, empty] at member
    exact absurd member List.not_mem_nil
  have once : (partition.flatMap fun block => block.toList).Nodup := by
    rw [List.Nodup, List.pairwise_flatMap]
    refine ⟨fun block _ => block.nodup_toList, covers.apart.imp ?_⟩
    rintro block other apart state here _ there rfl
    exact apart state (Std.ExtTreeSet.mem_toList.mp here) (Std.ExtTreeSet.mem_toList.mp there)
  have among : (partition.flatMap fun block => block.toList) ⊆ states.toList := by
    intro state member
    obtain ⟨block, listed, here⟩ := List.mem_flatMap.mp member
    exact Std.ExtTreeSet.mem_toList.mpr
      ((covers.cover state).mpr ⟨block, listed, Std.ExtTreeSet.mem_toList.mp here⟩)
  calc partition.length
      ≤ (partition.flatMap fun block => block.toList).length :=
        (length_le_length_flatMap partition _ inhabited).1
    _ ≤ states.toList.length := (once.subperm among).length_le
    _ = states.size := Std.ExtTreeSet.length_toList

end Partition

namespace Automaton

open Recognizer.Partition

variable {σ : Type} [Ordered σ] (automaton : Automaton σ)

/-- States of one block go to one block, or neither of them goes to a state. -/
def Stable (partition : Partition σ) : Prop :=
  ∀ state other, partition.Together state other → ∀ symbol ∈ automaton.alphabet,
    Option.Rel partition.Together (automaton.withinStates.next state symbol)
      (automaton.withinStates.next other symbol)

section Initial

theorem mem_initialPartition_iff (block : Block σ) :
    block ∈ automaton.initialPartition ↔ (∃ state, state ∈ block) ∧
      ∃ accepting : Bool, ∀ state, state ∈ block ↔
        state ∈ automaton.states ∧ automaton.isAccepting state = accepting := by
  rw [initialPartition, List.mem_filter, Bool.not_eq_true',
    FiniteSet.isEmpty_eq_false_iff_exists, and_comm, List.mem_pair]
  refine and_congr_right fun _ => ?_
  constructor
  · rintro (rfl | rfl)
    · exact ⟨true, fun state => FiniteSet.mem_filter_iff _ _ state⟩
    · refine ⟨false, fun state => ?_⟩
      rw [FiniteSet.mem_filter_iff, Bool.not_eq_true']
  · rintro ⟨accepting, members⟩
    cases accepting with
    | true =>
        refine Or.inl (Std.ExtTreeSet.ext_mem fun state => ?_)
        rw [members, FiniteSet.mem_filter_iff]
    | false =>
        refine Or.inr (Std.ExtTreeSet.ext_mem fun state => ?_)
        rw [members, FiniteSet.mem_filter_iff, Bool.not_eq_true']

theorem exists_block_initialPartition {state : σ} (known : state ∈ automaton.states) :
    ∃ block ∈ automaton.initialPartition, ∀ other, other ∈ block ↔
      other ∈ automaton.states ∧ automaton.isAccepting other = automaton.isAccepting state := by
  refine ⟨automaton.states.filter fun other =>
    decide (automaton.isAccepting other = automaton.isAccepting state), ?_, fun other => ?_⟩
  · refine (mem_initialPartition_iff automaton _).mpr
      ⟨⟨state, ?_⟩, automaton.isAccepting state, fun other => ?_⟩
    · exact (FiniteSet.mem_filter_iff _ _ _).mpr ⟨known, decide_eq_true rfl⟩
    · rw [FiniteSet.mem_filter_iff, decide_eq_true_eq]
  · rw [FiniteSet.mem_filter_iff, decide_eq_true_eq]

theorem covers_initialPartition : automaton.initialPartition.Covers automaton.states where
  inhabited block listed := ((mem_initialPartition_iff automaton block).mp listed).1
  apart := by
    refine List.Pairwise.filter _ (List.pairwise_pair.mpr ?_)
    intro state accepted rejected
    rw [FiniteSet.mem_filter_iff] at accepted rejected
    rw [accepted.2] at rejected
    cases rejected.2
  cover state := by
    constructor
    · intro known
      obtain ⟨block, listed, members⟩ := exists_block_initialPartition automaton known
      exact ⟨block, listed, (members state).mpr ⟨known, rfl⟩⟩
    · rintro ⟨block, listed, member⟩
      obtain ⟨_, _, members⟩ := (mem_initialPartition_iff automaton block).mp listed
      exact ((members state).mp member).1

theorem together_initialPartition_iff (state other : σ) :
    automaton.initialPartition.Together state other ↔
      state ∈ automaton.states ∧ other ∈ automaton.states ∧
        automaton.isAccepting other = automaton.isAccepting state := by
  constructor
  · rintro ⟨block, listed, here, there⟩
    obtain ⟨_, accepting, members⟩ := (mem_initialPartition_iff automaton block).mp listed
    obtain ⟨known, same⟩ := (members state).mp here
    obtain ⟨also, likewise⟩ := (members other).mp there
    exact ⟨known, also, likewise.trans same.symm⟩
  · rintro ⟨known, also, same⟩
    obtain ⟨block, listed, members⟩ := exists_block_initialPartition automaton known
    exact ⟨block, listed, (members state).mpr ⟨known, rfl⟩, (members other).mpr ⟨also, same⟩⟩

end Initial

section Round

theorem split_ne_nil (partition : Partition σ) {block : Block σ}
    (inhabited : ∃ state, state ∈ block) : automaton.split partition block ≠ [] := by
  obtain ⟨state, member⟩ := inhabited
  obtain ⟨group, grouped, _⟩ := exists_group automaton partition member
  exact List.ne_nil_of_mem grouped

theorem behaviour_eq_of_length_split (partition : Partition σ) {block : Block σ}
    (whole : (automaton.split partition block).length = 1) {state other : σ}
    (here : state ∈ block) (there : other ∈ block) :
    automaton.behaviour partition state = automaton.behaviour partition other := by
  obtain ⟨group, grouped, members⟩ := exists_group automaton partition here
  obtain ⟨group', grouped', members'⟩ := exists_group automaton partition there
  obtain ⟨only, listed⟩ := List.length_eq_one_iff.mp whole
  rw [listed, List.mem_singleton] at grouped grouped'
  have inside := (members' other).mpr ⟨there, rfl⟩
  rw [grouped', ← grouped] at inside
  exact ((members other).mp inside).2.symm

variable {partition : Partition σ} (covers : partition.Covers automaton.states)

include covers

theorem length_le_length_refineOnce :
    partition.length ≤ (automaton.refineOnce partition).length :=
  (length_le_length_flatMap partition _ fun block listed =>
    split_ne_nil automaton partition (covers.inhabited block listed)).1

theorem stable_of_length_eq
    (same : (automaton.refineOnce partition).length = partition.length) :
    automaton.Stable partition := by
  intro state other together
  have whole := (length_le_length_flatMap partition _ fun block listed =>
    split_ne_nil automaton partition (covers.inhabited block listed)).2 same
  obtain ⟨block, listed, here, there⟩ := id together
  have alike := behaviour_eq_of_length_split automaton partition (whole block listed) here there
  exact ((together_refineOnce_iff automaton covers state other).mp
    ((together_refineOnce automaton covers state other).mpr ⟨together, alike⟩)).2

end Round

section Rounds

theorem refine_preserves {motive : Partition σ → Prop}
    (round : ∀ partition, motive partition → motive (automaton.refineOnce partition))
    (rounds : Nat) {partition : Partition σ} (start : motive partition) :
    motive (automaton.refine rounds partition) := by
  induction rounds generalizing partition with
  | zero => exact start
  | succ rounds ih =>
      rw [refine]
      split
      · exact start
      · exact ih (round partition start)

/-- Rounds that all split something would make more blocks than there are states. -/
theorem stable_refine (rounds : Nat) {partition : Partition σ}
    (covers : partition.Covers automaton.states)
    (enough : automaton.states.size < partition.length + rounds) :
    automaton.Stable (automaton.refine rounds partition) := by
  induction rounds generalizing partition with
  | zero =>
      have fits := length_le_size covers
      omega
  | succ rounds ih =>
      have grows := length_le_length_refineOnce automaton covers
      rw [refine]
      split
      · next same => exact stable_of_length_eq automaton covers same
      · next different => exact ih (covers_refineOnce automaton covers) (by omega)

theorem covers_finalPartition : automaton.finalPartition.Covers automaton.states :=
  refine_preserves automaton (motive := fun partition => partition.Covers automaton.states)
    (fun _ covers => covers_refineOnce automaton covers) _ (covers_initialPartition automaton)

theorem known_of_together {state other : σ}
    (together : automaton.finalPartition.Together state other) :
    state ∈ automaton.states ∧ other ∈ automaton.states := by
  obtain ⟨block, listed, here, there⟩ := together
  have covers := covers_finalPartition automaton
  exact ⟨(covers.cover state).mpr ⟨block, listed, here⟩,
    (covers.cover other).mpr ⟨block, listed, there⟩⟩

theorem stable_finalPartition : automaton.Stable automaton.finalPartition := by
  have covers := covers_initialPartition automaton
  cases initial : automaton.initialPartition with
  | nil =>
      -- without blocks there are no states, and nothing is together
      intro state other together
      have known := (known_of_together automaton together).1
      obtain ⟨block, listed, _⟩ := (covers.cover state).mp known
      rw [initial] at listed
      exact absurd listed List.not_mem_nil
  | cons block blocks =>
      refine stable_refine automaton automaton.states.size covers ?_
      rw [initial, List.length_cons]
      omega

theorem accepting_of_together {state other : σ}
    (together : automaton.finalPartition.Together state other) :
    automaton.isAccepting other = automaton.isAccepting state := by
  have kept := refine_preserves automaton (motive := fun partition =>
      partition.Covers automaton.states ∧
        ∀ state other, partition.Together state other →
          automaton.isAccepting other = automaton.isAccepting state)
    (fun _ held => ⟨covers_refineOnce automaton held.1, fun state other together =>
      held.2 state other ((together_refineOnce automaton held.1 state other).mp together).1⟩)
    automaton.states.size
    ⟨covers_initialPartition automaton, fun state other together =>
      ((together_initialPartition_iff automaton state other).mp together).2.2⟩
  exact kept.2 state other together

/-- States that are told apart cannot be matched by any relation that agrees on
acceptance and is kept by every move. -/
theorem together_of_matched (matched : σ → σ → Prop)
    (states : ∀ state other, matched state other →
      state ∈ automaton.states ∧ other ∈ automaton.states)
    (accepting : ∀ state other, matched state other →
      automaton.isAccepting other = automaton.isAccepting state)
    (moves : ∀ state other, matched state other → ∀ symbol ∈ automaton.alphabet,
      Option.Rel matched (automaton.withinStates.next state symbol)
        (automaton.withinStates.next other symbol))
    {state other : σ} (related : matched state other) :
    automaton.finalPartition.Together state other := by
  have kept := refine_preserves automaton (motive := fun partition =>
      partition.Covers automaton.states ∧
        ∀ state other, matched state other → partition.Together state other)
    (fun _ held => ⟨covers_refineOnce automaton held.1, fun state other related =>
      (together_refineOnce_iff automaton held.1 state other).mpr
        ⟨held.2 state other related, fun symbol inAlphabet =>
          rel_imp held.2 (moves state other related symbol inAlphabet)⟩⟩)
    automaton.states.size
    ⟨covers_initialPartition automaton, fun state other related =>
      (together_initialPartition_iff automaton state other).mpr
        ⟨(states state other related).1, (states state other related).2,
          accepting state other related⟩⟩
  exact kept.2 state other related

end Rounds

end Automaton

end Recognizer
