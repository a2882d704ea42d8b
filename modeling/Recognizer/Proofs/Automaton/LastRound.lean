import Recognizer.Proofs.Automaton.Stability

/-!
The loop that tells states apart. It goes on while some block falls into several groups, and
only then does a round make more blocks. Blocks are never empty and do not overlap, so there
are as many states as blocks at least, and as many as rounds. The last round hands every block
back as it was.
-/

namespace Recognizer.Automaton

open Recognizer.Partition

variable {σ : Type} [Ordered σ]

/-- A round changes something when a block falls into several groups. -/
def Changes (automaton : Automaton σ) (partition : Partition σ) : Prop :=
  ∃ block ∈ partition, 1 < (automaton.split partition block).length

instance (automaton : Automaton σ) (partition : Partition σ) :
    Decidable (automaton.Changes partition) :=
  inferInstanceAs (Decidable (∃ block ∈ partition, 1 < (automaton.split partition block).length))

/-- The loop to its end, with the partition that each of its rounds begins with. The round
that stops it is one of them. -/
inductive Settles (automaton : Automaton σ) :
    Partition σ → List (Partition σ) → Partition σ → Prop where
  | stops {partition : Partition σ} (unchanged : ¬automaton.Changes partition) :
      Settles automaton partition [partition] partition
  | round {partition final : Partition σ} {later : List (Partition σ)}
      (changes : automaton.Changes partition)
      (onward : Settles automaton (automaton.refineOnce partition) later final) :
      Settles automaton partition (partition :: later) final

section Round

variable {automaton : Automaton σ} {partition : Partition σ}

theorem split_eq_singleton {block : Block σ} (inhabited : ∃ state, state ∈ block)
    (whole : ¬1 < (automaton.split partition block).length) :
    automaton.split partition block = [block] := by
  have some := List.length_pos_of_ne_nil (split_ne_nil automaton partition inhabited)
  have single : (automaton.split partition block).length = 1 := by omega
  obtain ⟨group, listed⟩ := List.length_eq_one_iff.mp single
  obtain ⟨model, inside, members⟩ := (mem_split_iff automaton block group).mp
    (listed ▸ List.mem_singleton_self group)
  have same : group = block := by
    apply Std.ExtTreeSet.ext_mem
    intro state
    rw [members]
    exact and_iff_left_of_imp fun here =>
      behaviour_eq_of_length_split automaton partition single here inside
  rw [listed, same]

variable (covers : partition.Covers automaton.states)

include covers

theorem refineOnce_eq_self (unchanged : ¬automaton.Changes partition) :
    automaton.refineOnce partition = partition := by
  have alone : ∀ block ∈ partition, automaton.split partition block = [block] :=
    fun block listed => split_eq_singleton (covers.inhabited block listed)
      fun several => unchanged ⟨block, listed, several⟩
  rw [refineOnce, List.flatMap_congr alone, List.flatMap_singleton']

/-- Counting blocks tells whether some block fell apart. -/
theorem length_refineOnce_eq_iff :
    (automaton.refineOnce partition).length = partition.length ↔ ¬automaton.Changes partition := by
  constructor
  · rintro same ⟨block, listed, several⟩
    have whole := (length_le_length_flatMap partition _ fun block listed =>
      split_ne_nil automaton partition (covers.inhabited block listed)).2 same block listed
    omega
  · intro unchanged
    rw [refineOnce_eq_self covers unchanged]

theorem length_lt_length_refineOnce (changes : automaton.Changes partition) :
    partition.length < (automaton.refineOnce partition).length := by
  apply Nat.lt_of_le_of_ne (length_le_length_refineOnce automaton covers)
  intro same
  exact (length_refineOnce_eq_iff covers).mp same.symm changes

theorem existsUnique_block_of_group {group : Block σ}
    (listed : group ∈ automaton.refineOnce partition) :
    ∃! block, block ∈ partition ∧ ∀ state ∈ group, state ∈ block := by
  obtain ⟨block, isBlock, isGroup⟩ := List.mem_flatMap.mp listed
  obtain ⟨model, inside, members⟩ := (mem_split_iff automaton block group).mp isGroup
  refine ⟨block, ⟨isBlock, fun state here => ((members state).mp here).1⟩, ?_⟩
  rintro other ⟨isOther, within⟩
  exact block_unique covers isOther isBlock (within model ((members model).mpr ⟨inside, rfl⟩)) inside

end Round

namespace Settles

variable {automaton : Automaton σ} {partition final : Partition σ} {rounds : List (Partition σ)}

theorem unchanged (settles : automaton.Settles partition rounds final) :
    ¬automaton.Changes final := by
  induction settles with
  | stops unchanged => exact unchanged
  | round _ _ ih => exact ih

theorem unique (settles : automaton.Settles partition rounds final) {rounds' : List (Partition σ)}
    {final' : Partition σ} (again : automaton.Settles partition rounds' final') :
    rounds' = rounds ∧ final' = final := by
  induction settles generalizing rounds' final' with
  | stops unchanged =>
      cases again with
      | stops _ => exact ⟨rfl, rfl⟩
      | round changes _ => exact absurd changes unchanged
  | round changes _ ih =>
      cases again with
      | stops unchanged => exact absurd changes unchanged
      | round _ onward =>
          obtain ⟨rfl, rfl⟩ := ih onward
          exact ⟨rfl, rfl⟩

theorem rounds_ne_nil (settles : automaton.Settles partition rounds final) : rounds ≠ [] := by
  cases settles with
  | stops _ => exact List.cons_ne_nil _ _
  | round _ _ => exact List.cons_ne_nil _ _

theorem getLast?_rounds (settles : automaton.Settles partition rounds final) :
    rounds.getLast? = some final := by
  induction settles with
  | stops _ => rfl
  | round _ _ ih => rw [List.getLast?_cons, ih, Option.getD_some]

variable (settles : automaton.Settles partition rounds final)
  (covers : partition.Covers automaton.states)

include settles covers

theorem covers_of_mem {started : Partition σ} (listed : started ∈ rounds) :
    started.Covers automaton.states := by
  induction settles with
  | stops _ => exact List.mem_singleton.mp listed ▸ covers
  | round _ _ ih =>
      rcases List.mem_cons.mp listed with rfl | later
      · exact covers
      · exact ih (covers_refineOnce automaton covers) later

/-- All rounds but the last bring at least one block. -/
theorem length_rounds_le : partition.length + rounds.length ≤ automaton.states.size + 1 := by
  induction settles with
  | stops _ => exact Nat.succ_le_succ (length_le_size covers)
  | round changes _ ih =>
      have grows := length_lt_length_refineOnce covers changes
      have fits := ih (covers_refineOnce automaton covers)
      rw [List.length_cons]
      omega

/-- A bound on the rounds makes no difference when it is large enough. -/
theorem refine_eq {bound : Nat} (enough : rounds.length ≤ bound + 1) :
    automaton.refine bound partition = final := by
  induction settles generalizing bound with
  | stops unchanged =>
      cases bound with
      | zero => rfl
      | succ bound => rw [refine, if_pos ((length_refineOnce_eq_iff covers).mpr unchanged)]
  | round changes onward ih =>
      rw [List.length_cons] at enough
      have more := List.length_pos_of_ne_nil onward.rounds_ne_nil
      obtain ⟨bound, rfl⟩ : ∃ fewer, bound = fewer + 1 := ⟨bound - 1, by omega⟩
      rw [refine, if_neg fun same => (length_refineOnce_eq_iff covers).mp same changes]
      exact ih (covers_refineOnce automaton covers) (by omega)

end Settles

/-- The room that is left for further blocks gets smaller in each round. -/
theorem exists_settles (automaton : Automaton σ) (partition : Partition σ)
    (covers : partition.Covers automaton.states) :
    ∃ rounds final, automaton.Settles partition rounds final := by
  induction room : automaton.states.size - partition.length using Nat.strong_induction_on
    generalizing partition with
  | _ room ih =>
      by_cases changes : automaton.Changes partition
      · have grows := length_lt_length_refineOnce covers changes
        have finer := covers_refineOnce automaton covers
        have fits := length_le_size finer
        obtain ⟨rounds, final, onward⟩ := ih _ (by omega) _ finer rfl
        exact ⟨_, final, .round changes onward⟩
      · exact ⟨_, _, .stops changes⟩

/-- How telling the states of an automaton apart comes to its end. -/
structure SettlesBy (automaton : Automaton σ) (rounds : List (Partition σ)) : Prop where
  ends : automaton.Settles automaton.initialPartition rounds automaton.finalPartition
  only : ∀ rounds' final, automaton.Settles automaton.initialPartition rounds' final →
    rounds' = rounds ∧ final = automaton.finalPartition
  few : rounds.length ≤ automaton.states.size
  anyBound : ∀ bound, rounds.length ≤ bound + 1 →
    automaton.refine bound automaton.initialPartition = automaton.finalPartition
  blocks : ∀ partition ∈ rounds,
    partition.Covers automaton.states ∧ partition.length ≤ automaton.states.size
  grows : ∀ partition ∈ rounds, automaton.Changes partition →
    partition.length < (automaton.refineOnce partition).length
  within : ∀ partition ∈ rounds, ∀ group ∈ automaton.refineOnce partition,
    (∃ state, state ∈ group) ∧ ∃! block, block ∈ partition ∧ ∀ state ∈ group, state ∈ block
  last : rounds.getLast? = some automaton.finalPartition
  kept : ¬automaton.Changes automaton.finalPartition ∧
    automaton.refineOnce automaton.finalPartition = automaton.finalPartition

/-- The loop over the blocks of an automaton with states comes to an end, after no more rounds
than there are states. -/
theorem no_more_rounds_than_states (automaton : Automaton σ)
    (inhabited : 1 ≤ automaton.states.size) : ∃ rounds, automaton.SettlesBy rounds := by
  have covers := covers_initialPartition automaton
  obtain ⟨rounds, final, settles⟩ := exists_settles automaton _ covers
  have begun : 0 < automaton.initialPartition.length := by
    rw [← Std.ExtTreeSet.length_toList] at inhabited
    obtain ⟨state, known⟩ := List.exists_mem_of_length_pos inhabited
    obtain ⟨block, listed, _⟩ := (covers.cover state).mp (Std.ExtTreeSet.mem_toList.mp known)
    exact List.length_pos_of_mem listed
  have fits := settles.length_rounds_le covers
  have few : rounds.length ≤ automaton.states.size := by omega
  obtain rfl : automaton.finalPartition = final := settles.refine_eq covers (by omega)
  refine ⟨rounds, ?_⟩
  constructor
  case ends => exact settles
  case only => exact fun _ _ => settles.unique
  case few => exact few
  case anyBound => exact fun _ => settles.refine_eq covers
  case blocks =>
    intro partition listed
    have divided := settles.covers_of_mem covers listed
    exact ⟨divided, length_le_size divided⟩
  case grows =>
    exact fun _ listed => length_lt_length_refineOnce (settles.covers_of_mem covers listed)
  case within =>
    intro partition listed group isGroup
    have divided := settles.covers_of_mem covers listed
    exact ⟨(covers_refineOnce automaton divided).inhabited group isGroup,
      existsUnique_block_of_group divided isGroup⟩
  case last => exact settles.getLast?_rounds
  case kept =>
    exact ⟨settles.unchanged,
      refineOnce_eq_self (covers_finalPartition automaton) settles.unchanged⟩

/-- Three states in a row, and an edge that leads out. The start is none of them. -/
def corridor : Automaton Nat :=
  { states := FiniteSet.ofList [0, 1, 2]
    alphabet := {'a'}
    start := 9
    accepts := FiniteSet.ofList [0, 1, 2, 9]
    rows := FiniteMap.tabulate
      (fun state => some (FiniteMap.tabulate (fun _ => some (state + 1)) ['a']))
      [0, 1, 2] }

/-- Each round takes only the last state away from the others. -/
theorem corridor_takes_all_rounds :
    1 ≤ corridor.states.size ∧
      ∃ rounds, corridor.SettlesBy rounds ∧ rounds.length = corridor.states.size := by
  have inhabited : 1 ≤ corridor.states.size := by decide
  obtain ⟨rounds, settles⟩ := no_more_rounds_than_states corridor inhabited
  have first : corridor.Changes corridor.initialPartition := by decide +kernel
  have second : corridor.Changes (corridor.refineOnce corridor.initialPartition) := by
    decide +kernel
  have third : ¬corridor.Changes
      (corridor.refineOnce (corridor.refineOnce corridor.initialPartition)) := by
    decide +kernel
  obtain ⟨rfl, _⟩ := settles.only _ _ (.round first (.round second (.stops third)))
  exact ⟨inhabited, _, settles, by decide⟩

end Recognizer.Automaton
