import Recognizer.Proofs.Automaton.Simulation

/-!
Telling states apart by words. A word tells two states apart when it can be read from
one of them only, or when it can be read from both and only one run ends accepting. Runs
stay within the states. A round of refinement looks one symbol further, so after some
rounds those states are left together that no word with at most that many symbols tells
apart.
-/

namespace Recognizer.Automaton

open Recognizer.Partition

variable {σ : Type} [Ordered σ] (automaton : Automaton σ)

/-- Every symbol of the word is in the alphabet. -/
def Spelled (word : List Char) : Prop := ∀ symbol ∈ word, symbol ∈ automaton.alphabet

/-- The word can be read from both states or from neither of them, and in the first case
both runs end accepting or none does. -/
def Agree (word : List Char) (state other : σ) : Prop :=
  Option.Rel (fun final goal => automaton.isAccepting goal = automaton.isAccepting final)
    (automaton.withinStates.runFrom state word) (automaton.withinStates.runFrom other word)

theorem closed_withinStates : automaton.withinStates.Closed := by
  intro state _ symbol target moved
  exact ((next_withinStates_eq_some_iff automaton state target symbol).mp moved).2

section Round

variable {automaton} {partition : Partition σ} {state other : σ}

theorem rel_runFrom_of_stable (stable : automaton.Stable partition)
    (together : partition.Together state other) {word : List Char}
    (spelled : automaton.Spelled word) :
    Option.Rel partition.Together (automaton.withinStates.runFrom state word)
      (automaton.withinStates.runFrom other word) := by
  refine rel_runFrom_of_moves (fun source partner held symbol inside => ?_) together
  exact stable source partner held symbol (spelled symbol inside)

/-- The ends of two runs stay together in a round just when they were together and
reading one more symbol keeps them so. -/
theorem rel_runFrom_refineOnce_iff (covers : partition.Covers automaton.states)
    (word : List Char) :
    Option.Rel (automaton.refineOnce partition).Together
        (automaton.withinStates.runFrom state word) (automaton.withinStates.runFrom other word) ↔
      Option.Rel partition.Together (automaton.withinStates.runFrom state word)
          (automaton.withinStates.runFrom other word) ∧
        ∀ symbol ∈ automaton.alphabet, Option.Rel partition.Together
          (automaton.withinStates.runFrom state (word ++ [symbol]))
          (automaton.withinStates.runFrom other (word ++ [symbol])) := by
  simp only [runFrom_append, runFrom_singleton]
  cases automaton.withinStates.runFrom state word with
  | none =>
      cases automaton.withinStates.runFrom other word with
      | none => simp
      | some goal => simp
  | some final =>
      cases automaton.withinStates.runFrom other word with
      | none => simp
      | some goal =>
          simp only [Option.rel_some_some, Option.bind_some]
          exact together_refineOnce_iff automaton covers final goal

/-- Rounds keep two states together when no word takes them apart that has at most as many
symbols as there are rounds. -/
theorem together_refine_iff (rounds : Nat) (covers : partition.Covers automaton.states) :
    (automaton.refine rounds partition).Together state other ↔
      ∀ word, automaton.Spelled word → word.length ≤ rounds →
        Option.Rel partition.Together (automaton.withinStates.runFrom state word)
          (automaton.withinStates.runFrom other word) := by
  -- the first round takes over the last symbol of each word, the others the rest of it
  induction rounds generalizing partition with
  | zero =>
      constructor
      · intro together word _ short
        rw [List.eq_nil_of_length_eq_zero (Nat.le_zero.mp short)]
        exact Option.Rel.some together
      · intro kept
        exact Option.rel_some_some.mp (kept [] (by simp [Spelled]) (Nat.zero_le 0))
  | succ rounds ih =>
      rw [refine]
      split
      · next same =>
          have stable := stable_of_length_eq automaton covers same
          constructor
          · exact fun together word spelled _ => rel_runFrom_of_stable stable together spelled
          · intro kept
            exact Option.rel_some_some.mp (kept [] (by simp [Spelled]) (Nat.zero_le _))
      · rw [ih (covers_refineOnce automaton covers)]
        constructor
        · intro kept word spelled short
          rcases List.eq_nil_or_concat' word with rfl | ⟨front, symbol, rfl⟩
          · exact ((rel_runFrom_refineOnce_iff covers []).mp
              (kept [] spelled (Nat.zero_le rounds))).1
          · rw [List.length_append, List.length_singleton] at short
            obtain ⟨early, inAlphabet⟩ := List.forall_mem_append.mp spelled
            exact ((rel_runFrom_refineOnce_iff covers front).mp
              (kept front early (Nat.le_of_succ_le_succ short))).2 symbol
              (inAlphabet symbol (List.mem_singleton_self symbol))
        · intro kept word spelled short
          refine (rel_runFrom_refineOnce_iff covers word).mpr
            ⟨kept word spelled (Nat.le_succ_of_le short), fun symbol inAlphabet => ?_⟩
          refine kept (word ++ [symbol]) (List.forall_mem_append.mpr ⟨spelled, ?_⟩) ?_
          · exact List.forall_mem_singleton.mpr inAlphabet
          · rw [List.length_append]
            exact Nat.succ_le_succ short

end Round

section States

variable {automaton} {state other : σ} (known : state ∈ automaton.states)
  (also : other ∈ automaton.states)

include known also

theorem rel_initialPartition_iff (word : List Char) :
    Option.Rel automaton.initialPartition.Together (automaton.withinStates.runFrom state word)
      (automaton.withinStates.runFrom other word) ↔ automaton.Agree word state other := by
  have inside : ∀ source ∈ automaton.states, ∀ target,
      automaton.withinStates.runFrom source word = some target → target ∈ automaton.states :=
    fun _ into _ ran =>
      mem_states_of_runFrom automaton.withinStates automaton.closed_withinStates into ran
  rw [Agree]
  cases here : automaton.withinStates.runFrom state word with
  | none => cases automaton.withinStates.runFrom other word <;> simp
  | some final =>
      cases there : automaton.withinStates.runFrom other word with
      | none => simp
      | some goal =>
          rw [Option.rel_some_some, Option.rel_some_some, together_initialPartition_iff,
            and_iff_right (inside state known final here),
            and_iff_right (inside other also goal there)]

theorem together_refine_initialPartition_iff (rounds : Nat) :
    (automaton.refine rounds automaton.initialPartition).Together state other ↔
      ∀ word, automaton.Spelled word → word.length ≤ rounds →
        automaton.Agree word state other := by
  rw [together_refine_iff rounds (covers_initialPartition automaton)]
  simp only [rel_initialPartition_iff known also]

theorem together_finalPartition_iff :
    automaton.finalPartition.Together state other ↔
      ∀ word, automaton.Spelled word → automaton.Agree word state other := by
  constructor
  · intro together word spelled
    refine rel_imp ?_ (rel_runFrom_of_stable (stable_finalPartition automaton) together spelled)
    exact fun final goal => accepting_of_together automaton
  · intro agree
    exact (together_refine_initialPartition_iff known also _).mpr
      fun word spelled _ => agree word spelled

end States

/-- Two states end up in one block just when no word over the alphabet tells them apart,
and they are together after some rounds just when no word with at most that many symbols
does. -/
theorem same_block_iff_never_told_apart (choice : Choice σ)
    (known : automaton.start ∈ automaton.states) :
    ∃ minimal, automaton.minimizeWith choice = .ok minimal ∧
      ∀ state ∈ automaton.states, ∀ other ∈ automaton.states,
        ((∃ block ∈ minimal.states, state ∈ block ∧ other ∈ block) ↔
          ∀ word, automaton.Spelled word → automaton.Agree word state other) ∧
        ∀ rounds, (automaton.refine rounds automaton.initialPartition).Together state other ↔
          ∀ word, automaton.Spelled word → word.length ≤ rounds →
            automaton.Agree word state other := by
  obtain ⟨minimal, succeeded, states, _⟩ := minimizeWith_of_start_mem automaton choice known
  refine ⟨minimal, succeeded, fun state here other there => ⟨?_, ?_⟩⟩
  · simp only [states]
    exact together_finalPartition_iff here there
  · exact together_refine_initialPartition_iff here there

/-- No state accepts. Nothing leaves 0, the edge of 1 leads to no state, and that of 2 to
the state 3, from where only a symbol outside the alphabet can be read. -/
def hopeless : Automaton Nat :=
  { states := FiniteSet.ofList [0, 1, 2, 3]
    alphabet := {'a'}
    start := 0
    accepts := FiniteSet.ofList [7]
    rows := FiniteMap.tabulate
      (fun state => some (FiniteMap.tabulate
        (fun _ => some (if state = 1 then 7 else if state = 2 then 3 else 2))
        [if state = 3 then 'b' else 'a']))
      [1, 2, 3] }

theorem hopeless_edge_is_told_from_missing_edge :
    ∃ minimal, hopeless.minimizeWith .last = .ok minimal ∧
      (∃ block ∈ minimal.states, 0 ∈ block ∧ 1 ∈ block) ∧
      (¬ ∃ block ∈ minimal.states, 0 ∈ block ∧ 2 ∈ block) ∧
      (hopeless.refine 0 hopeless.initialPartition).Together 0 2 ∧
      ¬ (hopeless.refine 1 hopeless.initialPartition).Together 0 2 := by
  have known : ∀ state ∈ [0, 1, 2, 3], state ∈ hopeless.states :=
    fun state => (FiniteSet.mem_ofList _ _).mpr
  obtain ⟨minimal, succeeded, told⟩ :=
    same_block_iff_never_told_apart hopeless .last (known 0 (by decide))
  have missing := told 0 (known 0 (by decide)) 1 (known 1 (by decide))
  have kept := told 0 (known 0 (by decide)) 2 (known 2 (by decide))
  have spelled : hopeless.Spelled ['a'] :=
    List.forall_mem_singleton.mpr ((FiniteSet.mem_singleton_iff 'a' 'a').mpr rfl)
  have apart : ¬ hopeless.Agree ['a'] 0 2 := by
    have ended : hopeless.withinStates.runFrom 0 ['a'] = none := by decide +kernel
    have went : hopeless.withinStates.runFrom 2 ['a'] = some 3 := by decide +kernel
    rw [Agree, ended, went]
    exact Option.not_rel_none_some
  refine ⟨minimal, succeeded, missing.1.mpr ?_, ?_, (kept.2 0).mpr ?_, ?_⟩
  · intro word within
    cases word with
    | nil => exact Option.Rel.some (by decide)
    | cons symbol word =>
        cases (FiniteSet.mem_singleton_iff symbol 'a').mp (within symbol List.mem_cons_self)
        have ended : hopeless.withinStates.next 0 'a' = none := by decide +kernel
        have left : hopeless.withinStates.next 1 'a' = none := by decide +kernel
        rw [Agree, runFrom_cons, runFrom_cons, ended, left]
        exact Option.Rel.none
  · exact fun together => apart (kept.1.mp together ['a'] spelled)
  · intro word _ short
    rw [List.eq_nil_of_length_eq_zero (Nat.le_zero.mp short)]
    exact Option.Rel.some (by decide)
  · exact fun together => apart ((kept.2 1).mp together ['a'] spelled (Nat.le_refl 1))

end Recognizer.Automaton
