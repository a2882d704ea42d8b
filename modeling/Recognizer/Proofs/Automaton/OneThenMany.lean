import Recognizer.CharacterClass.Basic
import Recognizer.Proofs.Automaton.Repetition

/-!
One character of a class, then any number of another. Two states are enough, one before
the first character and one after it, and as only one of them accepts there is nothing to
merge. The states of the minimal automaton are the same two, each in a block.
-/

namespace Recognizer

namespace Automaton

variable {σ : Type} [Ordered σ]

/-- A start for the first character and an accepting state for all others. -/
structure ReadsOneThenMany (automaton : Automaton σ) (first rest : CharacterClass)
    (before later : σ) : Prop where
  states : automaton.states.toList = [before, later]
  start : automaton.start = before
  accepts : automaton.accepts.toList = [later]
  alphabet : ∀ c, c ∈ automaton.alphabet ↔ c ∈ first.chars ∨ c ∈ rest.chars
  next : ∀ state c target, automaton.next state c = some target ↔
    target = later ∧ (state = before ∧ c ∈ first.chars ∨ state = later ∧ c ∈ rest.chars)

section ReadsOneThenMany

variable {automaton : Automaton σ} {first rest : CharacterClass} {before later : σ}
  (reads : automaton.ReadsOneThenMany first rest before later)

include reads

theorem ReadsOneThenMany.mem_states_iff (state : σ) :
    state ∈ automaton.states ↔ state = before ∨ state = later := by
  rw [← Std.ExtTreeSet.mem_toList, reads.states]
  simp

theorem ReadsOneThenMany.mem_accepts_iff (state : σ) :
    state ∈ automaton.accepts ↔ state = later := by
  rw [← Std.ExtTreeSet.mem_toList, reads.accepts, List.mem_singleton]

theorem ReadsOneThenMany.isAccepting_iff (state : σ) :
    automaton.isAccepting state = true ↔ state = later := by
  rw [isAccepting, ← Std.ExtTreeSet.mem_iff_contains, reads.mem_accepts_iff]

theorem ReadsOneThenMany.compare_eq : compare before later = .lt := by
  have ordered : automaton.states.toList.Pairwise fun a b => compare a b = .lt :=
    Std.ExtTreeSet.ordered_toList
  rw [reads.states, List.pairwise_pair] at ordered
  exact ordered

theorem ReadsOneThenMany.ne : before ≠ later := by
  intro same
  have less := reads.compare_eq
  rw [same, Std.ReflOrd.compare_self] at less
  cases less

theorem ReadsOneThenMany.mem_languageFrom_later (word : List Char) :
    word ∈ automaton.languageFrom later ↔ ∀ c ∈ word, c ∈ rest.chars := by
  induction word with
  | nil => simp [nil_mem_languageFrom, reads.isAccepting_iff]
  | cons c word ih =>
      simp [cons_mem_languageFrom, reads.next, reads.ne.symm, ih, and_assoc]

theorem ReadsOneThenMany.recognizes_iff (word : List Char) :
    automaton.recognizes word = true ↔
      ∃ c tail, word = c :: tail ∧ c ∈ first.chars ∧ ∀ d ∈ tail, d ∈ rest.chars := by
  rw [recognizes_iff_mem_language, language, reads.start]
  cases word with
  | nil => simp [nil_mem_languageFrom, reads.isAccepting_iff, reads.ne]
  | cons c word =>
      simp [cons_mem_languageFrom, reads.next, reads.ne, reads.mem_languageFrom_later, and_assoc]

theorem ReadsOneThenMany.selfContained : automaton.SelfContained where
  start := by
    rw [reads.mem_states_iff, reads.start]
    exact Or.inl rfl
  uses := by
    intro state _ c target moved
    rw [reads.alphabet]
    exact ((reads.next state c target).mp moved).2.imp And.right And.right
  closed := by
    intro state _ c target moved
    rw [reads.mem_states_iff]
    exact Or.inr ((reads.next state c target).mp moved).1

/-- Only one of the two states accepts. -/
theorem ReadsOneThenMany.reduced : automaton.Reduced := by
  intro state other together
  obtain ⟨known, also⟩ := known_of_together automaton together
  rw [reads.mem_states_iff] at known also
  have alike := accepting_of_together automaton together
  rw [Bool.eq_iff_iff, reads.isAccepting_iff, reads.isAccepting_iff] at alike
  rcases known with rfl | rfl
  · rcases also with rfl | rfl
    · rfl
    · exact (alike.mp rfl)
  · exact (alike.mpr rfl).symm

theorem ReadsOneThenMany.of_wraps {minimal : Automaton (Block σ)}
    (wraps : minimal.Wraps automaton) :
    minimal.ReadsOneThenMany first rest {before} {later} := by
  constructor
  case states =>
    apply FiniteSet.toList_eq_of_ascending
    · rw [List.pairwise_pair, FiniteSet.compare_singleton, reads.compare_eq]
    · simp [wraps.states, reads.mem_states_iff]
  case start => rw [wraps.start, reads.start]
  case accepts =>
    apply FiniteSet.toList_eq_of_ascending (List.pairwise_singleton _ _)
    simp [wraps.accepts, reads.mem_accepts_iff]
  case alphabet =>
    rw [wraps.alphabet]
    exact reads.alphabet
  case next =>
    intro block c goal
    rw [wraps.edges]
    simp only [reads.next]
    constructor
    · rintro ⟨state, target, ⟨rfl, source⟩, rfl, rfl⟩
      refine ⟨rfl, source.imp ?_ ?_⟩
      · exact fun here => ⟨congrArg _ here.1, here.2⟩
      · exact fun here => ⟨congrArg _ here.1, here.2⟩
    · rintro ⟨rfl, ⟨rfl, listed⟩ | ⟨rfl, listed⟩⟩
      · exact ⟨before, later, ⟨rfl, Or.inl ⟨rfl, listed⟩⟩, rfl, rfl⟩
      · exact ⟨later, later, ⟨rfl, Or.inr ⟨rfl, listed⟩⟩, rfl, rfl⟩

/-- Minimizing puts each of the two states into a block. -/
theorem ReadsOneThenMany.exists_minimize :
    ∃ minimal, automaton.minimize = .ok minimal ∧
      minimal.ReadsOneThenMany first rest {before} {later} := by
  have contained := reads.selfContained
  obtain ⟨minimal, succeeded, merges⟩ :=
    minimizeWith_eq_ok automaton .first contained.start contained.uses
  have accepting : ∀ state ∈ automaton.accepts, state ∈ automaton.states := by
    intro state accepted
    rw [reads.mem_states_iff]
    exact Or.inr ((reads.mem_accepts_iff state).mp accepted)
  have sources : ∀ state c target, automaton.next state c = some target →
      state ∈ automaton.states := by
    intro state c target moved
    rw [reads.mem_states_iff]
    exact ((reads.next state c target).mp moved).2.imp And.left And.left
  have wraps := reads.reduced.wraps merges contained.closed accepting sources
  exact ⟨minimal, succeeded, reads.of_wraps wraps⟩

end ReadsOneThenMany

end Automaton

end Recognizer
