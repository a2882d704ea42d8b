import Mathlib.Data.Set.Card
import Recognizer.Proofs.Automaton.Simulation

/-!
Minimal automata as automata of residuals. What a language leaves after a word is
its residual by that word. An automaton whose states are the non-empty residuals,
one state each, is as small as any that accepts the language, and is determined by
the language up to the names of its states.
-/

namespace Recognizer.Automaton

/-- What a language leaves after some word, as long as it leaves anything. -/
def residuals (language : Language Char) : Set (Language Char) :=
  {residual | residual ≠ 0 ∧ ∃ word, residual = language.leftQuotient word}

section

variable {σ : Type} [Ordered σ]

def reachableStates (automaton : Automaton σ) : Set σ :=
  {state | ∃ word, automaton.runFrom automaton.start word = some state}

/-- The states are the non-empty residuals, a state stands for what it accepts. -/
structure RealizesResiduals (automaton : Automaton σ) (language : Language Char) : Prop where
  start : automaton.start ∈ automaton.states
  reached : ∀ state ∈ automaton.states, state ∈ automaton.reachableStates
  alive : ∀ word state, automaton.runFrom automaton.start word = some state →
    state ∈ automaton.states ∧ automaton.languageFrom state = language.leftQuotient word
  dead : ∀ word, automaton.runFrom automaton.start word = none → language.leftQuotient word = 0
  bijective : Set.BijOn automaton.languageFrom {state | state ∈ automaton.states}
    (residuals language)
  accepting : ∀ state ∈ automaton.states,
    automaton.isAccepting state = true ↔ [] ∈ automaton.languageFrom state
  moves : ∀ state ∈ automaton.states, ∀ symbol target,
    automaton.next state symbol = some target ↔
      target ∈ automaton.states ∧ (automaton.languageFrom state).leftQuotient [symbol] ≠ 0 ∧
        automaton.languageFrom target = (automaton.languageFrom state).leftQuotient [symbol]
  alphabet : ∀ symbol, symbol ∈ automaton.alphabet ↔ ∃ word ∈ language, symbol ∈ word

theorem encard_states (states : FiniteSet σ) :
    {state | state ∈ states}.encard = states.size := by
  classical
  have same : {state | state ∈ states} = (states.toList.toFinset : Set σ) := by
    ext state
    simp
  rw [same, Set.encard_coe_eq_coe_finsetCard, List.toFinset_card_of_nodup states.nodup_toList,
    Std.ExtTreeSet.length_toList]

end

section Smallest

variable {σ τ : Type} [Ordered σ] [Ordered τ] {minimal : Automaton σ} {language : Language Char}
  (realizes : minimal.RealizesResiduals language)

include realizes

/-- Every automaton for a language reaches a state for each non-empty residual. -/
theorem RealizesResiduals.size_le (other : Automaton τ)
    (accepts : ∀ word, other.recognizes word = true ↔ word ∈ language) :
    minimal.states.size ≤ other.reachableStates.encard := by
  have covered : residuals language ⊆ other.languageFrom '' other.reachableStates := by
    rintro residual ⟨some, word, rfl⟩
    have whole : other.languageFrom other.start = language := by
      ext word
      rw [← accepts]
      exact (other.recognizes_iff_mem_language word).symm
    cases ended : other.runFrom other.start word with
    | none =>
        have empty := leftQuotient_languageFrom_eq_zero other ended
        rw [whole] at empty
        exact absurd empty some
    | some state =>
        have same := leftQuotient_languageFrom other ended
        rw [whole] at same
        exact ⟨state, ⟨word, ended⟩, same.symm⟩
  calc (minimal.states.size : ℕ∞)
      = {state | state ∈ minimal.states}.encard := (encard_states minimal.states).symm
    _ = (residuals language).encard := by
        rw [← realizes.bijective.image_eq, realizes.bijective.injOn.encard_image]
    _ ≤ (other.languageFrom '' other.reachableStates).encard := Set.encard_le_encard covered
    _ ≤ other.reachableStates.encard := Set.encard_image_le _ _

end Smallest

/-- Other names for the states, and nothing else is changed. -/
structure Renames {σ τ : Type} [Ordered σ] [Ordered τ] (rename : σ → τ) (automaton : Automaton σ)
    (other : Automaton τ) : Prop where
  alphabet : automaton.alphabet = other.alphabet
  states : Set.BijOn rename {state | state ∈ automaton.states} {state | state ∈ other.states}
  start : rename automaton.start = other.start
  accepting : ∀ state ∈ automaton.states,
    automaton.isAccepting state = other.isAccepting (rename state)
  moves : ∀ state ∈ automaton.states, ∀ symbol,
    (automaton.next state symbol).map rename = other.next (rename state) symbol

section Unique

variable {σ τ : Type} [Ordered σ] [Ordered τ] {automaton : Automaton σ} {other : Automaton τ}
  {language : Language Char}

/-- A language determines the automaton of its residuals up to renaming. -/
theorem exists_renames (realizes : automaton.RealizesResiduals language)
    (realizes' : other.RealizesResiduals language) :
    ∃ rename, Renames rename automaton other := by
  -- the new name of a state is the state of the same residual
  have matched : ∀ state, ∃ partner, state ∈ automaton.states →
      partner ∈ other.states ∧ other.languageFrom partner = automaton.languageFrom state := by
    intro state
    by_cases known : state ∈ automaton.states
    · obtain ⟨partner, also, same⟩ :=
        realizes'.bijective.surjOn (realizes.bijective.mapsTo known)
      exact ⟨partner, fun _ => ⟨also, same⟩⟩
    · exact ⟨other.start, fun held => absurd held known⟩
  choose rename renamed using matched
  have unique : ∀ state ∈ automaton.states, ∀ partner ∈ other.states,
      other.languageFrom partner = automaton.languageFrom state → rename state = partner := by
    intro state known partner also same
    exact realizes'.bijective.injOn (renamed state known).1 also
      ((renamed state known).2.trans same.symm)
  refine ⟨rename, ?_, ⟨?_, ?_, ?_⟩, ?_, ?_, ?_⟩
  · exact Std.ExtTreeSet.ext_mem fun symbol =>
      (realizes.alphabet symbol).trans (realizes'.alphabet symbol).symm
  · exact fun state known => (renamed state known).1
  · intro state known state' known' same
    refine realizes.bijective.injOn known known' ?_
    rw [← (renamed state known).2, ← (renamed state' known').2, same]
  · intro partner also
    obtain ⟨state, known, same⟩ := realizes.bijective.surjOn (realizes'.bijective.mapsTo also)
    exact ⟨state, known, unique state known partner also same.symm⟩
  · refine unique _ realizes.start _ realizes'.start ?_
    rw [(realizes.alive [] _ rfl).2, (realizes'.alive [] _ rfl).2]
  · intro state known
    rw [Bool.eq_iff_iff, realizes.accepting state known,
      realizes'.accepting _ (renamed state known).1, (renamed state known).2]
  · intro state known symbol
    have into := realizes.moves state known symbol
    have into' := realizes'.moves _ (renamed state known).1 symbol
    rw [(renamed state known).2] at into'
    cases moved : automaton.next state symbol with
    | none =>
        cases moved' : other.next (rename state) symbol with
        | none => rfl
        | some partner =>
            obtain ⟨also, some, same⟩ := (into' partner).mp moved'
            obtain ⟨target, inside, same'⟩ :=
              realizes.bijective.surjOn (realizes'.bijective.mapsTo also)
            have taken := (into target).mpr ⟨inside, some, same'.trans same⟩
            rw [moved] at taken
            cases taken
    | some target =>
        obtain ⟨inside, some, same⟩ := (into target).mp moved
        rw [Option.map_some, (into' (rename target)).mpr ⟨(renamed target inside).1, some,
          (renamed target inside).2.trans same⟩]

end Unique

/-- No state is useless: each is reached by a word and accepts a word. -/
structure Trim {σ : Type} [Ordered σ] (automaton : Automaton σ) : Prop where
  start : automaton.start ∈ automaton.states
  uses : automaton.UsesAlphabet
  closed : automaton.Closed
  reached : ∀ state ∈ automaton.states, state ∈ automaton.reachableStates
  alive : ∀ state ∈ automaton.states, automaton.languageFrom state ≠ 0
  alphabet : ∀ symbol, symbol ∈ automaton.alphabet ↔ ∃ word ∈ automaton.language, symbol ∈ word

section Trim

variable {σ : Type} [Ordered σ] {automaton : Automaton σ}

theorem languageFrom_of_next {state target : σ} {symbol : Char}
    (moved : automaton.next state symbol = some target) :
    automaton.languageFrom target = (automaton.languageFrom state).leftQuotient [symbol] := by
  have ended := (automaton.runFrom_singleton state symbol).trans moved
  exact (leftQuotient_languageFrom automaton ended).symm

theorem exists_next_of_leftQuotient {state : σ} {symbol : Char}
    (left : (automaton.languageFrom state).leftQuotient [symbol] ≠ 0) :
    ∃ target, automaton.next state symbol = some target := by
  cases moved : automaton.next state symbol with
  | some target => exact ⟨target, rfl⟩
  | none =>
      have ended := (automaton.runFrom_singleton state symbol).trans moved
      exact absurd (leftQuotient_languageFrom_eq_zero automaton ended) left

variable (trim : automaton.Trim)

include trim

/-- Where all states are alive, a move is possible just when its residual is not empty. -/
theorem Trim.rel_next {state other : σ} (known : state ∈ automaton.states)
    (known' : other ∈ automaton.states)
    (same : automaton.languageFrom state = automaton.languageFrom other) (symbol : Char) :
    Option.Rel (fun target target' => target ∈ automaton.states ∧ target' ∈ automaton.states ∧
        automaton.languageFrom target = automaton.languageFrom target')
      (automaton.next state symbol) (automaton.next other symbol) := by
  by_cases left : (automaton.languageFrom state).leftQuotient [symbol] = 0
  · have stuck : ∀ source ∈ automaton.states,
        (automaton.languageFrom source).leftQuotient [symbol] = 0 →
          automaton.next source symbol = none := by
      intro source isState empty
      cases moved : automaton.next source symbol with
      | none => rfl
      | some target =>
          rw [← languageFrom_of_next moved] at empty
          exact absurd empty (trim.alive target (trim.closed source isState symbol target moved))
    rw [stuck state known left, stuck other known' (same ▸ left)]
    exact Option.Rel.none
  · obtain ⟨target, moved⟩ := exists_next_of_leftQuotient left
    obtain ⟨target', moved'⟩ := exists_next_of_leftQuotient (same ▸ left)
    rw [moved, moved']
    refine Option.Rel.some ⟨trim.closed state known symbol target moved,
      trim.closed other known' symbol target' moved', ?_⟩
    rw [languageFrom_of_next moved, languageFrom_of_next moved', same]

theorem Trim.together_of_languageFrom_eq {state other : σ} (known : state ∈ automaton.states)
    (known' : other ∈ automaton.states)
    (same : automaton.languageFrom state = automaton.languageFrom other) :
    automaton.finalPartition.Together state other := by
  refine together_of_matched automaton (fun state other => state ∈ automaton.states ∧
    other ∈ automaton.states ∧ automaton.languageFrom state = automaton.languageFrom other)
    ?_ ?_ ?_ ⟨known, known', same⟩
  · exact fun _ _ held => ⟨held.1, held.2.1⟩
  · rintro state other ⟨_, _, same⟩
    rw [Bool.eq_iff_iff, ← nil_mem_languageFrom, ← nil_mem_languageFrom, same]
  · rintro state other ⟨known, known', same⟩ symbol _
    rw [next_withinStates_of_closed automaton trim.closed known,
      next_withinStates_of_closed automaton trim.closed known']
    exact trim.rel_next known known' same symbol

section Merged

variable {minimal : Automaton (Block σ)} (merges : automaton.MergesInto minimal)

include merges

theorem Trim.run_minimal (word : List Char) :
    Option.Rel minimal.IsBlockOf (automaton.runFrom automaton.start word)
      (minimal.runFrom minimal.start word) :=
  rel_runFrom (merges.inStep_of_closed trim.closed) ((isBlockOf_iff merges _ _).mpr merges.start)
    word

theorem Trim.blockLanguage_injOn :
    Set.InjOn minimal.languageFrom {block | block ∈ minimal.states} := by
  intro block known block' known' same
  obtain ⟨state, isState, held⟩ := merges.exists_member known
  obtain ⟨state', isState', held'⟩ := merges.exists_member known'
  rw [merges.languageFrom_block trim.closed held,
    merges.languageFrom_block trim.closed held'] at same
  obtain ⟨shared, listed, here, there⟩ := trim.together_of_languageFrom_eq isState isState' same
  have isBlock := (merges.states shared).mpr listed
  exact (held.unique shared isBlock here).symm.trans (held'.unique shared isBlock there)

theorem Trim.block_reached {block : Block σ} (known : block ∈ minimal.states) :
    block ∈ minimal.reachableStates := by
  obtain ⟨state, isState, held⟩ := merges.exists_member known
  obtain ⟨word, ended⟩ := trim.reached state isState
  have related := trim.run_minimal merges word
  rw [ended] at related
  obtain ⟨other, ended', held'⟩ := exists_right_of_rel related
  exact ⟨word, ended'.trans (congrArg some (held.unique other held'.known held'.holds))⟩

theorem Trim.block_alive {block : Block σ} (known : block ∈ minimal.states) :
    minimal.languageFrom block ≠ 0 := by
  obtain ⟨state, isState, held⟩ := merges.exists_member known
  rw [merges.languageFrom_block trim.closed held]
  exact trim.alive state isState

theorem Trim.trim_minimal : minimal.Trim where
  start := merges.start.1
  uses := merges.usesAlphabet trim.uses
  closed := merges.closed
  reached _ := trim.block_reached merges
  alive _ := trim.block_alive merges
  alphabet symbol := by
    rw [merges.alphabet, merges.language_eq trim.closed]
    exact trim.alphabet symbol

/-- Minimizing an automaton without useless states yields the automaton of residuals. -/
theorem Trim.realizesResiduals : minimal.RealizesResiduals automaton.language := by
  have whole := merges.language_eq trim.closed
  have quotient : ∀ word block, minimal.runFrom minimal.start word = some block →
      minimal.languageFrom block = automaton.language.leftQuotient word :=
    fun word block ended => whole ▸ (leftQuotient_languageFrom minimal ended).symm
  have dead : ∀ word, minimal.runFrom minimal.start word = none →
      automaton.language.leftQuotient word = 0 :=
    fun word ended => whole ▸ leftQuotient_languageFrom_eq_zero minimal ended
  have injective := trim.blockLanguage_injOn merges
  refine ⟨merges.start.1, fun _ => trim.block_reached merges, ?_, dead, ⟨?_, injective, ?_⟩,
    fun block _ => (nil_mem_languageFrom minimal block).symm, ?_, ?_⟩
  · exact fun word block ended =>
      ⟨mem_states_of_runFrom minimal merges.closed merges.start.1 ended, quotient word block ended⟩
  · intro block known
    obtain ⟨word, ended⟩ := trim.block_reached merges known
    exact ⟨trim.block_alive merges known, word, quotient word block ended⟩
  · rintro residual ⟨some, word, rfl⟩
    cases ended : minimal.runFrom minimal.start word with
    | none => exact absurd (dead word ended) some
    | some block =>
        exact ⟨block, mem_states_of_runFrom minimal merges.closed merges.start.1 ended,
          quotient word block ended⟩
  · intro block known symbol target
    constructor
    · intro moved
      have inside := merges.closed block known symbol target moved
      have same := languageFrom_of_next moved
      exact ⟨inside, same ▸ trim.block_alive merges inside, same⟩
    · rintro ⟨inside, some, same⟩
      obtain ⟨target', moved⟩ := exists_next_of_leftQuotient some
      have inside' := merges.closed block known symbol target' moved
      rw [moved, injective inside' inside ((languageFrom_of_next moved).trans same.symm)]
  · intro symbol
    rw [merges.alphabet, trim.alphabet]

end Merged

end Trim

end Recognizer.Automaton
