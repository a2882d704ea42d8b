import Recognizer.Proofs.Automaton.Minimality
import Recognizer.Proofs.Automaton.Recording

/-!
Runs that die as soon as they must. A word is viable when it can be completed to a
word of the language. Without useless states a run is alive exactly as long as what
it has read is viable; in a closed tree each position but the last one leads on to
another, so neither its automaton nor the minimal one has a useless state.
-/

namespace Recognizer

/-- The beginning of a word of the language. -/
def Viable (language : Language Char) (front : List Char) : Prop :=
  ∃ back, front ++ back ∈ language

theorem Viable.of_append {language : Language Char} {front middle : List Char}
    (viable : Viable language (front ++ middle)) : Viable language front := by
  obtain ⟨back, member⟩ := viable
  exact ⟨middle ++ back, by rwa [← List.append_assoc]⟩

theorem Viable.take_of_le {language : Language Char} {word : List Char} {short long : Nat}
    (viable : Viable language (word.take long)) (fits : short ≤ long) :
    Viable language (word.take short) := by
  have front : word.take short = (word.take long).take short := by
    rw [List.take_take, Nat.min_eq_left fits]
  have whole : Viable language (word.take short ++ (word.take long).drop short) := by
    rw [front, List.take_append_drop]
    exact viable
  exact whole.of_append

namespace Automaton

variable {σ : Type} [Ordered σ]

/-- A run lives while it can still be accepted, dies with the first symbol after
which it cannot, and no state is out of reach or without hope. -/
structure TracksViability (automaton : Automaton σ) (language : Language Char) : Prop where
  accepted : ∀ word, automaton.recognizes word = true ↔ word ∈ language
  live : ∀ word, (automaton.trace word).last.isSome = true ↔ Viable language word
  dead : ∀ word index, (automaton.trace word).deadAt = some index ↔
    index < word.length ∧ ¬Viable language (word.take (index + 1)) ∧
      ∀ earlier < index, Viable language (word.take (earlier + 1))
  reached : ∀ state ∈ automaton.states, ∃ word,
    automaton.runFrom automaton.start word = some state
  hopeful : ∀ state ∈ automaton.states, ∃ word final,
    automaton.runFrom state word = some final ∧ automaton.isAccepting final = true

section Trim

variable {automaton : Automaton σ} (trim : automaton.Trim)

include trim

theorem Trim.exists_accepted {state : σ} (known : state ∈ automaton.states) :
    ∃ word, word ∈ automaton.languageFrom state := by
  by_contra none
  apply trim.alive state known
  ext word
  exact iff_of_false (fun accepted => none ⟨word, accepted⟩) (Language.notMem_zero word)

theorem Trim.isSome_runFrom_iff (word : List Char) :
    (automaton.runFrom automaton.start word).isSome = true ↔ Viable automaton.language word := by
  cases ended : automaton.runFrom automaton.start word with
  | none =>
      have empty := leftQuotient_languageFrom_eq_zero automaton ended
      simp only [Option.isSome_none, Bool.false_eq_true, false_iff]
      rintro ⟨back, member⟩
      have left : back ∈ automaton.language.leftQuotient word := member
      rw [language, empty] at left
      exact Language.notMem_zero back left
  | some state =>
      have known := mem_states_of_runFrom automaton trim.closed trim.start ended
      obtain ⟨back, accepted⟩ := trim.exists_accepted known
      rw [← leftQuotient_languageFrom automaton ended] at accepted
      exact iff_of_true rfl ⟨back, accepted⟩

/-- The first hopeless prefix is the one that ends the run. -/
theorem Trim.deadAt_eq_some_iff (word : List Char) (index : Nat) :
    (automaton.trace word).deadAt = some index ↔
      index < word.length ∧ ¬Viable automaton.language (word.take (index + 1)) ∧
        ∀ earlier < index, Viable automaton.language (word.take (earlier + 1)) := by
  rw [deadAt_trace_eq_some_iff, trim.isSome_runFrom_iff, ← Option.not_isSome_iff_eq_none,
    trim.isSome_runFrom_iff, and_comm (a := Viable _ _)]
  refine and_congr_right fun _ => and_congr_right fun _ => ⟨?_, ?_⟩
  · exact fun viable earlier before => viable.take_of_le before
  · intro viable
    cases index with
    | zero =>
        -- the empty word is viable because the start is a state like any other
        exact (trim.isSome_runFrom_iff []).mp rfl
    | succ index => exact viable index (Nat.lt_succ_self index)

theorem Trim.tracksViability : automaton.TracksViability automaton.language where
  accepted := automaton.recognizes_iff_mem_language
  live word := by rw [last_trace, trim.isSome_runFrom_iff]
  dead := trim.deadAt_eq_some_iff
  reached := trim.reached
  hopeful _ known := trim.exists_accepted known

end Trim

end Automaton

namespace Tree

variable {body : Tree} {position : Nat}

/-- In a closed tree every position but that of the marker has a follower. -/
theorem exists_follows_iff (distinct : (concat body (leaf endMarker position)).Distinct)
    (earlier : Nat) :
    (∃ later, (concat body (leaf endMarker position)).Follows earlier later) ↔
      earlier ∈ body.positions := by
  constructor
  · rintro ⟨later, inBody | absent | ⟨isLast, _⟩⟩
    · exact (body.mem_positions_of_follows inBody).1
    · exact absent.elim
    · exact body.mem_positions_of_mem_last isLast
  · intro inBody
    -- the rest of the body, and then the marker, is still to be read
    obtain ⟨path, after⟩ := body.rest_nonempty inBody
    have onward : path ++ [position] ∈ (concat body (leaf endMarker position)).rest earlier :=
      Or.inl (Language.append_mem_mul after rfl)
    cases both : path ++ [position] with
    | nil => simp at both
    | cons later others =>
        rw [both] at onward
        exact ⟨later, ((cons_mem_rest _ distinct earlier later others).mp onward).1⟩

theorem followers_of_marker (distinct : (concat body (leaf endMarker position)).Distinct) :
    (concat body (leaf endMarker position)).followers[position]? = some ∅ := by
  have apart := distinct_concat distinct
  have last : position ∈ (leaf endMarker position).positions := List.mem_singleton_self position
  rw [getElem?_followers _ (by simp [positions_concat, last]), Option.some.injEq,
    FiniteSet.eq_empty_iff]
  intro later following
  rw [mem_followers] at following
  exact not_mem_left apart last ((exists_follows_iff distinct position).mp ⟨later, following⟩)

theorem followers_before_marker (distinct : (concat body (leaf endMarker position)).Distinct)
    {earlier : Nat} (member : earlier ∈ (concat body (leaf endMarker position)).positions)
    (different : earlier ≠ position) :
    ∃ following, (concat body (leaf endMarker position)).followers[earlier]? = some following ∧
      ∃ later, later ∈ following := by
  refine ⟨_, getElem?_followers _ member, ?_⟩
  rw [positions_concat, List.mem_append] at member
  rcases member with inBody | marker
  · obtain ⟨later, follows⟩ := (exists_follows_iff distinct earlier).mpr inBody
    exact ⟨later, (mem_followers _ earlier later).mpr follows⟩
  · exact absurd (List.mem_singleton.mp marker) different

end Tree

namespace Construction

open Automaton

/-- In the automaton of a closed tree and in the minimal one a run dies with the first
symbol that no word of the body allows, and not before. -/
theorem trace_dies_when_hopeless (body : Tree) (position : Nat) (construction : Construction)
    (built : ofTree (.concat body (.leaf endMarker position)) = .ok construction) :
    construction.automaton.TracksViability body.language ∧
    (construction.endPosition = position ∧
      (Tree.concat body (.leaf endMarker position)).followers[position]? = some ∅ ∧
      ∀ earlier ∈ (Tree.concat body (.leaf endMarker position)).positions, earlier ≠ position →
        ∃ following,
          (Tree.concat body (.leaf endMarker position)).followers[earlier]? = some following ∧
            ∃ later, later ∈ following) ∧
    ∃ minimal, construction.automaton.minimize = .ok minimal ∧
      minimal.TracksViability body.language := by
  have represents := represents_of_ofTree built
  have trim := trim_of_closed represents
  obtain ⟨minimal, succeeded, merges⟩ := minimizeWith_eq_ok construction.automaton .first
    represents.start_mem represents.usesAlphabet
  have marker : (position, endMarker) ∈ (Tree.concat body (.leaf endMarker position)).leaves :=
    List.mem_append_right _ (List.mem_singleton_self _)
  rw [← language_closed represents]
  refine ⟨trim.tracksViability, ⟨?_, ?_, ?_⟩, minimal, succeeded, ?_⟩
  · exact ((represents.marked position).mp marker).symm
  · exact Tree.followers_of_marker represents.distinct
  · exact fun earlier => Tree.followers_before_marker represents.distinct
  · rw [← merges.language_eq trim.closed]
    exact (trim.trim_minimal merges).tracksViability

/-- Pairs of letters again and again: half a pair can be completed, a wrong letter cannot. -/
theorem trace_of_broken_pair :
    ∃ construction minimal,
      ofTree (.concat (.star (.concat (.leaf 'a' 3) (.leaf 'b' 1))) (.leaf endMarker 2)) =
        .ok construction ∧
      construction.automaton.minimize = .ok minimal ∧
      (construction.automaton.trace ['a', 'b', 'a']).last.isSome = true ∧
      (minimal.trace ['a', 'b', 'b', 'a']).deadAt = some 2 := by
  obtain ⟨construction, built⟩ : ∃ construction, ofTree (.concat (.star (.concat (.leaf 'a' 3)
      (.leaf 'b' 1))) (.leaf endMarker 2)) = .ok construction := ⟨_, rfl⟩
  obtain ⟨tracks, _, minimal, succeeded, tracks'⟩ := trace_dies_when_hopeless _ _ construction built
  have pairs : ∀ word, word ∈ (Tree.star (.concat (.leaf 'a' 3) (.leaf 'b' 1))).language ↔
      ∃ parts : List (List Char), word = parts.flatten ∧ ∀ part ∈ parts, part = ['a', 'b'] := by
    intro word
    refine Language.mem_kstar.trans (exists_congr fun parts => and_congr_right fun _ => ?_)
    refine forall₂_congr fun part _ => ⟨?_, ?_⟩
    · rintro ⟨_, rfl, _, rfl, rfl⟩
      rfl
    · rintro rfl
      exact ⟨['a'], rfl, ['b'], rfl, rfl⟩
  refine ⟨construction, minimal, built, succeeded, (tracks.live _).mpr ⟨['b'], ?_⟩,
    (tracks'.dead _ 2).mpr ⟨by decide, ?_, ?_⟩⟩
  · exact (pairs _).mpr ⟨[['a', 'b'], ['a', 'b']], rfl, by simp⟩
  · rintro ⟨back, member⟩
    obtain ⟨parts, same, each⟩ := (pairs _).mp member
    rcases parts with _ | ⟨front, _ | ⟨next, parts⟩⟩
    · simp at same
    · simp [each front] at same
    · simp [each front, each next] at same
  · intro earlier before
    have pair : Viable (Tree.star (.concat (.leaf 'a' 3) (.leaf 'b' 1))).language
        (List.take 2 ['a', 'b', 'b', 'a']) := ⟨[], (pairs _).mpr ⟨[['a', 'b']], rfl, by simp⟩⟩
    exact pair.take_of_le before

end Construction

end Recognizer
