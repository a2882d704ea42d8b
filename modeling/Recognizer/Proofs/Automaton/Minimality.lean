import Recognizer.Proofs.Automaton.Residuals

/-!
The minimal automaton of a tree that the end marker closes. Its automaton has no
useless states: a set of positions is reached by a word, and from each position
some word leads to the marker. So minimizing it leaves the residuals of what
stands before the marker.
-/

namespace Recognizer.Construction

variable {body : Tree} {position : Nat} {construction : Construction}

theorem append_mem_readable {tree : Tree} (represents : construction.Represents tree)
    {state final : Positions} {front back : List Char}
    (ended : construction.automaton.runFrom state front = some final)
    (readable : back ∈ tree.readable final) :
    endMarker ∉ front ∧ front ++ back ∈ tree.readable state := by
  have more : back ≠ [] := fun empty => tree.nil_not_mem_readable final (empty ▸ readable)
  induction front generalizing state with
  | nil =>
      cases ended
      exact ⟨List.not_mem_nil, readable⟩
  | cons symbol front ih =>
      rw [Automaton.runFrom_cons, Option.bind_eq_some_iff] at ended
      obtain ⟨target, moved, onward⟩ := ended
      obtain ⟨unmarked, member⟩ := ih onward
      obtain ⟨_, rfl, later, inside⟩ := (represents.next state symbol target).mp moved
      have plain := ((tree.mem_move represents.distinct state symbol later).mp inside).1
      refine ⟨?_, (tree.mem_readable_move represents.distinct state symbol plain _
        (List.append_ne_nil_of_right_ne_nil front more)).mp member⟩
      rw [List.mem_cons, not_or]
      exact ⟨plain.symm, unmarked⟩

section Closed

variable (represents : construction.Represents (.concat body (.leaf endMarker position)))

include represents

theorem exists_mem_readable {state : Positions} (known : state ∈ construction.automaton.states) :
    ∃ word, word ∈ (Tree.concat body (.leaf endMarker position)).readable state := by
  rcases (represents.states state).mp known with rfl | ⟨source, _, symbol, moved⟩
  · obtain ⟨front, inBody⟩ := Tree.words_nonempty (fun symbol _ => symbol) body
    have unmarked := endMarker_not_mem_of_mem_body represents inBody
    have member := (followed_by_marker_iff represents unmarked []).mpr ⟨inBody, rfl⟩
    have readable := Tree.mem_readable_first _ represents.distinct
    cases front with
    | nil => exact ⟨[endMarker], (readable endMarker []).mpr member⟩
    | cons symbol front => exact ⟨_, (readable symbol (front ++ [endMarker])).mpr member⟩
  · obtain ⟨_, rfl, later, inside⟩ := (represents.next source symbol state).mp moved
    obtain ⟨_, earlier, _, _, follows⟩ :=
      (Tree.mem_move _ represents.distinct source symbol later).mp inside
    obtain ⟨⟨_, letter⟩, leaf, rfl⟩ :=
      List.mem_map.mp (Tree.mem_positions_of_follows _ follows).2
    obtain ⟨word, readable⟩ :=
      Tree.exists_cons_mem_readable _ represents.distinct inside leaf
    exact ⟨letter :: word, readable⟩

/-- What can be read from a state ends with the marker, for together with a word that
leads to the state it is a word of the tree. -/
theorem languageFrom_ne_zero {state : Positions} (known : state ∈ construction.automaton.states) :
    construction.automaton.languageFrom state ≠ 0 := by
  obtain ⟨front, ended⟩ := represents.reached state known
  obtain ⟨back, readable⟩ := exists_mem_readable represents known
  rcases List.eq_nil_or_concat back with rfl | ⟨word, last, rfl⟩
  · exact absurd readable (Tree.nil_not_mem_readable _ state)
  · obtain ⟨_, member⟩ := append_mem_readable represents ended readable
    rw [represents.start] at member
    -- the whole word ends with the marker, and so does the part that is left to read
    have whole : front ++ word.concat last ∈
        (Tree.concat body (.leaf endMarker position)).language := by
      cases both : front ++ word.concat last with
      | nil => simp at both
      | cons symbol rest =>
          rw [both] at member
          exact (Tree.mem_readable_first _ represents.distinct symbol rest).mp member
    obtain ⟨inner, inBody, _, rfl, same⟩ := Language.mem_mul.mp whole
    rw [List.concat_eq_append, ← List.append_assoc] at same
    obtain ⟨rfl, lasts⟩ := List.append_inj' same rfl
    cases lasts
    have unmarked := endMarker_not_mem_of_mem_body represents inBody
    have accepted := (mem_languageFrom_iff represents state known word).mpr
      ⟨fun inside => unmarked (List.mem_append_right front inside), [],
        by rwa [← List.concat_eq_append]⟩
    intro none
    rw [none] at accepted
    exact accepted

theorem mem_alphabet_iff (symbol : Char) :
    symbol ∈ construction.automaton.alphabet ↔ ∃ word ∈ body.language, symbol ∈ word := by
  rw [represents.alphabet]
  constructor
  · rintro ⟨plain, other, leaf⟩
    rcases List.mem_append.mp leaf with inBody | marker
    · exact Tree.exists_word_of_mem_leaves (fun symbol _ => symbol) body inBody
    · cases List.mem_singleton.mp marker
      exact absurd rfl plain
  · rintro ⟨word, inBody, inside⟩
    obtain ⟨⟨other, _⟩, leaf, rfl⟩ :=
      Tree.letter_of_mem_words (fun symbol _ => symbol) body inBody inside
    refine ⟨fun marker => endMarker_not_mem_of_mem_body represents inBody ?_, other,
      List.mem_append_left _ leaf⟩
    exact marker ▸ inside

theorem trim_of_closed : construction.automaton.Trim where
  start := represents.start_mem
  uses := represents.usesAlphabet
  closed := represents.closed
  reached := represents.reached
  alive _ := languageFrom_ne_zero represents
  alphabet := by
    rw [language_closed represents]
    exact mem_alphabet_iff represents

end Closed

open Automaton

/-- The minimal automaton of a closed tree is that of the residuals of its body. None
for the same words has fewer reachable states, and every tree for the same words yields
the same automaton up to the names of its states. -/
theorem minimize_realizesResiduals (body : Tree) (position : Nat) (construction : Construction)
    (built : ofTree (.concat body (.leaf endMarker position)) = .ok construction) :
    ∃ minimal, construction.automaton.minimize = .ok minimal ∧
      minimal.RealizesResiduals body.language ∧
      (∀ (τ : Type) [Ordered τ] (other : Automaton τ),
        (∀ word, other.recognizes word = true ↔ word ∈ body.language) →
          minimal.states.size ≤ other.reachableStates.encard) ∧
      ∀ body' position' construction' minimal',
        ofTree (.concat body' (.leaf endMarker position')) = .ok construction' →
        body'.language = body.language → construction'.automaton.minimize = .ok minimal' →
          ∃ rename, Renames rename minimal minimal' := by
  -- the same holds of both trees, and it leaves only the names of the states open
  have each : ∀ {body : Tree} {position : Nat} {construction : Construction},
      ofTree (.concat body (.leaf endMarker position)) = .ok construction →
        ∃ minimal, construction.automaton.minimize = .ok minimal ∧
          minimal.RealizesResiduals body.language := by
    intro body position construction built
    have represents := represents_of_ofTree built
    obtain ⟨minimal, succeeded, merges⟩ := minimizeWith_eq_ok construction.automaton .first
      represents.start_mem represents.usesAlphabet
    refine ⟨minimal, succeeded, ?_⟩
    rw [← language_closed represents]
    exact (trim_of_closed represents).realizesResiduals merges
  obtain ⟨minimal, succeeded, realizes⟩ := each built
  refine ⟨minimal, succeeded, realizes, fun τ _ other => realizes.size_le other, ?_⟩
  intro body' position' construction' minimal' built' same succeeded'
  obtain ⟨_, found, realizes'⟩ := each built'
  cases succeeded'.symm.trans found
  exact exists_renames realizes (same ▸ realizes')

/-- The order of the alternatives and the positions make no difference. -/
theorem minimize_swapped_alternatives :
    ∃ construction construction' minimal minimal',
      ofTree (.concat (.union (.leaf 'a' 1) (.leaf 'b' 2)) (.leaf endMarker 3)) =
        .ok construction ∧
      ofTree (.concat (.union (.leaf 'b' 2) (.leaf 'a' 3)) (.leaf endMarker 1)) =
        .ok construction' ∧
      construction.automaton.minimize = .ok minimal ∧
      construction'.automaton.minimize = .ok minimal' ∧
      minimal.states.size ≤ minimal'.reachableStates.encard ∧
      ∃ rename, Renames rename minimal minimal' := by
  obtain ⟨construction, built⟩ : ∃ construction, ofTree (.concat (.union (.leaf 'a' 1)
      (.leaf 'b' 2)) (.leaf endMarker 3)) = .ok construction := ⟨_, rfl⟩
  obtain ⟨construction', built'⟩ : ∃ construction, ofTree (.concat (.union (.leaf 'b' 2)
      (.leaf 'a' 3)) (.leaf endMarker 1)) = .ok construction := ⟨_, rfl⟩
  obtain ⟨minimal, succeeded, _, smallest, unique⟩ :=
    minimize_realizesResiduals _ _ construction built
  obtain ⟨minimal', succeeded', realizes, _⟩ :=
    minimize_realizesResiduals _ _ construction' built'
  have same : (Tree.union (.leaf 'b' 2) (.leaf 'a' 3)).language =
      (Tree.union (.leaf 'a' 1) (.leaf 'b' 2)).language := Set.union_comm _ _
  refine ⟨construction, construction', minimal, minimal', built, built', succeeded, succeeded',
    smallest _ minimal' fun word => ?_, unique _ _ _ minimal' built' same succeeded'⟩
  rw [minimal'.recognizes_iff_mem_language, language, (realizes.alive [] _ rfl).2, same]
  rfl

end Recognizer.Construction
