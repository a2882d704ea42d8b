import Recognizer.Proofs.Automaton.Closure
import Recognizer.Proofs.Automaton.OneThenMany
import Recognizer.Proofs.Pattern.Compilation

/-!
The automaton of two classes. The tree of a class reads one of its leaves, so all of its
positions come first and last and none follows another. This gives the first positions
and the followers of the whole tree, whatever its shape, and with them its two states.
-/

namespace Recognizer

namespace FiniteSet

theorem toList_ofList_range (start count : Nat) :
    (ofList (List.range' start count)).toList = List.range' start count := by
  apply toList_eq_of_ascending
  · simp only [Nat.compare_eq_lt]
    exact List.pairwise_lt_range'
  · intro position
    rw [mem_ofList]

end FiniteSet

namespace Tree

section Alternatives

variable {tree : Tree} (alternatives : tree.Alternatives)

include alternatives

theorem Alternatives.nullable_eq : tree.nullable = false := by
  rw [← Bool.not_eq_true, ← nil_mem_words fun _ position => position, alternatives]
  simp

theorem Alternatives.mem_positionLanguage (path : List Nat) :
    path ∈ tree.positionLanguage ↔ ∃ position ∈ tree.positions, path = [position] := by
  rw [positionLanguage, alternatives, positions]
  simp only [List.mem_map, exists_exists_and_eq_and]

theorem Alternatives.mem_first_iff (position : Nat) :
    position ∈ tree.first ↔ position ∈ tree.positions := by
  simp [Tree.mem_first_iff, Begins, alternatives.mem_positionLanguage]

theorem Alternatives.mem_last_iff (position : Nat) :
    position ∈ tree.last ↔ position ∈ tree.positions := by
  simp [Tree.mem_last_iff, Ends, alternatives.mem_positionLanguage, List.append_eq_singleton_iff]

/-- There are no two positions in a word. -/
theorem Alternatives.not_follows (earlier later : Nat) : ¬tree.Follows earlier later := by
  rw [follows_iff_adjacent]
  rintro ⟨path, member, inside⟩
  obtain ⟨position, _, rfl⟩ := (alternatives.mem_positionLanguage path).mp member
  exact absurd inside.length_le (by simp)

end Alternatives

end Tree

namespace TwoClasses

/-- The positions of the first class. -/
def before (first : CharacterClass) : Positions :=
  FiniteSet.ofList (List.range' 1 first.symbols.length)

/-- The positions of the second class and then that of the end marker. -/
def later (first rest : CharacterClass) : Positions :=
  FiniteSet.ofList (List.range' (first.symbols.length + 1) (rest.symbols.length + 1))

theorem mem_before (first : CharacterClass) (position : Nat) :
    position ∈ before first ↔ 1 ≤ position ∧ position < 1 + first.symbols.length := by
  rw [before, FiniteSet.mem_ofList, List.mem_range'_1]

theorem mem_later (first rest : CharacterClass) (position : Nat) :
    position ∈ later first rest ↔ first.symbols.length + 1 ≤ position ∧
      position < first.symbols.length + 1 + (rest.symbols.length + 1) := by
  rw [later, FiniteSet.mem_ofList, List.mem_range'_1]

theorem compare_before_later {first : CharacterClass} (someFirst : first.symbols ≠ [])
    (rest : CharacterClass) : compare (before first) (later first rest) = .lt := by
  obtain ⟨others, size⟩ : ∃ others, first.symbols.length = others + 1 :=
    Nat.exists_eq_succ_of_ne_zero (List.length_eq_zero_iff.not.mpr someFirst)
  have lower : compare 1 (others + 1 + 1) = .lt := Nat.compare_eq_lt.mpr (by omega)
  change compare (before first).toList (later first rest).toList = .lt
  rw [before, later, FiniteSet.toList_ofList_range, FiniteSet.toList_ofList_range, size,
    List.range'_succ, List.range'_succ, List.compare_cons_cons, lower]
  rfl

section Tree

variable {first rest : CharacterClass} (classes : TwoClasses first rest)

theorem mem_leaves (leaf : Nat × Char) :
    leaf ∈ classes.tree.leaves ↔ leaf ∈ classes.head.leaves ∨ leaf ∈ classes.tail.leaves ∨
      leaf = (first.symbols.length + rest.symbols.length + 1, endMarker) := by
  simp [tree, body, Tree.leaves]

/-- A leaf that can be read belongs to one of the classes. -/
theorem leaf_iff (position : Nat) (c : Char) :
    c ≠ endMarker ∧ (position, c) ∈ classes.tree.leaves ↔
      (position, c) ∈ classes.head.leaves ∨ (position, c) ∈ classes.tail.leaves := by
  rw [mem_leaves]
  constructor
  · rintro ⟨unmarked, inHead | inTail | isFinal⟩
    · exact Or.inl inHead
    · exact Or.inr inTail
    · exact absurd (congrArg Prod.snd isFinal) unmarked
  · rintro (inHead | inTail)
    · exact ⟨classes.ofFirst.unmarked _ inHead, Or.inl inHead⟩
    · exact ⟨classes.ofRest.unmarked _ inTail, Or.inr (Or.inl inTail)⟩

theorem first_eq : classes.tree.first = before first := by
  apply Std.ExtTreeSet.ext_mem
  intro position
  have heads := classes.ofFirst.alternatives
  simp [tree, body, Tree.mem_first_concat, Tree.nullable, heads.nullable_eq, heads.mem_first_iff,
    classes.ofFirst.positions_eq, mem_before, List.mem_range'_1]

/-- What follows a position of either class are the positions of the second state. -/
theorem follows_iff (position next : Nat) :
    classes.tree.Follows position next ↔
      (position ∈ classes.head.positions ∨ position ∈ classes.tail.positions) ∧
        next ∈ later first rest := by
  have heads := classes.ofFirst.alternatives
  have tails := classes.ofRest.alternatives
  have last : position ∈ classes.body.last ↔
      position ∈ classes.head.positions ∨ position ∈ classes.tail.positions := by
    rw [body, Tree.mem_last_concat]
    simp [Tree.nullable, Tree.last, heads.mem_last_iff, tails.mem_last_iff]
  have after : next ∈ later first rest ↔ next ∈ classes.tail.positions ∨
      next = first.symbols.length + rest.symbols.length + 1 := by
    rw [classes.ofRest.positions_eq, mem_later, List.mem_range'_1]
    omega
  rw [tree, Tree.Follows, last, after]
  simp only [body, Tree.Follows, Tree.first, heads.not_follows, tails.not_follows,
    heads.mem_last_iff, tails.mem_first_iff, tails.mem_last_iff, FiniteSet.mem_singleton_iff,
    false_or]
  tauto

/-- Some position of a state stands for the character. -/
def Offers (state : Positions) (c : Char) : Prop :=
  ∃ position ∈ state, (position, c) ∈ classes.head.leaves ∨ (position, c) ∈ classes.tail.leaves

theorem offers_before (c : Char) : classes.Offers (before first) c ↔ c ∈ first.chars := by
  simp only [Offers, mem_before, classes.ofFirst.mem_chars_iff]
  constructor
  · rintro ⟨position, inside, inHead | inTail⟩
    · exact ⟨position, inHead⟩
    · have bounds := classes.ofRest.bounds inTail
      omega
  · rintro ⟨position, inHead⟩
    exact ⟨position, classes.ofFirst.bounds inHead, Or.inl inHead⟩

theorem offers_later (c : Char) : classes.Offers (later first rest) c ↔ c ∈ rest.chars := by
  simp only [Offers, mem_later, classes.ofRest.mem_chars_iff]
  constructor
  · rintro ⟨position, inside, inHead | inTail⟩
    · have bounds := classes.ofFirst.bounds inHead
      omega
    · exact ⟨position, inTail⟩
  · rintro ⟨position, inTail⟩
    have bounds := classes.ofRest.bounds inTail
    exact ⟨position, by omega, Or.inr inTail⟩

theorem mem_move (distinct : classes.tree.Distinct) (state : Positions) (c : Char) (next : Nat) :
    next ∈ classes.tree.move state c ↔ classes.Offers state c ∧ next ∈ later first rest := by
  rw [Tree.mem_move _ distinct]
  constructor
  · rintro ⟨unmarked, position, inside, leaf, follows⟩
    exact ⟨⟨position, inside, (classes.leaf_iff position c).mp ⟨unmarked, leaf⟩⟩,
      ((classes.follows_iff position next).mp follows).2⟩
  · rintro ⟨⟨position, inside, among⟩, isLater⟩
    obtain ⟨unmarked, leaf⟩ := (classes.leaf_iff position c).mpr among
    refine ⟨unmarked, position, inside, leaf, (classes.follows_iff position next).mpr ⟨?_, isLater⟩⟩
    exact among.imp List.mem_map_of_mem List.mem_map_of_mem

end Tree

section Represents

variable {first rest : CharacterClass} {classes : TwoClasses first rest}
  {construction : Construction} (represents : construction.Represents classes.tree)

include represents

theorem endPosition_eq :
    construction.endPosition = first.symbols.length + rest.symbols.length + 1 := by
  symm
  rw [← represents.marked, classes.mem_leaves]
  exact Or.inr (Or.inr rfl)

/-- A state that offers a character moves to the second state. -/
theorem next_iff (state : Positions) (c : Char) (target : Positions) :
    construction.automaton.next state c = some target ↔
      state ∈ construction.automaton.states ∧ target = later first rest ∧
        classes.Offers state c := by
  rw [represents.next]
  apply and_congr_right
  intro _
  have moves := classes.mem_move represents.distinct state c
  constructor
  · rintro ⟨rfl, next, member⟩
    have offered := ((moves next).mp member).1
    refine ⟨Std.ExtTreeSet.ext_mem fun next => ?_, offered⟩
    rw [moves, and_iff_right offered]
  · rintro ⟨rfl, offered⟩
    refine ⟨Std.ExtTreeSet.ext_mem fun next => ?_, first.symbols.length + 1, ?_⟩
    · rw [moves, and_iff_right offered]
    · rw [mem_later]
      omega

theorem mem_states_iff (someFirst : first.symbols ≠ []) (state : Positions) :
    state ∈ construction.automaton.states ↔ state = before first ∨ state = later first rest := by
  have start : before first ∈ construction.automaton.states := by
    rw [← classes.first_eq, represents.states]
    exact Or.inl rfl
  constructor
  · rw [represents.states, classes.first_eq]
    rintro (isFirst | ⟨source, _, c, moved⟩)
    · exact Or.inl isFirst
    · exact Or.inr ((next_iff represents source c state).mp moved).2.1
  · rintro (rfl | rfl)
    · exact start
    · obtain ⟨symbol, symbols, same⟩ := List.exists_cons_of_ne_nil someFirst
      have listed : symbol.char ∈ first.chars := by simp [CharacterClass.chars, same]
      apply represents.closed _ start symbol.char
      rw [next_iff represents]
      exact ⟨start, rfl, (classes.offers_before symbol.char).mpr listed⟩

theorem readsOneThenMany (someFirst : first.symbols ≠ []) :
    construction.automaton.ReadsOneThenMany first rest (before first) (later first rest) := by
  have states := mem_states_iff represents someFirst
  constructor
  case states =>
    apply FiniteSet.toList_eq_of_ascending
    · rw [List.pairwise_pair]
      exact compare_before_later someFirst rest
    · simp [states]
  case start => rw [represents.start, classes.first_eq]
  case accepts =>
    apply FiniteSet.toList_eq_of_ascending (List.pairwise_singleton _ _)
    intro state
    rw [represents.mem_accepts_iff, states, endPosition_eq represents, List.mem_singleton]
    constructor
    · rintro rfl
      refine ⟨Or.inr rfl, ?_⟩
      rw [mem_later]
      omega
    · rintro ⟨rfl | rfl, marked⟩
      · rw [mem_before] at marked
        omega
      · rfl
  case alphabet =>
    intro c
    rw [represents.alphabet, ← exists_and_left, classes.ofFirst.mem_chars_iff,
      classes.ofRest.mem_chars_iff, ← exists_or]
    simp only [classes.leaf_iff]
  case next =>
    intro state c target
    rw [next_iff represents, states]
    constructor
    · rintro ⟨rfl | rfl, rfl, offered⟩
      · exact ⟨rfl, Or.inl ⟨rfl, (classes.offers_before c).mp offered⟩⟩
      · exact ⟨rfl, Or.inr ⟨rfl, (classes.offers_later c).mp offered⟩⟩
    · rintro ⟨rfl, ⟨rfl, listed⟩ | ⟨rfl, listed⟩⟩
      · exact ⟨Or.inl rfl, rfl, (classes.offers_before c).mpr listed⟩
      · exact ⟨Or.inr rfl, rfl, (classes.offers_later c).mpr listed⟩

end Represents

end TwoClasses

/-- Two classes always lead to the same two states, and minimizing leaves these alone.
Their sizes tell the positions apart, so it makes no difference what the classes share. -/
theorem Construction.two_classes_make_two_states (first rest : CharacterClass)
    (someFirst : first.symbols ≠ []) (someRest : rest.symbols ≠ []) :
    ∃ tree construction minimal,
      Tree.identifier first rest = .ok tree ∧
      ofTree tree = .ok construction ∧
      construction.endPosition = first.symbols.length + rest.symbols.length + 1 ∧
      construction.automaton.ReadsOneThenMany first rest (TwoClasses.before first)
        (TwoClasses.later first rest) ∧
      construction.automaton.minimize = .ok minimal ∧
      minimal.ReadsOneThenMany first rest {TwoClasses.before first}
        {TwoClasses.later first rest} ∧
      ∀ word, construction.automaton.recognizes word = true ↔
        ∃ c tail, word = c :: tail ∧ c ∈ first.chars ∧ ∀ d ∈ tail, d ∈ rest.chars := by
  obtain ⟨classes, grown⟩ := Tree.exists_twoClasses someFirst someRest
  obtain ⟨construction, built⟩ : ∃ construction, ofTree classes.tree = .ok construction :=
    exists_of_closed classes.numbered_body classes.unmarked_body
  have represents := represents_of_ofTree built
  have reads := TwoClasses.readsOneThenMany represents someFirst
  obtain ⟨minimal, reduced, same⟩ := reads.exists_minimize
  exact ⟨classes.tree, construction, minimal, grown, built, TwoClasses.endPosition_eq represents,
    reads, reduced, same, reads.recognizes_iff⟩

/-- The letter that the classes share has a position in each of the states. -/
theorem Construction.states_of_shared_letter :
    let a : Symbol := ⟨'a', by decide, by decide⟩
    let b : Symbol := ⟨'b', by decide, by decide⟩
    ∃ tree construction minimal,
      Tree.identifier ⟨[a], by decide⟩ ⟨[a, b], by decide⟩ = .ok tree ∧
      ofTree tree = .ok construction ∧
      construction.automaton.states.toList =
        [FiniteSet.ofList [1], FiniteSet.ofList [2, 3, 4]] ∧
      construction.automaton.minimize = .ok minimal ∧
      minimal.states.toList =
        [{FiniteSet.ofList [1]}, {FiniteSet.ofList [2, 3, 4]}] ∧
      construction.automaton.recognizes "abba".toList = true := by
  intro a b
  obtain ⟨tree, construction, minimal, grown, built, _, reads, reduced, same, recognizes⟩ :=
    two_classes_make_two_states ⟨[a], by decide⟩ ⟨[a, b], by decide⟩
      (List.cons_ne_nil _ _) (List.cons_ne_nil _ _)
  refine ⟨tree, construction, minimal, grown, built, reads.states, reduced, same.states, ?_⟩
  refine (recognizes _).mpr ⟨'a', ['b', 'b', 'a'], rfl, ?_, ?_⟩
  · simp [CharacterClass.chars, a]
  · simp [CharacterClass.chars, a, b]

end Recognizer
