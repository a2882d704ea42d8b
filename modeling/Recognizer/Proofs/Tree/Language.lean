import Mathlib.Computability.MyhillNerode
import Recognizer.Tree.Follow

/-!
The language of a tree, over its symbols and over its positions. Both are one
recursion that differs in the letter a leaf stands for, so a word of symbols is
a word of positions with every position read as its symbol.
-/

namespace Recognizer.Tree

open scoped Computability

variable {α β : Type}

def words (letter : Char → Nat → α) : Tree → Language α
  | leaf symbol position => {[letter symbol position]}
  | concat left right => left.words letter * right.words letter
  | union left right => left.words letter + right.words letter
  | star child => (child.words letter)∗

def language (tree : Tree) : Language Char :=
  tree.words fun symbol _ => symbol

def positionLanguage (tree : Tree) : Language Nat :=
  tree.words fun _ position => position

def positions (tree : Tree) : List Nat := tree.leaves.map Prod.fst

/-- No position is used twice. -/
def Distinct (tree : Tree) : Prop := tree.positions.Nodup

theorem nil_mem_mul (first second : Language α) :
    [] ∈ first * second ↔ [] ∈ first ∧ [] ∈ second := by
  rw [Language.mem_mul]
  constructor
  · rintro ⟨front, inFirst, back, inSecond, empty⟩
    obtain ⟨noFront, noBack⟩ := List.append_eq_nil_iff.mp empty
    subst noFront noBack
    exact ⟨inFirst, inSecond⟩
  · rintro ⟨inFirst, inSecond⟩
    exact ⟨[], inFirst, [], inSecond, rfl⟩

theorem cons_mem_mul (first second : Language α) (a : α) (word : List α) :
    a :: word ∈ first * second ↔
      word ∈ first.leftQuotient [a] * second ∨ [] ∈ first ∧ a :: word ∈ second := by
  rw [Language.mem_mul, Language.mem_mul]
  constructor
  · rintro ⟨front, inFirst, back, inSecond, same⟩
    cases front with
    | nil => exact Or.inr ⟨inFirst, same ▸ inSecond⟩
    | cons head tail =>
        obtain ⟨rfl, rfl⟩ := List.cons.inj same
        exact Or.inl ⟨tail, inFirst, back, inSecond, rfl⟩
  · rintro (⟨tail, inFirst, back, inSecond, rfl⟩ | ⟨empty, inSecond⟩)
    · exact ⟨a :: tail, inFirst, back, inSecond, rfl⟩
    · exact ⟨[], empty, a :: word, inSecond, rfl⟩

theorem cons_mem_kstar (language : Language α) (a : α) (word : List α) :
    a :: word ∈ language∗ ↔ word ∈ language.leftQuotient [a] * language∗ := by
  constructor
  · intro member
    obtain ⟨parts, same, each⟩ := Language.mem_kstar_iff_exists_nonempty.mp member
    cases parts with
    | nil => cases same
    | cons part parts =>
        obtain ⟨inLanguage, nonempty⟩ := each part List.mem_cons_self
        cases part with
        | nil => exact absurd rfl nonempty
        | cons head tail =>
            obtain ⟨rfl, rfl⟩ := List.cons.inj same
            exact ⟨tail, inLanguage, parts.flatten,
              Language.join_mem_kstar fun other later =>
                (each other (List.mem_cons_of_mem _ later)).1, rfl⟩
  · rintro ⟨tail, inLanguage, back, repeated, rfl⟩
    obtain ⟨parts, rfl, each⟩ := Language.mem_kstar.mp repeated
    refine Language.mem_kstar.mpr ⟨(a :: tail) :: parts, rfl, ?_⟩
    intro part member
    rcases List.mem_cons.mp member with here | later
    · exact here ▸ inLanguage
    · exact each part later

theorem mem_words_leaf (letter : Char → Nat → α) (symbol : Char) (position : Nat)
    (word : List α) :
    word ∈ (leaf symbol position).words letter ↔ word = [letter symbol position] := Iff.rfl

theorem nil_mem_words (letter : Char → Nat → α) (tree : Tree) :
    [] ∈ tree.words letter ↔ tree.nullable = true := by
  induction tree with
  | leaf symbol position =>
      simp [mem_words_leaf, nullable]
  | concat left right ihLeft ihRight =>
      rw [words, nil_mem_mul, ihLeft, ihRight, nullable, Bool.and_eq_true]
  | union left right ihLeft ihRight =>
      rw [words, Language.mem_add, ihLeft, ihRight, nullable, Bool.or_eq_true]
  | star child _ => simp [words, nullable, Language.nil_mem_kstar]

theorem words_nonempty (letter : Char → Nat → α) (tree : Tree) :
    ∃ word, word ∈ tree.words letter := by
  induction tree with
  | leaf symbol position => exact ⟨[letter symbol position], rfl⟩
  | concat left right ihLeft ihRight =>
      obtain ⟨front, inLeft⟩ := ihLeft
      obtain ⟨back, inRight⟩ := ihRight
      exact ⟨front ++ back, Language.append_mem_mul inLeft inRight⟩
  | union left right ihLeft _ =>
      obtain ⟨word, inLeft⟩ := ihLeft
      exact ⟨word, Or.inl inLeft⟩
  | star child _ => exact ⟨[], Language.nil_mem_kstar _⟩

theorem map_words (change : α → β) (letter : Char → Nat → α) (tree : Tree) :
    Language.map change (tree.words letter) =
      tree.words fun symbol position => change (letter symbol position) := by
  induction tree with
  | leaf symbol position => exact Set.image_singleton
  | concat left right ihLeft ihRight => rw [words, map_mul, ihLeft, ihRight, words]
  | union left right ihLeft ihRight => rw [words, map_add, ihLeft, ihRight, words]
  | star child ih => rw [words, Language.map_kstar, ih, words]

/-- Words are made of the letters of leaves only. -/
theorem letter_of_mem_words (letter : Char → Nat → α) (tree : Tree) {word : List α}
    (member : word ∈ tree.words letter) {a : α} (inside : a ∈ word) :
    ∃ entry ∈ tree.leaves, letter entry.2 entry.1 = a := by
  induction tree generalizing word with
  | leaf symbol position =>
      rw [(mem_words_leaf letter symbol position word).mp member, List.mem_singleton] at inside
      exact ⟨(position, symbol), List.mem_singleton_self _, inside.symm⟩
  | concat left right ihLeft ihRight =>
      obtain ⟨front, inLeft, back, inRight, rfl⟩ := Language.mem_mul.mp member
      rcases List.mem_append.mp inside with early | late
      · obtain ⟨entry, among, same⟩ := ihLeft inLeft early
        exact ⟨entry, List.mem_append_left _ among, same⟩
      · obtain ⟨entry, among, same⟩ := ihRight inRight late
        exact ⟨entry, List.mem_append_right _ among, same⟩
  | union left right ihLeft ihRight =>
      rcases (Language.mem_add _ _ _).mp member with inLeft | inRight
      · obtain ⟨entry, among, same⟩ := ihLeft inLeft inside
        exact ⟨entry, List.mem_append_left _ among, same⟩
      · obtain ⟨entry, among, same⟩ := ihRight inRight inside
        exact ⟨entry, List.mem_append_right _ among, same⟩
  | star child ih =>
      obtain ⟨parts, rfl, each⟩ := Language.mem_kstar.mp member
      obtain ⟨part, isPart, inPart⟩ := List.mem_flatten.mp inside
      exact ih (each part isPart) inPart

/-- There is no useless leaf, for no tree has an empty language. -/
theorem exists_word_of_mem_leaves (letter : Char → Nat → α) (tree : Tree) {entry : Nat × Char}
    (among : entry ∈ tree.leaves) :
    ∃ word ∈ tree.words letter, letter entry.2 entry.1 ∈ word := by
  induction tree with
  | leaf symbol position =>
      rw [List.mem_singleton.mp among]
      exact ⟨[letter symbol position], rfl, List.mem_singleton_self _⟩
  | concat left right ihLeft ihRight =>
      rcases List.mem_append.mp among with early | late
      · obtain ⟨front, inLeft, inside⟩ := ihLeft early
        obtain ⟨back, inRight⟩ := words_nonempty letter right
        exact ⟨front ++ back, Language.append_mem_mul inLeft inRight,
          List.mem_append_left _ inside⟩
      · obtain ⟨front, inLeft⟩ := words_nonempty letter left
        obtain ⟨back, inRight, inside⟩ := ihRight late
        exact ⟨front ++ back, Language.append_mem_mul inLeft inRight,
          List.mem_append_right _ inside⟩
  | union left right ihLeft ihRight =>
      rcases List.mem_append.mp among with early | late
      · obtain ⟨word, inLeft, inside⟩ := ihLeft early
        exact ⟨word, Or.inl inLeft, inside⟩
      · obtain ⟨word, inRight, inside⟩ := ihRight late
        exact ⟨word, Or.inr inRight, inside⟩
  | star child ih =>
      obtain ⟨word, inChild, inside⟩ := ih among
      exact ⟨word, le_kstar (a := child.words letter) inChild, inside⟩

theorem symbol_unique (tree : Tree) (distinct : tree.Distinct) {position : Nat}
    {symbol other : Char} (here : (position, symbol) ∈ tree.leaves)
    (there : (position, other) ∈ tree.leaves) : symbol = other :=
  congrArg Prod.snd (List.inj_on_of_nodup_map distinct here there rfl)

/-- The positions carry the symbols of the word, one after the other. -/
def Spells (tree : Tree) (path : List Nat) (word : List Char) : Prop :=
  List.Forall₂ (fun position symbol => (position, symbol) ∈ tree.leaves) path word

theorem spells_entries (tree : Tree) (distinct : tree.Distinct) {entries : List (Nat × Char)}
    (among : ∀ entry ∈ entries, entry ∈ tree.leaves) (word : List Char) :
    tree.Spells (entries.map Prod.fst) word ↔ word = entries.map Prod.snd := by
  induction entries generalizing word with
  | nil => simp [Spells]
  | cons entry entries ih =>
      have here := among entry List.mem_cons_self
      have later := ih fun other member => among other (List.mem_cons_of_mem _ member)
      cases word with
      | nil => simp [Spells]
      | cons symbol word =>
          rw [Spells, List.map_cons, List.forall₂_cons, List.map_cons, List.cons.injEq]
          refine and_congr ⟨fun there => symbol_unique tree distinct there here, ?_⟩ (later word)
          exact fun same => same ▸ here

/-- With distinct positions a word of symbols is a word of positions, read off. -/
theorem mem_language_iff_spelled (tree : Tree) (distinct : tree.Distinct) (word : List Char) :
    word ∈ tree.language ↔ ∃ path ∈ tree.positionLanguage, tree.Spells path word := by
  -- words of entries are read once as symbols and once as positions
  have symbols := map_words Prod.snd (fun symbol position => (position, symbol)) tree
  have positions := map_words Prod.fst (fun symbol position => (position, symbol)) tree
  have among : ∀ entries ∈ tree.words fun symbol position => (position, symbol),
      ∀ entry ∈ entries, entry ∈ tree.leaves := by
    intro entries member entry inside
    obtain ⟨leaf, known, same⟩ := letter_of_mem_words _ tree member inside
    exact same ▸ known
  rw [language, positionLanguage, ← symbols, ← positions]
  constructor
  · rintro ⟨entries, member, rfl⟩
    exact ⟨entries.map Prod.fst, ⟨entries, member, rfl⟩,
      (spells_entries tree distinct (among entries member) _).mpr rfl⟩
  · rintro ⟨_, ⟨entries, member, rfl⟩, spelled⟩
    exact ⟨entries, member,
      ((spells_entries tree distinct (among entries member) word).mp spelled).symm⟩

end Recognizer.Tree
