import Mathlib.Data.List.Infix
import Recognizer.Proofs.Tree.Language

/-!
What can be seen of a language one or two letters at a time: how its words start, how
they end and which letters stand side by side. For words of positions this is what the
first and the last positions of a tree are, and which position can follow which one.
-/

namespace Recognizer

open scoped Computability

section Languages

variable {α : Type}

/-- Some word starts with the letter. -/
def Begins (language : Language α) (a : α) : Prop :=
  ∃ word, a :: word ∈ language

/-- Some word ends with the letter. -/
def Ends (language : Language α) (a : α) : Prop :=
  ∃ word, word ++ [a] ∈ language

/-- Some word has the second letter right after the first one. -/
def Adjacent (language : Language α) (a b : α) : Prop :=
  ∃ word ∈ language, [a, b] <:+: word

variable {first second language : Language α} {a b : α}

theorem begins_add : Begins (first + second) a ↔ Begins first a ∨ Begins second a :=
  exists_or

theorem begins_mul (some : ∃ word, word ∈ second) :
    Begins (first * second) a ↔ Begins first a ∨ [] ∈ first ∧ Begins second a := by
  constructor
  · rintro ⟨word, member⟩
    rcases (Tree.cons_mem_mul first second a word).mp member with
      ⟨tail, inFirst, _⟩ | ⟨empty, inSecond⟩
    · exact Or.inl ⟨tail, inFirst⟩
    · exact Or.inr ⟨empty, word, inSecond⟩
  · rintro (⟨word, inFirst⟩ | ⟨empty, word, inSecond⟩)
    · obtain ⟨back, inSecond⟩ := some
      exact ⟨word ++ back, Language.append_mem_mul inFirst inSecond⟩
    · exact ⟨word, Language.append_mem_mul empty inSecond⟩

theorem begins_kstar : Begins language∗ a ↔ Begins language a := by
  constructor
  · rintro ⟨word, member⟩
    obtain ⟨tail, inLanguage, _⟩ := (Tree.cons_mem_kstar language a word).mp member
    exact ⟨tail, inLanguage⟩
  · rintro ⟨word, member⟩
    exact ⟨word, le_kstar (a := language) member⟩

theorem begins_reverse : Begins language.reverse a ↔ Ends language a := by
  constructor
  · rintro ⟨word, member⟩
    rw [Language.mem_reverse, List.reverse_cons] at member
    exact ⟨word.reverse, member⟩
  · rintro ⟨word, member⟩
    refine ⟨word.reverse, ?_⟩
    rwa [Language.mem_reverse, List.reverse_cons, List.reverse_reverse]

theorem ends_add : Ends (first + second) a ↔ Ends first a ∨ Ends second a :=
  exists_or

theorem ends_mul (some : ∃ word, word ∈ first) :
    Ends (first * second) a ↔ [] ∈ second ∧ Ends first a ∨ Ends second a := by
  have backwards : ∃ word, word ∈ first.reverse := by
    obtain ⟨word, member⟩ := some
    exact ⟨word.reverse, Language.reverse_mem_reverse.mpr member⟩
  rw [← begins_reverse, Language.reverse_mul, begins_mul backwards, begins_reverse,
    begins_reverse, Language.mem_reverse, List.reverse_nil, or_comm]

theorem ends_kstar : Ends language∗ a ↔ Ends language a := by
  rw [← begins_reverse, Language.reverse_kstar, begins_kstar, begins_reverse]

theorem pair_infix_append (front back : List α) :
    [a, b] <:+: front ++ back ↔
      [a, b] <:+: front ∨ [a, b] <:+: back ∨ [a] <:+ front ∧ [b] <+: back := by
  rw [List.infix_append_iff]
  constructor
  · rintro (early | late | ⟨left, right, same, ending, starting⟩)
    · exact Or.inl early
    · exact Or.inr (Or.inl late)
    · rcases left with _ | ⟨x, _ | ⟨y, left⟩⟩
      · exact Or.inr (Or.inl (same ▸ starting.isInfix))
      · cases same
        exact Or.inr (Or.inr ⟨ending, starting⟩)
      · obtain ⟨rfl, rfl, nothing⟩ : a = x ∧ b = y ∧ [] = left ++ right := by simpa using same
        rw [(List.append_eq_nil_iff.mp nothing.symm).1] at ending
        exact Or.inl ending.isInfix
  · rintro (early | late | ⟨ending, starting⟩)
    · exact Or.inl early
    · exact Or.inr (Or.inl late)
    · exact Or.inr (Or.inr ⟨[a], [b], rfl, ending, starting⟩)

theorem adjacent_add : Adjacent (first + second) a b ↔ Adjacent first a b ∨ Adjacent second a b := by
  simp only [Adjacent, Language.mem_add, or_and_right, exists_or]

theorem adjacent_mul (someFirst : ∃ word, word ∈ first) (someSecond : ∃ word, word ∈ second) :
    Adjacent (first * second) a b ↔
      Adjacent first a b ∨ Adjacent second a b ∨ Ends first a ∧ Begins second b := by
  constructor
  · rintro ⟨_, ⟨front, inFirst, back, inSecond, rfl⟩, inside⟩
    rcases (pair_infix_append front back).mp inside with
      early | late | ⟨⟨start, rfl⟩, ⟨final, rfl⟩⟩
    · exact Or.inl ⟨front, inFirst, early⟩
    · exact Or.inr (Or.inl ⟨back, inSecond, late⟩)
    · exact Or.inr (Or.inr ⟨⟨start, inFirst⟩, ⟨final, inSecond⟩⟩)
  · rintro (⟨front, inFirst, early⟩ | ⟨back, inSecond, late⟩ |
      ⟨⟨start, inFirst⟩, ⟨final, inSecond⟩⟩)
    · obtain ⟨back, inSecond⟩ := someSecond
      exact ⟨front ++ back, Language.append_mem_mul inFirst inSecond,
        (pair_infix_append front back).mpr (Or.inl early)⟩
    · obtain ⟨front, inFirst⟩ := someFirst
      exact ⟨front ++ back, Language.append_mem_mul inFirst inSecond,
        (pair_infix_append front back).mpr (Or.inr (Or.inl late))⟩
    · exact ⟨(start ++ [a]) ++ b :: final, Language.append_mem_mul inFirst inSecond, start, final,
        by simp⟩

/-- Side by side in one part, or where a part ends and the next one starts. -/
theorem adjacent_kstar :
    Adjacent language∗ a b ↔ Adjacent language a b ∨ Ends language a ∧ Begins language b := by
  constructor
  · rintro ⟨_, member, inside⟩
    obtain ⟨parts, rfl, each⟩ := Language.mem_kstar.mp member
    clear member
    induction parts with
    | nil => simp at inside
    | cons part parts ih =>
        have others : ∀ other ∈ parts, other ∈ language :=
          fun other later => each other (List.mem_cons_of_mem part later)
        have here := each part List.mem_cons_self
        rw [List.flatten_cons] at inside
        rcases (pair_infix_append part parts.flatten).mp inside with
          early | late | ⟨⟨start, rfl⟩, ⟨final, joined⟩⟩
        · exact Or.inl ⟨part, here, early⟩
        · exact ih others late
        · -- the next letter starts a later part, those between are empty
          have starts : Begins language∗ b := ⟨final, Language.mem_kstar.mpr ⟨parts, joined, others⟩⟩
          exact Or.inr ⟨⟨start, here⟩, begins_kstar.mp starts⟩
  · rintro (⟨word, member, inside⟩ | ⟨⟨start, early⟩, ⟨final, late⟩⟩)
    · exact ⟨word, le_kstar (a := language) member, inside⟩
    · refine ⟨(start ++ [a]) ++ b :: final, Language.mem_kstar.mpr
        ⟨[start ++ [a], b :: final], by simp, ?_⟩, start, final, by simp⟩
      exact List.forall_mem_cons.mpr ⟨early, List.forall_mem_singleton.mpr late⟩

end Languages

namespace Tree

/-- The second position can come right after the first one. -/
def Follows : Tree → Nat → Nat → Prop
  | leaf _ _, _, _ => False
  | concat left right, earlier, later =>
      left.Follows earlier later ∨ right.Follows earlier later ∨
        earlier ∈ left.last ∧ later ∈ right.first
  | union left right, earlier, later => left.Follows earlier later ∨ right.Follows earlier later
  | star child, earlier, later =>
      child.Follows earlier later ∨ earlier ∈ child.last ∧ later ∈ child.first

section Concat

variable (left right : Tree) (position : Nat)

theorem mem_first_concat :
    position ∈ (concat left right).first ↔
      position ∈ left.first ∨ left.nullable = true ∧ position ∈ right.first := by
  cases empty : left.nullable <;> simp [first, empty]

theorem mem_last_concat :
    position ∈ (concat left right).last ↔
      right.nullable = true ∧ position ∈ left.last ∨ position ∈ right.last := by
  cases empty : right.nullable <;> simp [last, empty]

end Concat

theorem mem_first_iff (tree : Tree) (position : Nat) :
    position ∈ tree.first ↔ Begins tree.positionLanguage position := by
  induction tree with
  | leaf symbol own =>
      rw [first, FiniteSet.mem_singleton_iff]
      constructor
      · rintro rfl
        exact ⟨[], rfl⟩
      · rintro ⟨word, member⟩
        exact (List.cons.inj member).1
  | concat left right ihLeft ihRight =>
      rw [mem_first_concat, ihLeft, ihRight, ← nil_mem_words fun _ position => position]
      exact (begins_mul (words_nonempty _ right)).symm
  | union left right ihLeft ihRight =>
      rw [first, Std.ExtTreeSet.mem_union_iff, ihLeft, ihRight]
      exact begins_add.symm
  | star child ih =>
      rw [first, ih]
      exact begins_kstar.symm

theorem mem_last_iff (tree : Tree) (position : Nat) :
    position ∈ tree.last ↔ Ends tree.positionLanguage position := by
  induction tree with
  | leaf symbol own =>
      rw [last, FiniteSet.mem_singleton_iff]
      constructor
      · rintro rfl
        exact ⟨[], rfl⟩
      · rintro ⟨word, member⟩
        exact List.mem_singleton.mp (member ▸ List.mem_append_right word List.mem_cons_self)
  | concat left right ihLeft ihRight =>
      rw [mem_last_concat, ihLeft, ihRight, ← nil_mem_words fun _ position => position]
      exact (ends_mul (words_nonempty _ left)).symm
  | union left right ihLeft ihRight =>
      rw [last, Std.ExtTreeSet.mem_union_iff, ihLeft, ihRight]
      exact ends_add.symm
  | star child ih =>
      rw [last, ih]
      exact ends_kstar.symm

theorem follows_iff_adjacent (tree : Tree) (earlier later : Nat) :
    tree.Follows earlier later ↔ Adjacent tree.positionLanguage earlier later := by
  induction tree with
  | leaf symbol own =>
      -- a word of one letter has no two letters side by side
      refine iff_of_false id ?_
      rintro ⟨_, rfl, inside⟩
      exact absurd inside.length_le (by simp)
  | concat left right ihLeft ihRight =>
      rw [Follows, ihLeft, ihRight, mem_last_iff, mem_first_iff]
      exact (adjacent_mul (words_nonempty _ left) (words_nonempty _ right)).symm
  | union left right ihLeft ihRight =>
      rw [Follows, ihLeft, ihRight]
      exact adjacent_add.symm
  | star child ih =>
      rw [Follows, ih, mem_last_iff, mem_first_iff]
      exact adjacent_kstar.symm

theorem mem_positions_of_mem_word (tree : Tree) {path : List Nat}
    (member : path ∈ tree.positionLanguage) {position : Nat} (inside : position ∈ path) :
    position ∈ tree.positions := by
  obtain ⟨entry, among, same⟩ := letter_of_mem_words _ tree member inside
  exact List.mem_map.mpr ⟨entry, among, same⟩

theorem mem_positions_of_mem_first (tree : Tree) {position : Nat}
    (member : position ∈ tree.first) : position ∈ tree.positions := by
  obtain ⟨path, inLanguage⟩ := (tree.mem_first_iff position).mp member
  exact tree.mem_positions_of_mem_word inLanguage List.mem_cons_self

theorem mem_positions_of_mem_last (tree : Tree) {position : Nat}
    (member : position ∈ tree.last) : position ∈ tree.positions := by
  obtain ⟨path, inLanguage⟩ := (tree.mem_last_iff position).mp member
  exact tree.mem_positions_of_mem_word inLanguage List.mem_concat_self

theorem mem_positions_of_follows (tree : Tree) {earlier later : Nat}
    (follows : tree.Follows earlier later) :
    earlier ∈ tree.positions ∧ later ∈ tree.positions := by
  obtain ⟨path, inLanguage, inside⟩ := (tree.follows_iff_adjacent earlier later).mp follows
  exact ⟨tree.mem_positions_of_mem_word inLanguage (inside.mem (by simp)),
    tree.mem_positions_of_mem_word inLanguage (inside.mem (by simp))⟩

theorem exists_leaf (tree : Tree) : ∃ entry, entry ∈ tree.leaves := by
  induction tree with
  | leaf symbol position => exact ⟨(position, symbol), List.mem_singleton_self _⟩
  | concat left right ihLeft _ =>
      obtain ⟨entry, among⟩ := ihLeft
      exact ⟨entry, List.mem_append_left _ among⟩
  | union left right ihLeft _ =>
      obtain ⟨entry, among⟩ := ihLeft
      exact ⟨entry, List.mem_append_left _ among⟩
  | star child ih => exact ih

/-- A tree has a leaf, and a word with that leaf in it has a first and a last letter. -/
theorem exists_nonempty_word (tree : Tree) : ∃ path ∈ tree.positionLanguage, path ≠ [] := by
  obtain ⟨entry, among⟩ := tree.exists_leaf
  obtain ⟨path, member, inside⟩ :=
    exists_word_of_mem_leaves (fun _ position => position) tree among
  exact ⟨path, member, List.ne_nil_of_mem inside⟩

theorem exists_mem_first (tree : Tree) : ∃ position, position ∈ tree.first := by
  obtain ⟨path, member, some⟩ := tree.exists_nonempty_word
  rw [← List.cons_head_tail some] at member
  exact ⟨path.head some, (tree.mem_first_iff _).mpr ⟨path.tail, member⟩⟩

theorem exists_mem_last (tree : Tree) : ∃ position, position ∈ tree.last := by
  obtain ⟨path, member, some⟩ := tree.exists_nonempty_word
  rw [← List.dropLast_append_getLast some] at member
  exact ⟨path.getLast some, (tree.mem_last_iff _).mpr ⟨path.dropLast, member⟩⟩

end Tree

end Recognizer
