import Recognizer.Proofs.Tree.Neighbours

/-!
Reading words of positions from left to right. What can follow a position is a
language of its own; when positions are distinct it depends on nothing that was
read before, so first, last and following positions decide membership.
-/

namespace Recognizer.Tree

open scoped Computability

/-- What can be read after a position up to the end of the tree. -/
def rest : Tree → Nat → Language Nat
  | leaf _ own, position => if own = position then 1 else 0
  | concat left right, position =>
      left.rest position * right.positionLanguage + right.rest position
  | union left right, position => left.rest position + right.rest position
  | star child, position => child.rest position * child.positionLanguage∗

section Positions

variable (left right : Tree)

theorem positions_concat : (concat left right).positions = left.positions ++ right.positions :=
  List.map_append

theorem positions_union : (union left right).positions = left.positions ++ right.positions :=
  List.map_append

end Positions

theorem mem_positions_of_mem_rest (tree : Tree) {position : Nat} {word : List Nat}
    (member : word ∈ tree.rest position) : position ∈ tree.positions := by
  induction tree generalizing word with
  | leaf symbol own =>
      by_cases same : own = position
      · simp [positions, leaves, same]
      · rw [rest, if_neg same] at member
        exact absurd member (Language.notMem_zero _)
  | concat left right ihLeft ihRight =>
      rw [positions_concat, List.mem_append]
      rcases member with ⟨front, inLeft, _⟩ | inRight
      · exact Or.inl (ihLeft inLeft)
      · exact Or.inr (ihRight inRight)
  | union left right ihLeft ihRight =>
      rw [positions_union, List.mem_append]
      rcases member with inLeft | inRight
      · exact Or.inl (ihLeft inLeft)
      · exact Or.inr (ihRight inRight)
  | star child ih =>
      obtain ⟨front, inChild, _⟩ := member
      exact ih inChild

/-- From every leaf the end of the tree can be reached. -/
theorem rest_nonempty (tree : Tree) {position : Nat} (member : position ∈ tree.positions) :
    ∃ word, word ∈ tree.rest position := by
  induction tree with
  | leaf symbol own =>
      have same : own = position := by simpa [positions, leaves, eq_comm] using member
      exact ⟨[], by rw [rest, if_pos same]; exact Language.nil_mem_one⟩
  | concat left right ihLeft ihRight =>
      rw [positions_concat, List.mem_append] at member
      rcases member with inLeft | inRight
      · obtain ⟨front, after⟩ := ihLeft inLeft
        obtain ⟨back, inLanguage⟩ := words_nonempty (fun _ position => position) right
        exact ⟨front ++ back, Or.inl (Language.append_mem_mul after inLanguage)⟩
      · obtain ⟨word, after⟩ := ihRight inRight
        exact ⟨word, Or.inr after⟩
  | union left right ihLeft ihRight =>
      rw [positions_union, List.mem_append] at member
      rcases member with inLeft | inRight
      · obtain ⟨word, after⟩ := ihLeft inLeft
        exact ⟨word, Or.inl after⟩
      · obtain ⟨word, after⟩ := ihRight inRight
        exact ⟨word, Or.inr after⟩
  | star child ih =>
      obtain ⟨word, after⟩ := ih member
      exact ⟨word ++ [], Language.append_mem_mul after (Language.nil_mem_kstar _)⟩

theorem nil_mem_rest (tree : Tree) (position : Nat) :
    [] ∈ tree.rest position ↔ position ∈ tree.last := by
  induction tree with
  | leaf symbol own =>
      by_cases same : own = position
      · simp [rest, last, same]
      · simp [rest, last, same]
  | concat left right ihLeft ihRight =>
      rw [rest, Language.mem_add, nil_mem_mul, ihLeft, ihRight, positionLanguage, nil_mem_words,
        mem_last_concat, and_comm]
  | union left right ihLeft ihRight =>
      rw [rest, Language.mem_add, ihLeft, ihRight, last, Std.ExtTreeSet.mem_union_iff]
  | star child ih =>
      rw [rest, nil_mem_mul, ih, last, and_iff_left (Language.nil_mem_kstar _)]

section Distinct

variable {left right : Tree} {position : Nat}

theorem distinct_concat (distinct : (concat left right).Distinct) :
    (left.positions ++ right.positions).Nodup := by
  rw [← positions_concat]
  exact distinct

theorem distinct_union (distinct : (union left right).Distinct) :
    (left.positions ++ right.positions).Nodup := by
  rw [← positions_union]
  exact distinct

theorem not_mem_right (apart : (left.positions ++ right.positions).Nodup)
    (inLeft : position ∈ left.positions) : position ∉ right.positions :=
  fun inRight => List.disjoint_of_nodup_append apart inLeft inRight

theorem not_mem_left (apart : (left.positions ++ right.positions).Nodup)
    (inRight : position ∈ right.positions) : position ∉ left.positions :=
  fun inLeft => List.disjoint_of_nodup_append apart inLeft inRight

theorem not_mem_rest_right (apart : (left.positions ++ right.positions).Nodup)
    (inLeft : position ∈ left.positions) (word : List Nat) : word ∉ right.rest position :=
  fun after => not_mem_right apart inLeft (mem_positions_of_mem_rest right after)

theorem not_mem_rest_left (apart : (left.positions ++ right.positions).Nodup)
    (inRight : position ∈ right.positions) (word : List Nat) : word ∉ left.rest position :=
  fun after => not_mem_left apart inRight (mem_positions_of_mem_rest left after)

end Distinct

theorem cons_mem_positionLanguage (tree : Tree) (distinct : tree.Distinct) (position : Nat)
    (word : List Nat) :
    position :: word ∈ tree.positionLanguage ↔
      position ∈ tree.first ∧ word ∈ tree.rest position := by
  induction tree generalizing word with
  | leaf symbol own =>
      rw [positionLanguage, mem_words_leaf, first, FiniteSet.mem_singleton_iff, rest]
      by_cases same : own = position
      · simp [same]
      · simp [same, Ne.symm same]
  | concat left right ihLeft ihRight =>
      have apart := distinct_concat distinct
      have languageLeft := ihLeft apart.of_append_left
      have languageRight := ihRight apart.of_append_right
      rw [positionLanguage, words, cons_mem_mul, mem_first_concat, ← nil_mem_words]
      constructor
      · rintro (⟨front, inLeft, back, inRight, rfl⟩ | ⟨empty, inRight⟩)
        · obtain ⟨isFirst, after⟩ := (languageLeft front).mp inLeft
          exact ⟨Or.inl isFirst, Or.inl (Language.append_mem_mul after inRight)⟩
        · obtain ⟨isFirst, after⟩ := (languageRight word).mp inRight
          exact ⟨Or.inr ⟨empty, isFirst⟩, Or.inr after⟩
      · -- first on one side and continued on the other: positions are not shared
        rintro ⟨isFirst | ⟨empty, isFirst⟩, ⟨front, after, back, inRight, rfl⟩ | after⟩
        · exact Or.inl ⟨front, (languageLeft front).mpr ⟨isFirst, after⟩, back, inRight, rfl⟩
        · exact absurd after (not_mem_rest_right apart (mem_positions_of_mem_first left isFirst) _)
        · exact absurd after (not_mem_rest_left apart (mem_positions_of_mem_first right isFirst) _)
        · exact Or.inr ⟨empty, (languageRight word).mpr ⟨isFirst, after⟩⟩
  | union left right ihLeft ihRight =>
      have apart := distinct_union distinct
      have languageLeft := ihLeft apart.of_append_left
      have languageRight := ihRight apart.of_append_right
      change _ ∈ left.positionLanguage + right.positionLanguage ↔
        _ ∈ left.first ∪ right.first ∧ _ ∈ left.rest position + right.rest position
      rw [Language.mem_add, Language.mem_add, Std.ExtTreeSet.mem_union_iff, languageLeft,
        languageRight]
      constructor
      · rintro (⟨isFirst, after⟩ | ⟨isFirst, after⟩)
        · exact ⟨Or.inl isFirst, Or.inl after⟩
        · exact ⟨Or.inr isFirst, Or.inr after⟩
      · rintro ⟨isFirst | isFirst, after | after⟩
        · exact Or.inl ⟨isFirst, after⟩
        · exact absurd after (not_mem_rest_right apart (mem_positions_of_mem_first left isFirst) _)
        · exact absurd after (not_mem_rest_left apart (mem_positions_of_mem_first right isFirst) _)
        · exact Or.inr ⟨isFirst, after⟩
  | star child ih =>
      rw [positionLanguage, words, cons_mem_kstar]
      constructor
      · rintro ⟨front, inChild, back, repeated, rfl⟩
        obtain ⟨isFirst, after⟩ := (ih distinct front).mp inChild
        exact ⟨isFirst, Language.append_mem_mul after repeated⟩
      · rintro ⟨isFirst, front, after, back, repeated, rfl⟩
        exact ⟨front, (ih distinct front).mpr ⟨isFirst, after⟩, back, repeated, rfl⟩

/-- Distinct positions make the pairs of neighbours a local condition: what comes
after the second of them no longer depends on the first. -/
theorem cons_mem_rest (tree : Tree) (distinct : tree.Distinct) (earlier later : Nat)
    (word : List Nat) :
    later :: word ∈ tree.rest earlier ↔ tree.Follows earlier later ∧ word ∈ tree.rest later := by
  induction tree generalizing word with
  | leaf symbol own =>
      by_cases same : own = earlier
      · simp [rest, Follows, same]
      · simp [rest, Follows, same]
  | concat left right ihLeft ihRight =>
      have apart := distinct_concat distinct
      have restLeft := ihLeft apart.of_append_left
      have restRight := ihRight apart.of_append_right
      have languageRight := cons_mem_positionLanguage right apart.of_append_right
      rw [rest, Language.mem_add, cons_mem_mul]
      constructor
      · rintro ((⟨front, after, back, inRight, rfl⟩ | ⟨ended, inRight⟩) | after)
        · obtain ⟨follows, onward⟩ := (restLeft front).mp after
          exact ⟨Or.inl follows, Or.inl (Language.append_mem_mul onward inRight)⟩
        · obtain ⟨isFirst, onward⟩ := (languageRight later word).mp inRight
          exact ⟨Or.inr (Or.inr ⟨(nil_mem_rest left earlier).mp ended, isFirst⟩), Or.inr onward⟩
        · obtain ⟨follows, onward⟩ := (restRight word).mp after
          exact ⟨Or.inr (Or.inl follows), Or.inr onward⟩
      · -- three ways to follow, two to go on, and three of the six do not fit
        rintro ⟨follows | follows | ⟨isLast, isFirst⟩, ⟨front, after, back, inRight, rfl⟩ | after⟩
        · exact Or.inl (Or.inl ⟨front, (restLeft front).mpr ⟨follows, after⟩, back, inRight, rfl⟩)
        · exact absurd after (not_mem_rest_right apart (mem_positions_of_follows left follows).2 _)
        · exact absurd after (not_mem_rest_left apart (mem_positions_of_follows right follows).2 _)
        · exact Or.inr ((restRight word).mpr ⟨follows, after⟩)
        · exact absurd after (not_mem_rest_left apart (mem_positions_of_mem_first right isFirst) _)
        · exact Or.inl (Or.inr ⟨(nil_mem_rest left earlier).mpr isLast,
            (languageRight later word).mpr ⟨isFirst, after⟩⟩)
  | union left right ihLeft ihRight =>
      have apart := distinct_union distinct
      have restLeft := ihLeft apart.of_append_left
      have restRight := ihRight apart.of_append_right
      rw [rest, Language.mem_add, restLeft, restRight]
      constructor
      · rintro (⟨follows, after⟩ | ⟨follows, after⟩)
        · exact ⟨Or.inl follows, Or.inl after⟩
        · exact ⟨Or.inr follows, Or.inr after⟩
      · rintro ⟨follows | follows, after | after⟩
        · exact Or.inl ⟨follows, after⟩
        · exact absurd after (not_mem_rest_right apart (mem_positions_of_follows left follows).2 _)
        · exact absurd after (not_mem_rest_left apart (mem_positions_of_follows right follows).2 _)
        · exact Or.inr ⟨follows, after⟩
  | star child ih =>
      -- the end of one round and the start of the next are neighbours too
      have language := cons_mem_positionLanguage child distinct
      rw [rest, cons_mem_mul, cons_mem_kstar]
      constructor
      · rintro (⟨front, after, back, repeated, rfl⟩ | ⟨ended, front, inChild, back, repeated, rfl⟩)
        · obtain ⟨follows, onward⟩ := (ih distinct front).mp after
          exact ⟨Or.inl follows, Language.append_mem_mul onward repeated⟩
        · obtain ⟨isFirst, onward⟩ := (language later front).mp inChild
          exact ⟨Or.inr ⟨(nil_mem_rest child earlier).mp ended, isFirst⟩,
            Language.append_mem_mul onward repeated⟩
      · rintro ⟨follows | ⟨isLast, isFirst⟩, front, after, back, repeated, rfl⟩
        · exact Or.inl ⟨front, (ih distinct front).mpr ⟨follows, after⟩, back, repeated, rfl⟩
        · exact Or.inr ⟨(nil_mem_rest child earlier).mpr isLast, front,
            (language later front).mpr ⟨isFirst, after⟩, back, repeated, rfl⟩

/-- What comes after a position is any path along followers up to a last position. -/
theorem mem_rest_iff (tree : Tree) (distinct : tree.Distinct) (position : Nat)
    (path : List Nat) :
    path ∈ tree.rest position ↔ (position :: path).IsChain tree.Follows ∧
      (position :: path).getLast (List.cons_ne_nil position path) ∈ tree.last := by
  induction path generalizing position with
  | nil => simp [nil_mem_rest]
  | cons later path ih =>
      rw [cons_mem_rest tree distinct, ih, List.isChain_cons_cons, List.getLast_cons_cons,
        and_assoc]

end Recognizer.Tree
