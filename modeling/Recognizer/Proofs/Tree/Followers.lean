import Recognizer.Proofs.Tree.LocalWords

/-!
The table of followers. Linking and extending only ever add pairs, and the table of a
tree holds a pair just when the two positions stand side by side in a word. Together
with first and last positions it describes the words of any tree, and it decides them
when no position is used twice.
-/

namespace Recognizer

namespace Followers

/-- The table has an entry for the first position, and the second one is in it. -/
def Allows (table : Followers) (earlier later : Nat) : Prop :=
  ∃ following, table[earlier]? = some following ∧ later ∈ following

theorem allows_iff (table : Followers) (earlier later : Nat) :
    table.Allows earlier later ↔ later ∈ table.getD earlier ∅ := by
  rw [Allows, Std.ExtTreeMap.getD_eq_getD_getElem?]
  cases table[earlier]? <;> simp

instance (table : Followers) : DecidableRel table.Allows :=
  fun earlier later => decidable_of_iff _ (table.allows_iff earlier later).symm

theorem mem_getD_alter (table : Followers) (targets : Positions) (source earlier later : Nat) :
    later ∈ (table.alter source fun known => some (known.getD ∅ ∪ targets)).getD earlier ∅ ↔
      later ∈ table.getD earlier ∅ ∨ earlier = source ∧ later ∈ targets := by
  simp only [Std.ExtTreeMap.getD_alter, Std.LawfulEqOrd.compare_eq_iff_eq]
  by_cases same : source = earlier
  · subst same
    simp [Std.ExtTreeMap.getD_eq_getD_getElem?]
  · simp [same, Ne.symm same]

theorem mem_link (table : Followers) (sources targets : Positions) (earlier later : Nat) :
    later ∈ (table.link sources targets).getD earlier ∅ ↔
      later ∈ table.getD earlier ∅ ∨ earlier ∈ sources ∧ later ∈ targets := by
  rw [link, ← Std.ExtTreeSet.mem_toList (t := sources)]
  induction sources.toList generalizing table with
  | nil => simp
  | cons source others ih =>
      rw [List.foldl_cons, ih, mem_getD_alter, List.mem_cons, or_assoc, ← or_and_right]

theorem mem_extend (table : Followers) (tree : Tree) (earlier later : Nat) :
    later ∈ (table.extend tree).getD earlier ∅ ↔
      later ∈ table.getD earlier ∅ ∨ tree.Follows earlier later := by
  -- a node finds in the table what the nodes around it have added already
  induction tree generalizing table with
  | leaf symbol position => simp [extend, Tree.Follows]
  | concat left right ihLeft ihRight =>
      rw [extend, ihRight, ihLeft, mem_link, Tree.Follows]
      tauto
  | union left right ihLeft ihRight =>
      rw [extend, ihRight, ihLeft, Tree.Follows, or_assoc]
  | star child ih =>
      rw [extend, ih, mem_link, Tree.Follows]
      tauto

theorem getD_fresh (tree : Tree) (position : Nat) : (fresh tree).getD position ∅ = ∅ := by
  have kept : ∀ (entries : List (Nat × Char)) (table : Followers),
      table.getD position ∅ = ∅ →
        (entries.foldl (fun table entry => table.insert entry.1 ∅) table).getD position ∅ = ∅ := by
    intro entries
    induction entries with
    | nil => exact fun _ start => start
    | cons entry entries ih =>
        intro table start
        apply ih
        rw [Std.ExtTreeMap.getD_insert]
        split
        · rfl
        · exact start
  exact kept tree.leaves ∅ Std.ExtTreeMap.getD_empty

theorem mem_fresh (tree : Tree) (position : Nat) :
    position ∈ fresh tree ↔ position ∈ tree.positions := by
  have added : ∀ (entries : List (Nat × Char)) (table : Followers),
      position ∈ entries.foldl (fun table entry => table.insert entry.1 ∅) table ↔
        position ∈ table ∨ position ∈ entries.map Prod.fst := by
    intro entries
    induction entries with
    | nil => simp
    | cons entry entries ih =>
        intro table
        rw [List.foldl_cons, ih, Std.ExtTreeMap.mem_insert, Std.LawfulEqOrd.compare_eq_iff_eq,
          List.map_cons, List.mem_cons, @eq_comm _ entry.1, or_comm (a := position = entry.1),
          or_assoc]
  simp [fresh, added, Tree.positions]

theorem key_mem_link_iff (table : Followers) (sources targets : Positions) (position : Nat) :
    position ∈ table.link sources targets ↔ position ∈ table ∨ position ∈ sources := by
  rw [link, ← Std.ExtTreeSet.mem_toList (t := sources)]
  induction sources.toList generalizing table with
  | nil => simp
  | cons source others ih =>
      rw [List.foldl_cons, ih, List.mem_cons, ← or_assoc]
      refine or_congr_left ?_
      by_cases same : position = source
      · simp [same]
      · simp [Std.ExtTreeMap.mem_alter, same, Ne.symm same]

/-- The positions that a tree adds to a table are those that something can follow. -/
theorem key_mem_extend_iff (table : Followers) (tree : Tree) (position : Nat) :
    position ∈ table.extend tree ↔ position ∈ table ∨ ∃ later, tree.Follows position later := by
  induction tree generalizing table with
  | leaf symbol own => simp [extend, Tree.Follows]
  | concat left right ihLeft ihRight =>
      -- a linked position has a follower, for first positions there always are
      simp only [extend, ihRight, ihLeft, key_mem_link_iff, Tree.Follows, exists_or,
        exists_and_left, right.exists_mem_first, and_true]
      tauto
  | union left right ihLeft ihRight =>
      simp only [extend, ihRight, ihLeft, Tree.Follows, exists_or, or_assoc]
  | star child ih =>
      simp only [extend, ih, key_mem_link_iff, Tree.Follows, exists_or, exists_and_left,
        child.exists_mem_first, and_true]
      tauto

end Followers

namespace Tree

theorem mem_followers (tree : Tree) (earlier later : Nat) :
    later ∈ tree.followers.getD earlier ∅ ↔ tree.Follows earlier later := by
  rw [followers, Followers.mem_extend, Followers.getD_fresh]
  simp

theorem key_mem_followers_iff (tree : Tree) (position : Nat) :
    position ∈ tree.followers ↔ position ∈ tree.positions := by
  rw [followers, Followers.key_mem_extend_iff, Followers.mem_fresh, or_iff_left_of_imp]
  rintro ⟨later, follows⟩
  exact (tree.mem_positions_of_follows follows).1

/-- Every leaf has an entry in the table, also if nothing can come after it. -/
theorem getElem?_followers (tree : Tree) {position : Nat} (member : position ∈ tree.positions) :
    tree.followers[position]? = some (tree.followers.getD position ∅) := by
  have known := (tree.key_mem_followers_iff position).mpr member
  rw [Std.ExtTreeMap.getD_eq_getD_getElem?, Std.ExtTreeMap.getElem?_eq_some_getElem known]
  rfl

theorem allows_followers_iff (tree : Tree) (earlier later : Nat) :
    tree.followers.Allows earlier later ↔ tree.Follows earlier later := by
  rw [Followers.allows_iff, mem_followers]

/-- What the functions of a tree say of its words of positions. Positions may be shared
and need not be in any order. -/
theorem position_functions_describe_words (tree : Tree) :
    (tree.nullable = true ↔ [] ∈ tree.positionLanguage) ∧
    (∀ position, position ∈ tree.first ↔ ∃ path, position :: path ∈ tree.positionLanguage) ∧
    (∀ position, position ∈ tree.last ↔ ∃ path, path ++ [position] ∈ tree.positionLanguage) ∧
    (∀ position, position ∈ tree.followers ↔ position ∈ tree.positions) ∧
    (∀ earlier later, tree.followers.Allows earlier later ↔
      ∃ path ∈ tree.positionLanguage, [earlier, later] <:+: path) ∧
    (∃ position, position ∈ tree.first) ∧ ∃ position, position ∈ tree.last := by
  refine ⟨?_, tree.mem_first_iff, tree.mem_last_iff, tree.key_mem_followers_iff, ?_,
    tree.exists_mem_first, tree.exists_mem_last⟩
  · exact (nil_mem_words _ tree).symm
  · intro earlier later
    rw [allows_followers_iff]
    exact tree.follows_iff_adjacent earlier later

/-- When no position is used twice, the words of positions are the paths along followers
from a first position to a last one. -/
theorem distinct_positions_make_words_local (tree : Tree) (distinct : tree.Distinct) :
    ([] ∈ tree.positionLanguage ↔ tree.nullable = true) ∧
    ∀ (path : List Nat) (some : path ≠ []), path ∈ tree.positionLanguage ↔
      path.head some ∈ tree.first ∧ path.getLast some ∈ tree.last ∧
        path.IsChain tree.followers.Allows := by
  have table : tree.followers.Allows = tree.Follows := by
    funext earlier later
    exact propext (tree.allows_followers_iff earlier later)
  refine ⟨nil_mem_words _ tree, fun path some => ?_⟩
  rw [table]
  cases path with
  | nil => exact absurd rfl some
  | cons position path =>
      rw [cons_mem_positionLanguage tree distinct, mem_rest_iff tree distinct,
        and_comm (b := _ ∈ tree.last)]
      rfl

/-- The pair of 3 and 3 stands inside a part and between two parts. Where the position 1
is used twice, a path that the table allows skips what lies between its two leaves. -/
theorem words_of_nested_stars :
    let tree := concat (star (concat (star (leaf 'a' 3)) (star (leaf 'b' 1)))) (leaf 'c' 2)
    let shared := concat (concat (leaf 'a' 1) (leaf 'b' 2)) (concat (leaf 'a' 1) (leaf 'c' 3))
    tree.Distinct ∧ [1, 3, 3, 1, 2] ∈ tree.positionLanguage ∧ [1, 3] ∉ tree.positionLanguage ∧
      1 ∈ shared.first ∧ 3 ∈ shared.last ∧ shared.followers.Allows 1 3 ∧
      [1, 3] ∉ shared.positionLanguage := by
  intro tree shared
  have distinct : tree.positions.Nodup := by decide
  obtain ⟨_, words⟩ := tree.distinct_positions_make_words_local distinct
  refine ⟨distinct, ?_, ?_, by decide +kernel, by decide +kernel, by decide +kernel, ?_⟩
  · exact (words _ (List.cons_ne_nil _ _)).mpr (by decide +kernel)
  · rw [words _ (List.cons_ne_nil _ _)]
    decide +kernel
  · rintro ⟨_, ⟨_, rfl, _, rfl, rfl⟩, _, _, same⟩
    cases same

end Tree

end Recognizer
