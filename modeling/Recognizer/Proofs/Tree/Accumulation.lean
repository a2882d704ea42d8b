import Recognizer.Proofs.Tree.Followers

/-!
Several trees in one table of followers. Whatever a table holds already, a tree adds the
pairs that stand side by side in its words and leaves all other entries as they are. So
it makes no difference in which order trees come and how often.
-/

namespace Recognizer

namespace Tree

/-- The second position stands right after the first one in a word of positions. -/
def Generates (tree : Tree) (earlier later : Nat) : Prop :=
  ∃ path ∈ tree.positionLanguage, [earlier, later] <:+: path

theorem follows_iff_generates (tree : Tree) (earlier later : Nat) :
    tree.Follows earlier later ↔ tree.Generates earlier later :=
  tree.follows_iff_adjacent earlier later

end Tree

namespace Followers

theorem getElem?_eq_of_same_members {table other : Followers} {position : Nat}
    (known : position ∈ table ↔ position ∈ other)
    (same : ∀ later, later ∈ table.getD position ∅ ↔ later ∈ other.getD position ∅) :
    table[position]? = other[position]? := by
  simp only [Std.ExtTreeMap.mem_iff_isSome_getElem?] at known
  simp only [Std.ExtTreeMap.getD_eq_getD_getElem?] at same
  cases found : table[position]? with
  | none =>
      cases found' : other[position]? with
      | none => rfl
      | some following => simp [found, found'] at known
  | some following =>
      cases found' : other[position]? with
      | none => simp [found, found'] at known
      | some following' =>
          simp only [found, found', Option.getD_some] at same
          exact congrArg some (Std.ExtTreeSet.ext_mem same)

theorem mem_of_getElem?_extend {table : Followers} {tree : Tree} {position later : Nat}
    {following : Positions} (found : (table.extend tree)[position]? = some following) :
    later ∈ following ↔ later ∈ table.getD position ∅ ∨ tree.Generates position later := by
  rw [← tree.follows_iff_generates, ← mem_extend, Std.ExtTreeMap.getD_eq_getD_getElem?, found,
    Option.getD_some]

theorem getElem?_extend_of_not_generates {table : Followers} {tree : Tree} {position : Nat}
    (none : ∀ later, ¬tree.Generates position later) :
    (table.extend tree)[position]? = table[position]? := by
  simp only [← tree.follows_iff_generates] at none
  apply getElem?_eq_of_same_members
  · simp [key_mem_extend_iff, none]
  · intro later
    simp [mem_extend, none]

section Lists

variable (table : Followers) (trees : List Tree)

theorem key_mem_foldl_extend_iff (position : Nat) :
    position ∈ trees.foldl extend table ↔
      position ∈ table ∨ ∃ tree ∈ trees, ∃ later, tree.Follows position later := by
  induction trees generalizing table with
  | nil => simp
  | cons tree trees ih => simp [ih, key_mem_extend_iff, or_assoc]

theorem mem_foldl_extend_iff (earlier later : Nat) :
    later ∈ (trees.foldl extend table).getD earlier ∅ ↔
      later ∈ table.getD earlier ∅ ∨ ∃ tree ∈ trees, tree.Follows earlier later := by
  induction trees generalizing table with
  | nil => simp
  | cons tree trees ih => simp [ih, mem_extend, or_assoc]

/-- Only which trees there are counts. -/
theorem foldl_extend_eq {others : List Tree} (same : ∀ tree, tree ∈ trees ↔ tree ∈ others) :
    trees.foldl extend table = others.foldl extend table := by
  apply Std.ExtTreeMap.ext_getElem?
  intro position
  apply getElem?_eq_of_same_members
  · simp only [key_mem_foldl_extend_iff, same]
  · intro later
    simp only [mem_foldl_extend_iff, same]

end Lists

/-- A tree adds its pairs to what a table holds, with new entries for the first positions
of these pairs only. Trees in another order, or some of them again, leave the same table. -/
theorem trees_add_pairs_in_any_order :
    (∀ (table : Followers) (tree : Tree),
      (∀ position, position ∈ table.extend tree ↔
        position ∈ table ∨ ∃ later, tree.Generates position later) ∧
      (∀ position following, (table.extend tree)[position]? = some following →
        ∀ later, later ∈ following ↔
          later ∈ table.getD position ∅ ∨ tree.Generates position later) ∧
      ∀ position, (∀ later, ¬tree.Generates position later) →
        (table.extend tree)[position]? = table[position]?) ∧
    ∀ (base : Tree) (trees others : List Tree), (∀ tree, tree ∈ trees ↔ tree ∈ others) →
      trees.foldl extend (fresh base) = others.foldl extend (fresh base) := by
  refine ⟨fun table tree => ⟨fun position => ?_, fun position following found later => ?_,
    fun position none => ?_⟩, fun base trees others same => ?_⟩
  · simp only [key_mem_extend_iff, tree.follows_iff_generates]
  · exact mem_of_getElem?_extend found
  · exact getElem?_extend_of_not_generates none
  · exact foldl_extend_eq (fresh base) trees same

/-- The trees share the position 1, which the base does not have; the second one uses it
twice, and neither touches the entry of the base. -/
theorem foreign_trees_in_two_orders :
    let base := Tree.leaf 'x' 4
    let pair := Tree.concat (.leaf 'a' 1) (.leaf 'b' 2)
    let again := Tree.star (.union (.leaf 'a' 1) (.leaf 'c' 1))
    let table := (fresh base).extend pair
    table[4]? = (fresh base)[4]? ∧
      (∀ following, (table.extend again)[1]? = some following →
        ∀ later, later ∈ following ↔ later ∈ table.getD 1 ∅ ∨ again.Generates 1 later) ∧
      [pair, again].foldl extend (fresh base) = [again, pair, again].foldl extend (fresh base) := by
  intro base pair again table
  obtain ⟨adds, order⟩ := trees_add_pairs_in_any_order
  have silent : ∀ later, ¬pair.Generates 4 later := by
    intro later
    rw [← pair.follows_iff_generates]
    simp [pair, Tree.Follows, Tree.last]
  have same : ∀ tree, tree ∈ [pair, again] ↔ tree ∈ [again, pair, again] := by
    intro tree
    simp only [List.mem_cons, List.not_mem_nil, or_false]
    tauto
  exact ⟨(adds _ pair).2.2 4 silent, fun following => (adds table again).2.1 1 following,
    order base _ _ same⟩

end Followers

end Recognizer
