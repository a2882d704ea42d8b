import Mathlib.Algebra.GroupWithZero.Nat
import Mathlib.Data.List.Basic
import Mathlib.Order.Basic
import Recognizer.Report.Drawing
import Recognizer.Tree.Follow

/-!
Nodes of a tree by their addresses. An address says which child to take, from the root
down to the node. In ascending order every node comes before the nodes below it, and those
on the left before those on the right, and this is the order that nodes are listed in. The
number of a node is its place there, so a child is the node at an address with one step more.
-/

namespace Recognizer.Tree

/-- What holds of a tree when it holds of its children holds of all trees. -/
theorem induction_children {motive : Tree → Prop}
    (step : ∀ tree, (∀ child ∈ tree.children, motive child) → motive tree) (tree : Tree) :
    motive tree := by
  induction tree with
  | leaf symbol position => exact step _ fun child member => absurd member List.not_mem_nil
  | concat left right first second =>
      refine step _ fun child member => ?_
      rcases List.mem_pair.mp member with rfl | rfl
      · exact first
      · exact second
  | union left right first second =>
      refine step _ fun child member => ?_
      rcases List.mem_pair.mp member with rfl | rfl
      · exact first
      · exact second
  | star child below =>
      refine step _ fun child member => ?_
      rwa [List.mem_singleton.mp member]

/-- The node at an address, if the steps do not leave the tree. -/
def at? : Tree → List Nat → Option Tree
  | tree, [] => some tree
  | tree, step :: address => tree.children[step]?.bind fun child => child.at? address

/-- The addresses of all nodes, as they are listed. -/
def addresses : Tree → List (List Nat)
  | leaf _ _ => [[]]
  | concat left right => [] :: (left.addresses.map (0 :: ·) ++ right.addresses.map (1 :: ·))
  | union left right => [] :: (left.addresses.map (0 :: ·) ++ right.addresses.map (1 :: ·))
  | star child => [] :: child.addresses.map (0 :: ·)

/-- The same for trees next to each other, the first of them at this step. -/
def addressesFrom (step : Nat) : List Tree → List (List Nat)
  | [] => []
  | child :: others => child.addresses.map (step :: ·) ++ addressesFrom (step + 1) others

theorem addresses_eq (tree : Tree) : tree.addresses = [] :: addressesFrom 0 tree.children := by
  cases tree <;> simp [addresses, addressesFrom, children]

theorem nodes_eq (tree : Tree) : tree.nodes = tree :: tree.children.flatMap nodes := by
  cases tree <;> simp [nodes, children]

theorem size_eq (tree : Tree) : tree.size = 1 + (tree.children.map size).sum := by
  cases tree <;> simp [size, children, Nat.add_assoc]

theorem length_addresses (tree : Tree) : tree.addresses.length = tree.size := by
  induction tree <;> simp [addresses, size, *] <;> omega

theorem mem_addressesFrom_iff {step : Nat} {trees : List Tree} {address : List Nat} :
    address ∈ addressesFrom step trees ↔
      ∃ index child below, trees[index]? = some child ∧ below ∈ child.addresses ∧
        address = (step + index) :: below := by
  induction trees generalizing step with
  | nil => simp [addressesFrom]
  | cons first others ih =>
      rw [addressesFrom, List.mem_append, List.mem_map, ih]
      constructor
      · rintro (⟨below, member, rfl⟩ | ⟨index, child, below, listed, member, rfl⟩)
        · exact ⟨0, first, below, rfl, member, rfl⟩
        · exact ⟨index + 1, child, below, listed, member, by rw [Nat.add_assoc, Nat.add_comm 1]⟩
      · rintro ⟨index, child, below, listed, member, rfl⟩
        cases index with
        | zero =>
            cases listed
            exact Or.inl ⟨below, member, rfl⟩
        | succ index =>
            exact Or.inr
              ⟨index, child, below, listed, member, by rw [Nat.add_assoc, Nat.add_comm 1]⟩

/-- The addresses are those that lead to a node. -/
theorem mem_addresses_iff (tree : Tree) (address : List Nat) :
    address ∈ tree.addresses ↔ ∃ node, tree.at? address = some node := by
  induction tree using induction_children generalizing address with
  | step tree ih =>
      rw [addresses_eq, List.mem_cons, mem_addressesFrom_iff]
      cases address with
      | nil => exact iff_of_true (Or.inl rfl) ⟨tree, rfl⟩
      | cons step below =>
          simp only [at?, Option.bind_eq_some_iff]
          constructor
          · rintro (none | ⟨index, child, below, listed, member, same⟩)
            · cases none
            · cases same
              obtain ⟨node, found⟩ := (ih child (List.mem_of_getElem? listed) below).mp member
              exact ⟨node, child, by rwa [Nat.zero_add], found⟩
          · rintro ⟨node, child, listed, found⟩
            refine Or.inr ⟨step, child, below, listed, ?_, by rw [Nat.zero_add]⟩
            exact (ih child (List.mem_of_getElem? listed) below).mpr ⟨node, found⟩

/-- Ascending: a node before those below it, the first child before the second. -/
theorem ascending_addresses (tree : Tree) : tree.addresses.Pairwise (List.Lex (· < ·)) := by
  induction tree using induction_children with
  | step tree ih =>
      have onward : ∀ step trees, (∀ child ∈ trees, child.addresses.Pairwise (List.Lex (· < ·))) →
          (addressesFrom step trees).Pairwise (List.Lex (· < ·)) := by
        intro step trees each
        induction trees generalizing step with
        | nil => exact List.Pairwise.nil
        | cons first others rest =>
            obtain ⟨head, tail⟩ := List.forall_mem_cons.mp each
            refine List.pairwise_append.mpr ⟨?_, rest (step + 1) tail, ?_⟩
            · exact List.pairwise_map.mpr
                (head.imp fun less => List.Lex.cons less)
            · intro address early other late
              obtain ⟨below, _, rfl⟩ := List.mem_map.mp early
              obtain ⟨index, _, _, _, _, rfl⟩ := mem_addressesFrom_iff.mp late
              exact List.Lex.rel (by omega)
      rw [addresses_eq]
      refine List.pairwise_cons.mpr ⟨?_, onward 0 _ ih⟩
      intro address member
      obtain ⟨_, _, _, _, _, rfl⟩ := mem_addressesFrom_iff.mp member
      exact List.Lex.nil

theorem nodup_addresses (tree : Tree) : tree.addresses.Nodup := by
  apply tree.ascending_addresses.imp
  rintro address _ less rfl
  exact List.lex_irrefl Nat.lt_irrefl address less

theorem map_at?_addresses (tree : Tree) : tree.addresses.map tree.at? = tree.nodes.map some := by
  induction tree using induction_children with
  | step tree ih =>
      have onward : ∀ step trees, (∀ index, trees[index]? = tree.children[step + index]?) →
          (∀ child ∈ trees, child.addresses.map child.at? = child.nodes.map some) →
          (addressesFrom step trees).map tree.at? = (trees.flatMap nodes).map some := by
        intro step trees place each
        induction trees generalizing step with
        | nil => rfl
        | cons first others rest =>
            obtain ⟨head, tail⟩ := List.forall_mem_cons.mp each
            have here : tree.children[step]? = some first := (place 0).symm
            have later := rest (step + 1) (fun index => ?_) tail
            · rw [addressesFrom, List.map_append, later, List.map_map, List.flatMap_cons,
                List.map_append, ← head]
              congr 1
              refine List.map_congr_left fun below _ => ?_
              rw [Function.comp_apply, at?, here, Option.bind_some]
            · rw [Nat.add_assoc, Nat.add_comm 1, ← place (index + 1), List.getElem?_cons_succ]
      rw [addresses_eq, nodes_eq, List.map_cons, List.map_cons,
        onward 0 tree.children (fun index => by rw [Nat.zero_add]) ih, at?]

theorem length_nodes (tree : Tree) : tree.nodes.length = tree.size := by
  rw [← length_addresses, ← List.length_map (f := tree.at?), map_at?_addresses, List.length_map]

/-- One node at a time is taken off the work, and its children are put on top of the rest,
the last child first. -/
def walk (work : List Tree) : List Tree :=
  match work with
  | [] => []
  | node :: work =>
      node :: walk (node.children.reverse.foldl (fun work child => child :: work) work)
termination_by (work.map size).sum
decreasing_by simp [size_eq node]

theorem walk_eq (work : List Tree) : walk work = work.flatMap nodes := by
  fun_induction walk work with
  | case1 => rfl
  | case2 node work ih =>
      rw [ih, List.foldl_flip_cons_eq_append', List.reverse_reverse, List.flatMap_append,
        List.flatMap_cons, nodes_eq node]
      rfl

/-- The number of a node is the place of its address, and a child is one step further. -/
def Child (tree : Tree) (parent number : Nat) : Prop :=
  ∃ address step, tree.addresses[parent]? = some address ∧
    tree.addresses[number]? = some (address ++ [step])

end Recognizer.Tree
