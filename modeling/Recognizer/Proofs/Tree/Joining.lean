import Mathlib.Data.List.MinMax
import Mathlib.Data.Nat.Log
import Recognizer.Proofs.Tree.Language
import Recognizer.Tree.LeafSupply

/-!
Unions of many trees. Joining is followed with the given trees kept whole, so that each
of them can be found again below the unions: they stay in order, a round puts at most
one more union above each, and as the number of trees is halved in every round, the
logarithm of their number bounds the unions above any of them.
-/

namespace Recognizer

/-- Given trees put together by unions. -/
inductive Joined where
  | given (tree : Tree)
  | pair (left right : Joined)

namespace Joined

def tree : Joined → Tree
  | given tree => tree
  | pair left right => .union left.tree right.tree

/-- The given trees from left to right, each with the number of unions above it. -/
def placed : Joined → List (Tree × Nat)
  | given tree => [(tree, 0)]
  | pair left right => (left.placed ++ right.placed).map fun place => (place.1, place.2 + 1)

def parts (joined : Joined) : List Tree := joined.placed.map Prod.fst

/-- The nodes that are there for joining only. -/
def added : Joined → List Tree
  | given _ => []
  | pair left right => .union left.tree right.tree :: (left.added ++ right.added)

@[simp]
theorem parts_given (tree : Tree) : (given tree).parts = [tree] := rfl

@[simp]
theorem parts_pair (left right : Joined) : (pair left right).parts = left.parts ++ right.parts := by
  simp [parts, placed, Function.comp_def]

theorem kind_of_mem_added (joined : Joined) : ∀ node ∈ joined.added, node.kind = .union := by
  induction joined with
  | given tree => simp [added]
  | pair left right ihLeft ihRight =>
      simp only [added, List.mem_cons, List.mem_append]
      rintro node (rfl | inLeft | inRight)
      · rfl
      · exact ihLeft node inLeft
      · exact ihRight node inRight

theorem length_added (joined : Joined) : joined.added.length + 1 = joined.parts.length := by
  induction joined with
  | given tree => rfl
  | pair left right ihLeft ihRight =>
      simp only [added, parts_pair, List.length_cons, List.length_append]
      omega

open scoped List in
theorem nodes_perm (joined : Joined) :
    joined.tree.nodes.Perm (joined.added ++ joined.parts.flatMap Tree.nodes) := by
  induction joined with
  | given tree => simp [Joined.tree, added]
  | pair left right ihLeft ihRight =>
      simp only [Joined.tree, Tree.nodes, added, parts_pair, List.flatMap_append, List.cons_append]
      apply List.Perm.cons
      calc left.tree.nodes ++ right.tree.nodes
        _ ~ (left.added ++ left.parts.flatMap Tree.nodes) ++
              (right.added ++ right.parts.flatMap Tree.nodes) := ihLeft.append ihRight
        _ ~ (left.added ++ right.added) ++
              (left.parts.flatMap Tree.nodes ++ right.parts.flatMap Tree.nodes) := by
            simp only [List.append_assoc]
            apply List.Perm.append_left
            simp only [← List.append_assoc]
            exact List.perm_append_comm.append_right _

theorem leaves_eq (joined : Joined) : joined.tree.leaves = joined.parts.flatMap Tree.leaves := by
  induction joined with
  | given tree => simp [Joined.tree]
  | pair left right ihLeft ihRight => simp [Joined.tree, Tree.leaves, ihLeft, ihRight]

theorem mem_words_iff {α : Type} (letter : Char → Nat → α) (joined : Joined) (word : List α) :
    word ∈ joined.tree.words letter ↔ ∃ part ∈ joined.parts, word ∈ part.words letter := by
  induction joined with
  | given tree => simp [Joined.tree]
  | pair left right ihLeft ihRight =>
      simp [Joined.tree, Tree.words, Language.mem_add, ihLeft, ihRight, or_and_right, exists_or]

/-- Nothing but the given trees and the unions above them makes the depth. -/
theorem depth_add_le_iff (joined : Joined) (above bound : Nat) :
    joined.tree.depth + above ≤ bound ↔
      ∀ place ∈ joined.placed, place.1.depth + place.2 + above ≤ bound := by
  induction joined generalizing above with
  | given tree => simp [Joined.tree, placed]
  | pair left right ihLeft ihRight =>
      have halves : (pair left right).tree.depth + above ≤ bound ↔
          left.tree.depth + (above + 1) ≤ bound ∧ right.tree.depth + (above + 1) ≤ bound := by
        rw [Joined.tree, Tree.depth]
        omega
      have lower : ∀ place : Tree × Nat, place.1.depth + (place.2 + 1) + above =
          place.1.depth + place.2 + (above + 1) := by
        intro place
        omega
      rw [halves, ihLeft, ihRight]
      simp only [placed, List.mem_map, List.mem_append, forall_exists_index, and_imp,
        forall_apply_eq_imp_iff₂, lower, or_imp, forall_and]

def Within (joined : Joined) (height : Nat) : Prop :=
  ∀ place ∈ joined.placed, place.2 ≤ height

/-- No given tree has more unions above it, and the first one has just as many. -/
structure Reaches (joined : Joined) (height : Nat) : Prop where
  within : joined.Within height
  first : joined.placed.head?.map Prod.snd = some height

theorem reaches_given (tree : Tree) : (given tree).Reaches 0 where
  within := by simp [Within, placed]
  first := rfl

theorem Within.pair {left right : Joined} {height : Nat} (first : left.Within height)
    (second : right.Within height) : (Joined.pair left right).Within (height + 1) := by
  intro place member
  rw [placed, List.mem_map] at member
  obtain ⟨lower, inside, rfl⟩ := member
  apply Nat.succ_le_succ
  rcases List.mem_append.mp inside with inLeft | inRight
  · exact first lower inLeft
  · exact second lower inRight

theorem Reaches.pair {left right : Joined} {height : Nat} (first : left.Reaches height)
    (second : right.Within height) : (Joined.pair left right).Reaches (height + 1) where
  within := first.within.pair second
  first := by
    obtain ⟨place, start, rfl⟩ := Option.map_eq_some_iff.mp first.first
    simp [placed, start]

theorem Reaches.depth_le {joined : Joined} {height : Nat} (reaches : joined.Reaches height)
    {bound : Nat} (bounded : ∀ part ∈ joined.parts, part.depth ≤ bound) :
    joined.tree.depth ≤ height + bound := by
  apply (joined.depth_add_le_iff 0 _).mpr
  intro place member
  have shallow := bounded place.1 (List.mem_map_of_mem member)
  have low := reaches.within place member
  omega

/-- The first of the given trees lies deepest. -/
theorem Reaches.le_depth {joined : Joined} {height : Nat} (reaches : joined.Reaches height)
    {bound : Nat} (bounded : ∀ part ∈ joined.parts, bound ≤ part.depth) :
    height + bound ≤ joined.tree.depth := by
  obtain ⟨place, start, rfl⟩ := Option.map_eq_some_iff.mp reaches.first
  have member := List.mem_of_head? start
  have deep := bounded place.1 (List.mem_map_of_mem member)
  have below := (joined.depth_add_le_iff 0 _).mp (Nat.le_refl _) place member
  omega

/-- A round of joining, with what was given kept in mind. -/
def joinPairs : List Joined → List Joined
  | left :: right :: rest => pair left right :: joinPairs rest
  | forest => forest

theorem map_tree_joinPairs (forest : List Joined) :
    (joinPairs forest).map Joined.tree = Tree.joinPairs (forest.map Joined.tree) := by
  induction forest using joinPairs.induct with
  | case1 left right rest ih => simp [joinPairs, Tree.joinPairs, Joined.tree, ih]
  | case2 forest few =>
      rcases forest with _ | ⟨left, _ | ⟨right, rest⟩⟩
      · rfl
      · rfl
      · exact absurd rfl (few left right rest)

theorem flatMap_parts_joinPairs (forest : List Joined) :
    (joinPairs forest).flatMap parts = forest.flatMap parts := by
  induction forest using joinPairs.induct with
  | case1 left right rest ih => simp [joinPairs, ih]
  | case2 forest few =>
      rw [joinPairs]
      exact few

/-- Half the trees are left, rounded up. -/
theorem length_joinPairs (forest : List Joined) :
    (joinPairs forest).length = (forest.length + 1) / 2 := by
  induction forest using joinPairs.induct with
  | case1 left right rest ih =>
      simp only [joinPairs, List.length_cons, ih]
      omega
  | case2 forest few =>
      rcases forest with _ | ⟨left, _ | ⟨right, rest⟩⟩
      · rfl
      · simp [joinPairs]
      · exact absurd rfl (few left right rest)

theorem within_joinPairs {forest : List Joined} {height : Nat}
    (within : ∀ joined ∈ forest, joined.Within height) :
    ∀ joined ∈ joinPairs forest, joined.Within (height + 1) := by
  induction forest using joinPairs.induct with
  | case1 left right rest ih =>
      simp only [List.mem_cons, forall_eq_or_imp] at within
      obtain ⟨first, second, others⟩ := within
      simp only [joinPairs, List.mem_cons, forall_eq_or_imp]
      exact ⟨first.pair second, ih others⟩
  | case2 forest few =>
      rw [joinPairs]
      · exact fun joined member place inside =>
          Nat.le_succ_of_le (within joined member place inside)
      · exact few

theorem clog_length_pair (first second : Joined) (rest : List Joined) :
    Nat.clog 2 (first :: second :: rest).length =
      Nat.clog 2 (pair first second :: joinPairs rest).length + 1 := by
  have half : (rest.length + 1 + 1 + 2 - 1) / 2 = (rest.length + 1) / 2 + 1 := by omega
  rw [Nat.clog_of_two_le Nat.one_lt_two (by simp)]
  simp only [List.length_cons, length_joinPairs, half]

/-- As many rounds as halving takes leave a single tree, and further rounds leave it alone.
The first of the given trees is paired in each of them. -/
theorem exists_joinRounds {first : Joined} {others : List Joined} {height : Nat}
    (reaches : first.Reaches height) (within : ∀ joined ∈ others, joined.Within height) :
    ∃ joined : Joined, joined.parts = (first :: others).flatMap parts ∧
      joined.Reaches (height + Nat.clog 2 (first :: others).length) ∧
      ∀ rounds, Nat.clog 2 (first :: others).length ≤ rounds →
        Tree.joinRounds rounds ((first :: others).map Joined.tree) = [joined.tree] := by
  -- on the rounds it takes, for any forest that takes as many
  generalize halvings : Nat.clog 2 (first :: others).length = needed
  induction needed generalizing first others height with
  | zero =>
      rcases others with _ | ⟨second, rest⟩
      · refine ⟨first, by simp, reaches, fun rounds _ => ?_⟩
        cases rounds with
        | zero => rfl
        | succ rounds => rfl
      · rw [clog_length_pair] at halvings
        cases halvings
  | succ needed ih =>
      rcases others with _ | ⟨second, rest⟩
      · simp at halvings
      · rw [clog_length_pair, Nat.add_right_cancel_iff] at halvings
        simp only [List.mem_cons, forall_eq_or_imp] at within
        obtain ⟨joined, kept, deep, left⟩ := ih (reaches.pair within.1)
          (within_joinPairs within.2) halvings
        refine ⟨joined, ?_, ?_, fun rounds enough => ?_⟩
        · simp [kept, flatMap_parts_joinPairs]
        · rwa [Nat.add_assoc, Nat.add_comm 1] at deep
        · obtain ⟨rounds, rfl⟩ := Nat.exists_eq_succ_of_ne_zero (Nat.ne_zero_of_lt enough)
          have rejoined := left rounds (Nat.le_of_succ_le_succ enough)
          rw [List.map_cons, map_tree_joinPairs] at rejoined
          exact rejoined

/-- What joining makes of trees: they are all there, in order and as they were, with as
few unions as can join them, and with no more above any than halving asks for. -/
structure Unites (joined : Joined) (trees : List Tree) : Prop where
  parts : joined.parts = trees
  settled : ∀ rounds, Nat.clog 2 trees.length ≤ rounds →
    Tree.joinRounds rounds trees = [joined.tree]
  leaves : joined.tree.leaves = trees.flatMap Tree.leaves
  language : ∀ word, word ∈ joined.tree.language ↔ ∃ tree ∈ trees, word ∈ tree.language
  nodes : joined.tree.nodes.Perm (joined.added ++ trees.flatMap Tree.nodes)
  unions : ∀ node ∈ joined.added, node.kind = .union
  fewest : joined.added.length + 1 = trees.length
  low : ∀ place ∈ joined.placed, place.2 ≤ Nat.clog 2 trees.length
  first : joined.placed.head?.map Prod.snd = some (Nat.clog 2 trees.length)
  depth : joined.tree.depth ≤ Nat.clog 2 trees.length + (trees.map Tree.depth).foldr max 0
  level : ∀ depth, (∀ tree ∈ trees, tree.depth = depth) →
    joined.tree.depth = Nat.clog 2 trees.length + depth

end Joined

namespace Tree

theorem exists_unites {trees : List Tree} (several : trees ≠ []) :
    ∃ joined : Joined, joined.Unites trees := by
  obtain ⟨joined, parts, reaches, settled⟩ : ∃ joined : Joined, joined.parts = trees ∧
      joined.Reaches (Nat.clog 2 trees.length) ∧
      ∀ rounds, Nat.clog 2 trees.length ≤ rounds → joinRounds rounds trees = [joined.tree] := by
    rcases trees with _ | ⟨first, others⟩
    · exact absurd rfl several
    · have within : ∀ joined ∈ others.map Joined.given, joined.Within 0 := by
        simp [Joined.Within, Joined.placed]
      have given : ∀ trees : List Tree, (trees.map Joined.given).flatMap Joined.parts = trees := by
        intro trees
        simp [List.flatMap_map]
      have result := Joined.exists_joinRounds (Joined.reaches_given first) within
      simpa [Joined.tree, Function.comp_def, given] using result
  have largest : ∀ tree ∈ trees, tree.depth ≤ (trees.map Tree.depth).foldr max 0 := by
    intro tree member
    exact List.le_max_of_le' 0 (List.mem_map_of_mem member) (Nat.le_refl _)
  subst parts
  refine ⟨joined, ?_⟩
  exact {
    parts := rfl
    settled := settled
    leaves := joined.leaves_eq
    language := joined.mem_words_iff _
    nodes := joined.nodes_perm
    unions := joined.kind_of_mem_added
    fewest := joined.length_added
    low := reaches.within
    first := reaches.first
    depth := reaches.depth_le largest
    level := by
      intro depth same
      apply Nat.le_antisymm
      · exact reaches.depth_le fun part member => (same part member).le
      · exact reaches.le_depth fun part member => (same part member).ge }

/-- There are as many rounds as trees at hand, and the logarithm asks for no more. -/
theorem balancedUnion_of_unites {trees : List Tree} {joined : Joined}
    (unites : joined.Unites trees) : balancedUnion trees = .ok joined.tree := by
  have enough : Nat.clog 2 trees.length ≤ trees.length :=
    Nat.clog_le_of_le_pow Nat.lt_two_pow_self.le
  rw [balancedUnion, unites.settled _ enough]

theorem balancedUnion_eq_error_iff (trees : List Tree) (cause : Cause) :
    balancedUnion trees = .error cause ↔ trees = [] ∧ cause = .emptyUnion := by
  by_cases several : trees = []
  · subst several
    simp [balancedUnion, joinRounds, eq_comm]
  · obtain ⟨joined, unites⟩ := exists_unites several
    simp [balancedUnion_of_unites unites, several]

/-- Joining fails for want of trees only. Otherwise no tree is lost, repeated or moved,
and none of them ends up below more unions than the logarithm of their number. -/
theorem balancedUnion_keeps_trees_in_order (trees : List Tree) :
    (∀ cause, balancedUnion trees = .error cause ↔ trees = [] ∧ cause = .emptyUnion) ∧
      (trees ≠ [] →
        ∃ joined : Joined, balancedUnion trees = .ok joined.tree ∧ joined.Unites trees) := by
  refine ⟨balancedUnion_eq_error_iff trees, fun several => ?_⟩
  obtain ⟨joined, unites⟩ := exists_unites several
  exact ⟨joined, balancedUnion_of_unites unites, unites⟩

/-- Five leaves are one more than two rounds can join: the last of them is carried over
twice and ends up higher than the others. -/
theorem fifth_leaf_stays_near_root :
    ∃ joined : Joined,
      balancedUnion ((List.range' 1 5).map (leaf 'a')) = .ok joined.tree ∧
        joined.Unites ((List.range' 1 5).map (leaf 'a')) ∧
        joined.tree.depth = 4 ∧ joined.added.length = 4 := by
  have several : (List.range' 1 5).map (leaf 'a') ≠ [] := by decide
  obtain ⟨joined, built, unites⟩ :=
    (balancedUnion_keeps_trees_in_order ((List.range' 1 5).map (leaf 'a'))).2 several
  have level : ∀ tree ∈ (List.range' 1 5).map (leaf 'a'), tree.depth = 1 := by decide
  refine ⟨joined, built, unites, ?_, ?_⟩
  · exact unites.level 1 level
  · exact Nat.add_right_cancel unites.fewest

end Tree

end Recognizer
