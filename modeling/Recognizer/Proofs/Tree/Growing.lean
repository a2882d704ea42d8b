import Recognizer.Proofs.Tree.Dense
import Recognizer.Proofs.Tree.Joining

/-!
Trees as they are grown. Joining trees two by two keeps their leaves in order and
their words together, and a class becomes a tree whose leaves carry the next free
positions and whose words are the characters of the class.
-/

namespace Recognizer

namespace Tree

/-- Every leaf is a word by itself, and there are no other words. -/
def Alternatives (tree : Tree) : Prop :=
  ∀ ⦃α : Type⦄ (letter : Char → Nat → α) (word : List α),
    word ∈ tree.words letter ↔ ∃ leaf ∈ tree.leaves, word = [letter leaf.2 leaf.1]

theorem alternatives_leaf (symbol : Char) (position : Nat) :
    (leaf symbol position).Alternatives := by
  intro α letter word
  simp [mem_words_leaf, leaves]

theorem exists_balancedUnion {trees : List Tree} (some : trees ≠ []) :
    ∃ tree, balancedUnion trees = .ok tree ∧ tree.leaves = trees.flatMap leaves ∧
      ((∀ part ∈ trees, part.Alternatives) → tree.Alternatives) := by
  obtain ⟨joined, unites⟩ := exists_unites some
  refine ⟨joined.tree, balancedUnion_of_unites unites, unites.leaves, ?_⟩
  intro alternatives α letter word
  rw [joined.mem_words_iff, unites.parts, unites.leaves]
  constructor
  · rintro ⟨part, among, member⟩
    obtain ⟨leaf, below, same⟩ := (alternatives part among letter word).mp member
    exact ⟨leaf, List.mem_flatMap.mpr ⟨part, among, below⟩, same⟩
  · rintro ⟨leaf, among, same⟩
    obtain ⟨part, isPart, below⟩ := List.mem_flatMap.mp among
    exact ⟨part, isPart, (alternatives part isPart letter word).mpr ⟨leaf, below, same⟩⟩

/-- The leaves carry the positions from a first one on, in order, up to those still free. -/
def Numbered (tree : Tree) (start free : Nat) : Prop :=
  tree.positions = List.range' start tree.leafCount ∧ free = start + tree.leafCount

theorem Numbered.concat {left right : Tree} {start middle free : Nat}
    (early : left.Numbered start middle) (late : right.Numbered middle free) :
    (Tree.concat left right).Numbered start free := by
  obtain ⟨inLeft, rfl⟩ := early
  obtain ⟨inRight, rfl⟩ := late
  have count : (Tree.concat left right).leafCount = left.leafCount + right.leafCount :=
    List.length_append
  refine ⟨?_, by rw [count, Nat.add_assoc]⟩
  rw [positions, leaves, List.map_append, count, ← List.range'_append_1]
  exact congrArg₂ (· ++ ·) inLeft inRight

theorem Numbered.dense {tree : Tree} {free : Nat} (numbered : tree.Numbered 1 free) :
    tree.Dense :=
  List.Perm.of_eq numbered.1

/-- No leaf carries the end marker. -/
def Unmarked (tree : Tree) : Prop := ∀ leaf ∈ tree.leaves, leaf.2 ≠ endMarker

/-- One leaf for every symbol of a class, with the positions from a first one on in the
order of the symbols, and a choice between all of them. -/
structure OfClass (tree : Tree) (cls : CharacterClass) (start : Nat) : Prop where
  leaves : tree.leaves = (List.range' start cls.symbols.length).zip cls.chars
  alternatives : tree.Alternatives

section OfClass

variable {tree : Tree} {cls : CharacterClass} {start : Nat} (ofClass : tree.OfClass cls start)

include ofClass

theorem OfClass.positions_eq : tree.positions = List.range' start cls.symbols.length := by
  rw [positions, ofClass.leaves, List.map_fst_zip]
  simp [CharacterClass.chars]

theorem OfClass.map_snd_leaves : tree.leaves.map Prod.snd = cls.chars := by
  rw [ofClass.leaves, List.map_snd_zip]
  simp [CharacterClass.chars]

theorem OfClass.mem_chars_iff (c : Char) :
    c ∈ cls.chars ↔ ∃ position, (position, c) ∈ tree.leaves := by
  simp [← ofClass.map_snd_leaves]

theorem OfClass.bounds {leaf : Nat × Char} (among : leaf ∈ tree.leaves) :
    start ≤ leaf.1 ∧ leaf.1 < start + cls.symbols.length := by
  have position : leaf.1 ∈ tree.positions := List.mem_map_of_mem among
  rwa [ofClass.positions_eq, List.mem_range'_1] at position

theorem OfClass.numbered : tree.Numbered start (start + cls.symbols.length) := by
  have count : tree.leafCount = cls.symbols.length := by
    rw [leafCount, ofClass.leaves]
    simp [CharacterClass.chars]
  exact ⟨by rw [ofClass.positions_eq, count], by rw [count]⟩

theorem OfClass.unmarked : tree.Unmarked := by
  intro leaf among
  have listed : leaf.2 ∈ cls.chars := ofClass.map_snd_leaves ▸ List.mem_map_of_mem among
  obtain ⟨symbol, _, same⟩ := List.mem_map.mp listed
  exact same ▸ symbol.unmarked

theorem OfClass.mem_language (word : List Char) :
    word ∈ tree.language ↔ ∃ c ∈ cls.chars, word = [c] := by
  rw [language, ofClass.alternatives, ← ofClass.map_snd_leaves]
  simp only [List.mem_map, exists_exists_and_eq_and]

end OfClass

end Tree

namespace LeafSupply

theorem leavesFor_next (supply : LeafSupply) (symbols : List Symbol) :
    (supply.leavesFor symbols).2 = ⟨supply.next + symbols.length⟩ := by
  induction symbols generalizing supply with
  | nil => rfl
  | cons symbol symbols ih =>
      rw [leavesFor]
      refine (ih _).trans ?_
      rw [List.length_cons, leaf, Nat.add_right_comm, Nat.add_assoc]

theorem flatMap_leaves_leavesFor (supply : LeafSupply) (symbols : List Symbol) :
    (supply.leavesFor symbols).1.flatMap Tree.leaves =
      (List.range' supply.next symbols.length).zip (symbols.map Symbol.char) := by
  induction symbols generalizing supply with
  | nil => rfl
  | cons symbol symbols ih =>
      rw [leavesFor, List.length_cons, List.range'_succ, List.map_cons, List.zip_cons_cons]
      exact congrArg ((supply.next, symbol.char) :: ·) (ih _)

theorem alternatives_of_mem_leavesFor (supply : LeafSupply) (symbols : List Symbol) :
    ∀ tree ∈ (supply.leavesFor symbols).1, tree.Alternatives := by
  induction symbols generalizing supply with
  | nil => simp [leavesFor]
  | cons symbol symbols ih =>
      simp only [leavesFor, List.mem_cons, forall_eq_or_imp]
      exact ⟨Tree.alternatives_leaf symbol.char supply.next, ih _⟩

theorem exists_ofClass (supply : LeafSupply) (cls : CharacterClass) (some : cls.symbols ≠ []) :
    ∃ tree, supply.classTree cls = (.ok tree, ⟨supply.next + cls.symbols.length⟩) ∧
      tree.OfClass cls supply.next := by
  have several : (supply.leavesFor cls.symbols).1 ≠ [] := by
    obtain ⟨symbol, symbols, same⟩ := List.exists_cons_of_ne_nil some
    simp [same, leavesFor]
  obtain ⟨tree, joined, leaves, alternatives⟩ := Tree.exists_balancedUnion several
  refine ⟨tree, ?_, ?_, alternatives (supply.alternatives_of_mem_leavesFor cls.symbols)⟩
  · rw [classTree, ← leavesFor_next, ← joined]
  · rw [leaves, flatMap_leaves_leavesFor, CharacterClass.chars]

/-- The leaf of a symbol reads just that symbol, so the tree of a class reads a
character of the class. -/
theorem exists_classTree (supply : LeafSupply) (cls : CharacterClass) (some : cls.symbols ≠ []) :
    ∃ tree, supply.classTree cls = (.ok tree, ⟨supply.next + cls.symbols.length⟩) ∧
      tree.Numbered supply.next (supply.next + cls.symbols.length) ∧ tree.Unmarked ∧
      ∀ word, word ∈ tree.language ↔ ∃ c ∈ cls.chars, word = [c] := by
  obtain ⟨tree, grown, ofClass⟩ := supply.exists_ofClass cls some
  exact ⟨tree, grown, ofClass.numbered, ofClass.unmarked, ofClass.mem_language⟩

theorem classTree_empty (supply : LeafSupply) (cls : CharacterClass) (none : cls.symbols = []) :
    supply.classTree cls = (.error .emptyUnion, supply) := by
  rw [classTree, none]
  rfl

end LeafSupply

namespace Tree

theorem identifier_of_classTrees {first rest : CharacterClass} {head tail : Tree}
    {middle final : LeafSupply}
    (headGrown : LeafSupply.initial.classTree first = (.ok head, middle))
    (tailGrown : middle.classTree rest = (.ok tail, final)) :
    identifier first rest =
      .ok (.concat (.concat head (.star tail)) (.leaf endMarker final.next)) := by
  rw [identifier]
  simp only [headGrown, tailGrown, bind, Except.bind]
  rfl

end Tree

/-- Trees of two classes, numbered one after the other. -/
structure TwoClasses (first rest : CharacterClass) where
  head : Tree
  tail : Tree
  ofFirst : head.OfClass first 1
  ofRest : tail.OfClass rest (first.symbols.length + 1)

namespace TwoClasses

variable {first rest : CharacterClass}

def body (classes : TwoClasses first rest) : Tree :=
  .concat classes.head (.star classes.tail)

/-- The first class once, the second any number of times, then the end marker. -/
def tree (classes : TwoClasses first rest) : Tree :=
  .concat classes.body (.leaf endMarker (first.symbols.length + rest.symbols.length + 1))

theorem numbered_body (classes : TwoClasses first rest) :
    classes.body.Numbered 1 (first.symbols.length + rest.symbols.length + 1) := by
  have early := classes.ofFirst.numbered
  have late : (Tree.star classes.tail).Numbered _ _ := classes.ofRest.numbered
  rw [Nat.add_comm] at early
  rw [Nat.add_right_comm] at late
  exact early.concat late

theorem unmarked_body (classes : TwoClasses first rest) : classes.body.Unmarked := by
  intro leaf among
  exact (List.mem_append.mp among).elim (classes.ofFirst.unmarked leaf)
    (classes.ofRest.unmarked leaf)

end TwoClasses

namespace Tree

theorem exists_twoClasses {first rest : CharacterClass} (someFirst : first.symbols ≠ [])
    (someRest : rest.symbols ≠ []) :
    ∃ classes : TwoClasses first rest, identifier first rest = .ok classes.tree := by
  obtain ⟨head, headGrown, ofFirst⟩ := LeafSupply.initial.exists_ofClass first someFirst
  obtain ⟨tail, tailGrown, ofRest⟩ :=
    LeafSupply.exists_ofClass ⟨first.symbols.length + 1⟩ rest someRest
  have next : LeafSupply.initial.next + first.symbols.length = first.symbols.length + 1 :=
    Nat.add_comm 1 _
  rw [next] at headGrown
  refine ⟨⟨head, tail, ofFirst, ofRest⟩, ?_⟩
  rw [identifier_of_classTrees headGrown tailGrown, Nat.add_right_comm]
  rfl

theorem exists_identifier {first rest : CharacterClass} (someFirst : first.symbols ≠ [])
    (someRest : rest.symbols ≠ []) :
    ∃ body position, identifier first rest = .ok (.concat body (.leaf endMarker position)) ∧
      body.Numbered 1 position ∧ body.Unmarked := by
  obtain ⟨classes, grown⟩ := exists_twoClasses someFirst someRest
  exact ⟨classes.body, _, grown, classes.numbered_body, classes.unmarked_body⟩

end Tree

end Recognizer
