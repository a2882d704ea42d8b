import Mathlib.Data.List.Perm.Subperm
import Recognizer.Proofs.CharacterClass.Members
import Recognizer.Proofs.Tree.Growing
import Recognizer.Proofs.Tree.LocalWords

/-!
Trees that grow side by side from one supply of positions. Each request makes a tree
out of new leaves or out of trees at hand, or it is refused and changes nothing. So
the leaves of all trees at hand always carry the positions handed out so far, and a
tree that is left alone passes the check of positions.
-/

namespace Recognizer

namespace Symbol

theorem ofChar_eq_error {c : Char} {cause : Cause} (failed : ofChar c = .error cause) :
    (c = endMarker ∨ 128 ≤ c.toNat) ∧ cause.kind = .argument := by
  rw [ofChar] at failed
  split at failed
  · next marked =>
      cases failed
      exact ⟨Or.inl marked, rfl⟩
  · split at failed
    · cases failed
    · next beyond =>
        cases failed
        exact ⟨Or.inr (Nat.le_of_not_lt beyond), rfl⟩

end Symbol

namespace LeafSupply

/-- Leaves for characters of which each is checked when its turn comes. After a failure
the positions of the leaves before it are gone. -/
def symbolLeaves (supply : LeafSupply) : List Char → Except Cause (List Tree) × LeafSupply
  | [] => (.ok [], supply)
  | c :: cs =>
      match supply.symbolLeaf c with
      | (.error cause, rest) => (.error cause, rest)
      | (.ok leaf, rest) =>
          match rest.symbolLeaves cs with
          | (.error cause, final) => (.error cause, final)
          | (.ok leaves, final) => (.ok (leaf :: leaves), final)

theorem symbolLeaf_of_symbol (supply : LeafSupply) (symbol : Symbol) :
    supply.symbolLeaf symbol.char =
      (.ok (supply.leaf symbol.char).1, (supply.leaf symbol.char).2) := by
  rw [symbolLeaf, Symbol.ofChar_of_allowed ⟨symbol.unmarked, symbol.ascii⟩]

/-- The characters of a class pass all those checks, so no leaf is made in vain. -/
theorem symbolLeaves_of_symbols (supply : LeafSupply) (symbols : List Symbol) :
    supply.symbolLeaves (symbols.map Symbol.char) =
      (.ok (supply.leavesFor symbols).1, (supply.leavesFor symbols).2) := by
  induction symbols generalizing supply with
  | nil => rfl
  | cons symbol symbols ih =>
      simp only [List.map_cons, symbolLeaves, symbolLeaf_of_symbol, ih, leavesFor]

end LeafSupply

inductive Request where
  | symbol (c : Char)
  | endMarker
  | characters (cls : CharacterClass)
  | concat (left right : Tree)
  | union (left right : Tree)
  | star (child : Tree)
  | balanced (trees : List Tree)

namespace Request

/-- The trees that go into the new one. -/
def consumed : Request → List Tree
  | symbol _ | endMarker | characters _ => []
  | concat left right | union left right => [left, right]
  | star child => [child]
  | balanced trees => trees

def answer (supply : LeafSupply) : Request → Except Cause Tree × LeafSupply
  | symbol c => supply.symbolLeaf c
  | endMarker => (.ok supply.endLeaf.1, supply.endLeaf.2)
  | characters cls => supply.classTree cls
  | concat left right => (.ok (.concat left right), supply)
  | union left right => (.ok (.union left right), supply)
  | star child => (.ok (.star child), supply)
  | balanced trees => (Tree.balancedUnion trees, supply)

def Refused : Request → Prop
  | symbol c => c = Recognizer.endMarker ∨ 128 ≤ c.toNat
  | characters cls => cls.symbols = []
  | balanced trees => trees = []
  | endMarker | concat _ _ | union _ _ | star _ => False

/-- What an answer owes to its request. A new tree has the leaves of the trees that went
into it and besides them the next free positions; a refused request used nothing up. -/
def Honours (request : Request) (supply : LeafSupply) : Except Cause Tree × LeafSupply → Prop
  | (.ok tree, rest) => ¬request.Refused ∧ ∃ count, rest.next = supply.next + count ∧
      tree.positions.Perm
        (request.consumed.flatMap Tree.positions ++ List.range' supply.next count)
  | (.error cause, rest) =>
      request.Refused ∧ cause.kind = .argument ∧ request.consumed = [] ∧ rest = supply

theorem honours_symbol (supply : LeafSupply) (c : Char) :
    (symbol c).Honours supply ((symbol c).answer supply) := by
  rw [answer, LeafSupply.symbolLeaf]
  cases outcome : Symbol.ofChar c with
  | error cause =>
      obtain ⟨refused, argument⟩ := Symbol.ofChar_eq_error outcome
      exact ⟨refused, argument, rfl, rfl⟩
  | ok symbol =>
      refine ⟨?_, 1, rfl, List.Perm.refl _⟩
      have allowed : Symbol.Allowed c := by
        by_contra refused
        obtain ⟨cause, _, failed⟩ := Symbol.exists_refused_of_not_allowed refused
        rw [failed] at outcome
        cases outcome
      rintro (marked | beyond)
      · exact allowed.1 marked
      · exact absurd allowed.2 (Nat.not_lt.mpr beyond)

theorem honours_characters (supply : LeafSupply) (cls : CharacterClass) :
    (characters cls).Honours supply ((characters cls).answer supply) := by
  by_cases none : cls.symbols = []
  · rw [answer, supply.classTree_empty cls none]
    exact ⟨none, rfl, rfl, rfl⟩
  · obtain ⟨tree, grown, ⟨positions, count⟩, _⟩ := supply.exists_classTree cls none
    rw [answer, grown]
    refine ⟨none, tree.leafCount, count, ?_⟩
    rw [positions]
    exact List.Perm.refl _

theorem honours_balanced (supply : LeafSupply) (trees : List Tree) :
    (balanced trees).Honours supply ((balanced trees).answer supply) := by
  by_cases none : trees = []
  · subst none
    exact ⟨rfl, rfl, rfl, rfl⟩
  · obtain ⟨tree, joined, leaves, _⟩ := Tree.exists_balancedUnion none
    have positions : tree.positions = trees.flatMap Tree.positions := by
      rw [Tree.positions, leaves, List.map_flatMap]
      rfl
    rw [answer, joined]
    refine ⟨none, 0, rfl, ?_⟩
    simp [positions, consumed]

theorem honours_answer (request : Request) (supply : LeafSupply) :
    request.Honours supply (request.answer supply) := by
  cases request with
  | symbol c => exact honours_symbol supply c
  | endMarker => exact ⟨id, 1, rfl, List.Perm.refl _⟩
  | characters cls => exact honours_characters supply cls
  | concat left right => exact ⟨id, 0, rfl, by simp [consumed, Tree.positions_concat]⟩
  | union left right => exact ⟨id, 0, rfl, by simp [consumed, Tree.positions_union]⟩
  | star child => exact ⟨id, 0, rfl, by simp [consumed, Tree.positions, Tree.leaves]⟩
  | balanced trees => exact honours_balanced supply trees

end Request

/-- A supply of positions and the trees at hand. -/
structure Grove where
  supply : LeafSupply
  trees : List Tree
  deriving DecidableEq

namespace Grove

def empty : Grove := ⟨.initial, []⟩

/-- What a request consumes is gone, whatever the answer. -/
def after (grove : Grove) (request : Request) : Grove :=
  let remaining := grove.trees.diff request.consumed
  match request.answer grove.supply with
  | (.ok tree, supply) => ⟨supply, tree :: remaining⟩
  | (.error _, supply) => ⟨supply, remaining⟩

inductive Grown : Grove → Prop where
  | empty : Grown empty
  | after {grove : Grove} (request : Request) (grown : Grown grove)
      (available : request.consumed.Subperm grove.trees) : Grown (grove.after request)

/-- The positions handed out so far are those of the leaves at hand, each once. -/
structure Dense (grove : Grove) : Prop where
  counted : 0 < grove.supply.next
  positions : (grove.trees.flatMap Tree.positions).Perm
    (List.range' 1 (grove.supply.next - 1))

theorem after_of_ok {grove : Grove} {request : Request} {tree : Tree} {supply : LeafSupply}
    (made : request.answer grove.supply = (.ok tree, supply)) :
    grove.after request = ⟨supply, tree :: grove.trees.diff request.consumed⟩ := by
  simp only [after, made]

theorem after_of_error {grove : Grove} {request : Request} {cause : Cause}
    {supply : LeafSupply} (failed : request.answer grove.supply = (.error cause, supply)) :
    grove.after request = grove := by
  have honoured := request.honours_answer grove.supply
  rw [failed] at honoured
  obtain ⟨_, _, nothing, same⟩ := honoured
  simp only [after, failed, nothing, List.diff_nil, same]

theorem perm_positions_of_available {consumed trees : List Tree}
    (available : consumed.Subperm trees) :
    (consumed.flatMap Tree.positions ++ (trees.diff consumed).flatMap Tree.positions).Perm
      (trees.flatMap Tree.positions) := by
  rw [← List.flatMap_append]
  apply List.Perm.flatMap_right
  exact List.subperm_append_diff_self_of_count_le (List.subperm_ext_iff.mp available)

/-- The positions before a free one, then as many from there on. -/
theorem positions_split {free : Nat} (counted : 0 < free) (count : Nat) :
    List.range' 1 (free + count - 1) =
      List.range' 1 (free - 1) ++ List.range' free count := by
  obtain ⟨used, rfl⟩ : ∃ used, free = 1 + used := ⟨free - 1, by omega⟩
  rw [Nat.add_assoc, Nat.add_sub_cancel_left, Nat.add_sub_cancel_left]
  exact List.range'_append_1.symm

open scoped List in
theorem dense_after {grove : Grove} {request : Request}
    (available : request.consumed.Subperm grove.trees) (dense : grove.Dense) :
    (grove.after request).Dense := by
  have honoured := request.honours_answer grove.supply
  cases outcome : request.answer grove.supply with
  | mk result supply =>
      cases result with
      | error cause =>
          rw [after_of_error outcome]
          exact dense
      | ok tree =>
          rw [outcome] at honoured
          obtain ⟨_, count, advanced, carried⟩ := honoured
          have counted := dense.counted
          rw [after_of_ok outcome]
          refine ⟨by simp only [advanced]; omega, ?_⟩
          rw [advanced, positions_split counted, List.flatMap_cons]
          -- the new tree took over the leaves of those used up, its other leaves are new
          calc
            tree.positions ++ (grove.trees.diff request.consumed).flatMap Tree.positions
            _ ~ (request.consumed.flatMap Tree.positions ++ List.range' grove.supply.next count)
                  ++ (grove.trees.diff request.consumed).flatMap Tree.positions :=
              carried.append_right _
            _ ~ (request.consumed.flatMap Tree.positions
                  ++ (grove.trees.diff request.consumed).flatMap Tree.positions)
                  ++ List.range' grove.supply.next count := by
              simp only [List.append_assoc]
              exact List.perm_append_comm.append_left _
            _ ~ grove.trees.flatMap Tree.positions ++ List.range' grove.supply.next count :=
              (perm_positions_of_available available).append_right _
            _ ~ List.range' 1 (grove.supply.next - 1)
                  ++ List.range' grove.supply.next count :=
              dense.positions.append_right _

theorem dense_of_grown {grove : Grove} (grown : Grown grove) : grove.Dense := by
  induction grown with
  | empty => exact ⟨Nat.one_pos, List.Perm.refl _⟩
  | after request _ available ih => exact dense_after available ih

theorem Dense.single {grove : Grove} (dense : grove.Dense) {tree : Tree}
    (alone : grove.trees = [tree]) : tree.Dense := by
  have positions := dense.positions
  rw [alone, List.flatMap_singleton] at positions
  have count : tree.leafCount = grove.supply.next - 1 := by
    rw [Tree.leafCount, ← List.length_map Prod.fst]
    exact positions.length_eq.trans List.length_range'
  rwa [Tree.Dense, count]

/-- Whatever was asked for, the leaves at hand carry the positions handed out so far. The
requests that fail are known and change nothing, so a class never fails after some of
its leaves; and a tree that is left alone passes the check of positions. -/
theorem grown_carries_every_position_once {grove : Grove} (grown : Grown grove) :
    grove.Dense ∧
      (∀ request : Request,
        ((∃ cause, (request.answer grove.supply).1 = .error cause) ↔ request.Refused) ∧
          ∀ cause, (request.answer grove.supply).1 = .error cause →
            cause.kind = .argument ∧ grove.after request = grove) ∧
      (∀ cls : CharacterClass, ∃ leaves rest,
        grove.supply.symbolLeaves cls.chars = (.ok leaves, rest) ∧
          grove.supply.classTree cls = (Tree.balancedUnion leaves, rest)) ∧
      ∀ tree, grove.trees = [tree] → tree.checkedSymbols = .ok tree.symbols := by
  have dense := dense_of_grown grown
  refine ⟨dense, fun request => ?_, fun cls => ?_, fun tree alone => ?_⟩
  · have honoured := request.honours_answer grove.supply
    cases outcome : request.answer grove.supply with
    | mk result supply =>
        rw [outcome] at honoured
        cases result with
        | error cause =>
            obtain ⟨refused, argument, _⟩ := honoured
            refine ⟨⟨fun _ => refused, fun _ => ⟨cause, rfl⟩⟩, ?_⟩
            rintro _ ⟨⟩
            exact ⟨argument, after_of_error outcome⟩
        | ok tree =>
            refine ⟨⟨?_, fun refused => absurd refused honoured.1⟩, ?_⟩
            · rintro ⟨cause, ⟨⟩⟩
            · rintro cause ⟨⟩
  · exact ⟨_, _, grove.supply.symbolLeaves_of_symbols cls.symbols, rfl⟩
  · exact (tree.checkedSymbols_eq_ok_iff _).mpr ⟨dense.single alone, rfl⟩

/-- The end marker is asked for as a symbol in between, and the second leaf comes first
in the tree that is left. -/
theorem swapped_leaves_pass_check :
    let grove := (((empty.after (.symbol 'b')).after (.symbol '#')).after .endMarker).after
      (.concat (.leaf '#' 2) (.leaf 'b' 1))
    Grown grove ∧ grove = ⟨⟨3⟩, [.concat (.leaf '#' 2) (.leaf 'b' 1)]⟩ ∧
      (Tree.concat (.leaf '#' 2) (.leaf 'b' 1)).checkedSymbols =
        .ok (Tree.concat (.leaf '#' 2) (.leaf 'b' 1)).symbols := by
  have grown : Grown ((((empty.after (.symbol 'b')).after (.symbol '#')).after .endMarker).after
      (.concat (.leaf '#' 2) (.leaf 'b' 1))) :=
    .after _ (.after _ (.after _ (.after _ .empty (by decide)) (by decide)) (by decide)) (by decide)
  exact ⟨grown, by decide, (grown_carries_every_position_once grown).2.2.2 _ (by decide)⟩

end Grove
end Recognizer
