import Recognizer.Tree.Basic

/-!
Trees from their text. Read from left to right, a star belongs to the tree that was read
last, and a closing parenthesis joins the last two since the opening one. So the text of a
tree whose symbols are no marks of the notation is read in one way only, and only the
positions of the leaves are not written.
-/

namespace Recognizer.Tree

/-- The same trees but for the positions of the leaves. -/
inductive Alike : Tree → Tree → Prop where
  | leaf (symbol : Char) (position other : Nat) : Alike (leaf symbol position) (leaf symbol other)
  | concat {left right left' right' : Tree}
      (first : Alike left left') (second : Alike right right') :
      Alike (concat left right) (concat left' right')
  | union {left right left' right' : Tree}
      (first : Alike left left') (second : Alike right right') :
      Alike (union left right) (union left' right')
  | star {child child' : Tree} (below : Alike child child') : Alike (star child) (star child')

def withoutPositions : Tree → Tree
  | leaf symbol _ => leaf symbol 0
  | concat left right => concat left.withoutPositions right.withoutPositions
  | union left right => union left.withoutPositions right.withoutPositions
  | star child => star child.withoutPositions

theorem alike_iff (tree other : Tree) :
    Alike tree other ↔ tree.withoutPositions = other.withoutPositions := by
  constructor
  · intro alike
    induction alike with
    | leaf symbol position other => rfl
    | concat _ _ first second => rw [withoutPositions, withoutPositions, first, second]
    | union _ _ first second => rw [withoutPositions, withoutPositions, first, second]
    | star _ below => rw [withoutPositions, withoutPositions, below]
  · intro same
    induction tree generalizing other with
    | leaf symbol position =>
        cases other <;> cases same
        exact Alike.leaf _ _ _
    | concat left right first second =>
        cases other <;> simp only [withoutPositions, reduceCtorEq, concat.injEq] at same
        exact Alike.concat (first _ same.1) (second _ same.2)
    | union left right first second =>
        cases other <;> simp only [withoutPositions, reduceCtorEq, union.injEq] at same
        exact Alike.union (first _ same.1) (second _ same.2)
    | star child below =>
        cases other <;> simp only [withoutPositions, reduceCtorEq, star.injEq] at same
        exact Alike.star (below _ same)

def notationMarks : List Char := ['(', ')', '|', '*']

/-- No symbol of the tree is a mark of the notation. -/
def Plain (tree : Tree) : Prop := ∀ leaf ∈ tree.leaves, leaf.2 ∉ notationMarks

instance (tree : Tree) : Decidable tree.Plain :=
  inferInstanceAs (Decidable (∀ leaf ∈ tree.leaves, leaf.2 ∉ notationMarks))

/-- What has been read and is not yet part of a tree around it. -/
inductive Piece where
  | opening
  | bar
  | whole (tree : Tree)
  deriving DecidableEq, Repr

/-- The last piece comes first. -/
def starred? : List Piece → Option (List Piece)
  | .whole child :: before => some (.whole (star child) :: before)
  | _ => none

def closed? : List Piece → Option (List Piece)
  | .whole right :: .whole left :: .opening :: before =>
      some (.whole (concat left right) :: before)
  | .whole right :: .bar :: .whole left :: .opening :: before =>
      some (.whole (union left right) :: before)
  | _ => none

def read? (pieces : List Piece) (c : Char) : Option (List Piece) :=
  if c = '(' then some (.opening :: pieces)
  else if c = '|' then some (.bar :: pieces)
  else if c = '*' then starred? pieces
  else if c = ')' then closed? pieces
  else some (.whole (leaf c 0) :: pieces)

def ofText? (text : String) : Option Tree :=
  match text.toList.foldlM read? [] with
  | some [.whole tree] => some tree
  | _ => none

theorem read?_symbol {symbol : Char} (plain : symbol ∉ notationMarks) (pieces : List Piece) :
    read? pieces symbol = some (.whole (leaf symbol 0) :: pieces) := by
  simp only [notationMarks, List.mem_cons, List.not_mem_nil, or_false, not_or] at plain
  simp [read?, plain]

/-- Nothing in the text of a tree reaches what was read before it. -/
theorem foldlM_read?_toText (tree : Tree) (plain : tree.Plain) (pieces : List Piece) :
    tree.toText.toList.foldlM read? pieces = some (.whole tree.withoutPositions :: pieces) := by
  induction tree generalizing pieces with
  | leaf symbol position =>
      have other := plain (position, symbol) List.mem_cons_self
      simp [toText, withoutPositions, read?_symbol other]
  | concat left right first second =>
      have before := first fun leaf member => plain leaf (List.mem_append_left _ member)
      have behind := second fun leaf member => plain leaf (List.mem_append_right _ member)
      simp [toText, withoutPositions, before, behind, read?, closed?]
  | union left right first second =>
      have before := first fun leaf member => plain leaf (List.mem_append_left _ member)
      have behind := second fun leaf member => plain leaf (List.mem_append_right _ member)
      simp [toText, withoutPositions, before, behind, read?, closed?]
  | star child below =>
      have inner := below plain
      simp [toText, withoutPositions, inner, read?, starred?]

theorem ofText?_toText (tree : Tree) (plain : tree.Plain) :
    ofText? tree.toText = some tree.withoutPositions := by
  rw [ofText?, foldlM_read?_toText tree plain]

theorem toText_of_alike {tree other : Tree} (alike : Alike tree other) :
    tree.toText = other.toText := by
  induction alike with
  | leaf symbol position other => rfl
  | concat _ _ first second => rw [toText, toText, first, second]
  | union _ _ first second => rw [toText, toText, first, second]
  | star _ below => rw [toText, toText, below]

/-- Plain trees have the same text just when they are the same but for their positions. -/
theorem plain_trees_are_told_apart_by_text (tree other : Tree) (plain : tree.Plain)
    (also : other.Plain) : tree.toText = other.toText ↔ Alike tree other := by
  refine ⟨fun same => ?_, toText_of_alike⟩
  have read := ofText?_toText tree plain
  rw [same, ofText?_toText other also] at read
  exact (alike_iff tree other).mpr (Option.some.inj read).symm

/-- Stars on stars and next to each other, written `(a**(b*|a)*)`. -/
def starry : Tree :=
  concat (star (star (leaf 'a' 1))) (star (union (star (leaf 'b' 2)) (leaf 'a' 3)))

theorem starry_is_told_apart :
    (starry.Plain ∧ starry.withoutPositions.Plain ∧
      (starry.toText = starry.withoutPositions.toText ↔
        Alike starry starry.withoutPositions)) ∧
    (concat (star (leaf 'a' 1)) (star (star (leaf 'b' 2)))).toText ≠
      (concat (star (star (leaf 'a' 1))) (star (leaf 'b' 2))).toText := by
  have plain : starry.Plain := by decide
  have also : starry.withoutPositions.Plain := by decide
  refine ⟨⟨plain, also, plain_trees_are_told_apart_by_text _ _ plain also⟩, fun same => ?_⟩
  rw [plain_trees_are_told_apart_by_text _ _ (by decide) (by decide), alike_iff] at same
  cases same

-- a symbol that is taken for a star
example : (concat (star (leaf 'a' 1)) (leaf '*' 2)).toText =
    (concat (leaf 'a' 1) (star (leaf '*' 2))).toText := by decide

end Recognizer.Tree
