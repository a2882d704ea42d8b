import Mathlib.Data.List.Count
import Mathlib.Data.List.Nodup
import Recognizer.Proofs.Report.Lines
import Recognizer.Proofs.Tree.Addresses

/-!
Drawings of trees. Nodes are numbered as they are met, and a node is met before everything
below it, so its number is its place in the list of nodes. One arrow comes to every node but
the root, from the node it is a child of. The lines tell which trees they were drawn for,
as each shows what it stands for and the lines of the children follow.
-/

namespace Recognizer.Tree

open Drawing Layout

/-- What is written for a tree when the numbers in front of it are taken, and the number that
is free after it. -/
def drawn (number : Nat) : Tree → List Statement × Nat
  | leaf symbol position => ([declaration number (leaf symbol position)], number + 1)
  | concat left right =>
      let first := left.drawn (number + 1)
      let second := right.drawn first.2
      (declaration number (concat left right)
        :: (first.1 ++ link number (number + 1) :: (second.1 ++ [link number first.2])), second.2)
  | union left right =>
      let first := left.drawn (number + 1)
      let second := right.drawn first.2
      (declaration number (union left right)
        :: (first.1 ++ link number (number + 1) :: (second.1 ++ [link number first.2])), second.2)
  | star child =>
      let below := child.drawn (number + 1)
      (declaration number (star child) :: (below.1 ++ [link number (number + 1)]), below.2)

theorem drawn_eq (number : Nat) (tree : Tree) :
    tree.drawn number = (tree.statements number, number + tree.size) := by
  induction tree generalizing number with
  | leaf symbol position => rfl
  | concat left right first second =>
      simp [drawn, statements, size, first, second, Nat.add_assoc]
  | union left right first second =>
      simp [drawn, statements, size, first, second, Nat.add_assoc]
  | star child below =>
      simp [drawn, statements, size, below, Nat.add_assoc]

/-- The numbers at both ends of every arrow. -/
def arrows (number : Nat) : Tree → List (Nat × Nat)
  | leaf _ _ => []
  | concat left right =>
      left.arrows (number + 1) ++ (number, number + 1) ::
        (right.arrows (number + 1 + left.size) ++ [(number, number + 1 + left.size)])
  | union left right =>
      left.arrows (number + 1) ++ (number, number + 1) ::
        (right.arrows (number + 1 + left.size) ++ [(number, number + 1 + left.size)])
  | star child => child.arrows (number + 1) ++ [(number, number + 1)]

/-- The same for the children of a node, of which the first has the next number. -/
def childArrows (parent next : Nat) : List Tree → List (Nat × Nat)
  | [] => []
  | child :: others =>
      child.arrows next ++ (parent, next) :: childArrows parent (next + child.size) others

theorem arrows_eq (number : Nat) (tree : Tree) :
    tree.arrows number = childArrows number (number + 1) tree.children := by
  cases tree <;> simp [arrows, childArrows, children]

@[simp]
theorem isArrow_declaration (number : Nat) (tree : Tree) :
    (declaration number tree).isArrow = false := rfl

@[simp]
theorem isArrow_link (source target : Nat) : (link source target).isArrow = true := rfl

theorem filter_isArrow_statements (number : Nat) (tree : Tree) :
    (tree.statements number).filter Statement.isArrow =
      (tree.arrows number).map fun ends => link ends.1 ends.2 := by
  induction tree generalizing number with
  | leaf symbol position => simp [statements, arrows]
  | concat left right first second =>
      simp [statements, arrows, List.filter_cons, first, second]
  | union left right first second =>
      simp [statements, arrows, List.filter_cons, first, second]
  | star child below => simp [statements, arrows, List.filter_cons, below]

/-- Everything else declares a node, in the order of the nodes. -/
theorem filter_not_isArrow_statements (number : Nat) (tree : Tree) :
    (tree.statements number).filter (!·.isArrow) =
      tree.nodes.mapIdx fun index node => declaration (number + index) node := by
  induction tree generalizing number with
  | leaf symbol position => simp [statements, nodes]
  | concat left right first second =>
      simp [statements, nodes, List.mapIdx_append, length_nodes, first, second,
        Nat.add_assoc, Nat.add_left_comm, Nat.add_comm]
  | union left right first second =>
      simp [statements, nodes, List.mapIdx_append, length_nodes, first, second,
        Nat.add_assoc, Nat.add_left_comm, Nat.add_comm]
  | star child below =>
      simp [statements, nodes, below, Nat.add_left_comm, Nat.add_comm]

/-- The arrow comes to a node that is listed here, from the node it is a child of: another
one of them, or the one above them all, to which the first steps lead. -/
def Joins (above next : Nat) (listed : List (List Nat)) (source target : Nat) : Prop :=
  ∃ child step, target = next + child ∧
    (source = above ∧ listed[child]? = some [step] ∨
      ∃ parent address, source = next + parent ∧ listed[parent]? = some address ∧
        listed[child]? = some (address ++ [step]))

theorem Joins.append {above next source target : Nat} {front back : List (List Nat)}
    (joins : Joins above (next + front.length) back source target) :
    Joins above next (front ++ back) source target := by
  have beyond : ∀ index, (front ++ back)[front.length + index]? = back[index]? := by
    intro index
    rw [List.getElem?_append_right (Nat.le_add_right _ _), Nat.add_sub_cancel_left]
  obtain ⟨child, step, rfl, ⟨rfl, first⟩ | ⟨parent, address, rfl, start, stop⟩⟩ := joins
  · exact ⟨front.length + child, step, Nat.add_assoc _ _ _, Or.inl ⟨rfl, by rwa [beyond]⟩⟩
  · exact ⟨front.length + child, step, Nat.add_assoc _ _ _,
      Or.inr ⟨front.length + parent, address, Nat.add_assoc _ _ _,
        by rwa [beyond], by rwa [beyond]⟩⟩

theorem joins_of_mem_childArrows {source target : Nat} {trees : List Tree}
    (each : ∀ child ∈ trees, ∀ number, (source, target) ∈ child.arrows number →
      ∃ parent below, source = number + parent ∧ target = number + below ∧
        child.Child parent below)
    (parent next step : Nat) (member : (source, target) ∈ childArrows parent next trees) :
    Joins parent next (addressesFrom step trees) source target := by
  induction trees generalizing next step with
  | nil => cases member
  | cons first others ih =>
      obtain ⟨head, tail⟩ := List.forall_mem_cons.mp each
      have kept : ∀ {index : Nat} {address : List Nat}, first.addresses[index]? = some address →
          (addressesFrom step (first :: others))[index]? = some (step :: address) := by
        intro index address found
        have inside := (List.getElem?_eq_some_iff.mp found).1
        rw [addressesFrom, List.getElem?_append_left (by rwa [List.length_map]),
          List.getElem?_map, found]
        rfl
      rw [childArrows, List.mem_append, List.mem_cons] at member
      -- below the first child, to the first child, or to one of the others and below them
      rcases member with inside | here | beyond
      · obtain ⟨start, child, rfl, rfl, address, last, above, below⟩ := head next inside
        exact ⟨child, last, rfl, Or.inr ⟨start, step :: address, rfl, kept above, kept below⟩⟩
      · cases here
        refine ⟨0, step, rfl, Or.inl ⟨rfl, kept ?_⟩⟩
        rw [addresses_eq, List.getElem?_cons_zero]
      · have later := ih tail (next + first.size) (step + 1) beyond
        rw [← length_addresses, ← List.length_map (f := (step :: ·))] at later
        exact later.append

/-- Every arrow goes from a node to one of its children. -/
theorem child_of_mem_arrows {number source target : Nat} (tree : Tree)
    (member : (source, target) ∈ tree.arrows number) :
    ∃ parent child, source = number + parent ∧ target = number + child ∧
      tree.Child parent child := by
  induction tree using induction_children generalizing number with
  | step tree ih =>
      rw [arrows_eq] at member
      -- the root has the first number, so what is listed below it is one place further on
      have joins := joins_of_mem_childArrows (fun child known number => ih child known)
        number (number + 1) 0 member
      have listed : ∀ index,
          tree.addresses[index + 1]? = (addressesFrom 0 tree.children)[index]? := by
        intro index
        rw [addresses_eq, List.getElem?_cons_succ]
      obtain ⟨child, step, rfl, ⟨rfl, first⟩ | ⟨parent, address, rfl, start, stop⟩⟩ := joins
      · refine ⟨0, child + 1, rfl, by omega, [], step, ?_, ?_⟩
        · rw [addresses_eq, List.getElem?_cons_zero]
        · rwa [listed]
      · refine ⟨parent + 1, child + 1, by omega, by omega, address, step, ?_, ?_⟩
        · rwa [listed]
        · rwa [listed]

theorem map_snd_childArrows_perm {trees : List Tree}
    (each : ∀ child ∈ trees, ∀ number,
      ((child.arrows number).map Prod.snd).Perm (List.range' (number + 1) (child.size - 1)))
    (parent next : Nat) :
    ((childArrows parent next trees).map Prod.snd).Perm
      (List.range' next (trees.map size).sum) := by
  induction trees generalizing next with
  | nil => exact List.Perm.nil
  | cons first others ih =>
      obtain ⟨head, tail⟩ := List.forall_mem_cons.mp each
      have some : first.size = first.size - 1 + 1 := by
        have := first.size_eq
        omega
      rw [childArrows, List.map_append, List.map_cons, List.map_cons, List.sum_cons,
        ← List.range'_append_1, some, List.range'_succ, ← some, List.cons_append]
      exact List.perm_middle.trans (((head next).append (ih tail _)).cons next)

/-- There is one arrow to every node but the root. -/
theorem map_snd_arrows_perm (number : Nat) (tree : Tree) :
    ((tree.arrows number).map Prod.snd).Perm (List.range' (number + 1) (tree.size - 1)) := by
  induction tree using induction_children generalizing number with
  | step tree ih =>
      rw [arrows_eq, size_eq, Nat.add_sub_cancel_left]
      exact map_snd_childArrows_perm ih number (number + 1)

theorem Child.lt {tree : Tree} {parent child : Nat} (held : tree.Child parent child) :
    0 < child ∧ child < tree.size := by
  obtain ⟨address, step, above, below⟩ := held
  rw [← length_addresses]
  refine ⟨Nat.pos_of_ne_zero ?_, (List.getElem?_eq_some_iff.mp below).1⟩
  rintro rfl
  rw [addresses_eq, List.getElem?_cons_zero, Option.some.injEq] at below
  exact absurd below.symm (List.append_ne_nil_of_right_ne_nil _ (List.cons_ne_nil _ _))

theorem Child.unique {tree : Tree} {parent other child : Nat} (held : tree.Child parent child)
    (also : tree.Child other child) : parent = other := by
  obtain ⟨address, step, above, below⟩ := held
  obtain ⟨address', step', above', below'⟩ := also
  have same := Option.some.inj (below.symm.trans below')
  obtain ⟨rfl, _⟩ := List.append_inj' same rfl
  obtain ⟨inside, found⟩ := List.getElem?_eq_some_iff.mp above
  obtain ⟨inside', found'⟩ := List.getElem?_eq_some_iff.mp above'
  exact (tree.nodup_addresses.getElem_inj_iff).mp (found.trans found'.symm)

theorem exists_arrow {tree : Tree} {child : Nat} (lower : 0 < child) (upper : child < tree.size) :
    ∃ parent, (parent, child) ∈ tree.arrows 0 := by
  have target : child ∈ (tree.arrows 0).map Prod.snd := by
    rw [(tree.map_snd_arrows_perm 0).mem_iff, List.mem_range'_1]
    omega
  obtain ⟨⟨parent, _⟩, member, rfl⟩ := List.mem_map.mp target
  exact ⟨parent, member⟩

theorem mem_arrows_iff (tree : Tree) (parent child : Nat) :
    (parent, child) ∈ tree.arrows 0 ↔ tree.Child parent child := by
  have sound : ∀ parent, (parent, child) ∈ tree.arrows 0 → tree.Child parent child := by
    intro parent member
    obtain ⟨start, stop, rfl, rfl, held⟩ := child_of_mem_arrows tree member
    rwa [Nat.zero_add, Nat.zero_add]
  refine ⟨sound parent, fun held => ?_⟩
  obtain ⟨start, member⟩ := exists_arrow held.lt.1 held.lt.2
  rwa [held.unique (sound start member)]

theorem nodup_arrows (tree : Tree) : (tree.arrows 0).Nodup :=
  List.Nodup.of_map Prod.snd ((tree.map_snd_arrows_perm 0).nodup_iff.mpr (List.nodup_range' 1))

theorem isName_nodeStem : IsName "n" := List.all_eq_true.mp (by decide)

theorem isName_nodeName (number : Nat) : IsName (nodeName number) :=
  isName_nameAt isName_nodeStem number

theorem proper_link (parent child : Nat) : (link parent child).Proper :=
  ⟨isName_nodeName parent, isName_nodeName child⟩

theorem proper_declaration (number : Nat) (tree : Tree) : (declaration number tree).Proper := by
  refine ⟨isName_nodeName number, List.all_eq_true.mp ?_⟩
  have shapes : tree.shape = "box" ∨ tree.shape = "ellipse" := by
    cases tree <;> simp [shape]
  rcases shapes with shape | shape <;> rw [shape] <;> decide

theorem mem_statements {number : Nat} {tree : Tree} {statement : Statement}
    (member : statement ∈ tree.statements number) :
    (∃ parent child, statement = link parent child) ∨
      ∃ index node, tree.nodes[index]? = some node ∧
        statement = declaration (number + index) node := by
  cases head : statement.isArrow with
  | true =>
      have kept := List.mem_filter.mpr ⟨member, head⟩
      rw [filter_isArrow_statements] at kept
      obtain ⟨ends, _, rfl⟩ := List.mem_map.mp kept
      exact Or.inl ⟨ends.1, ends.2, rfl⟩
  | false =>
      have kept : statement ∈ (tree.statements number).filter (!·.isArrow) :=
        List.mem_filter.mpr ⟨member, by rw [head]; rfl⟩
      rw [filter_not_isArrow_statements] at kept
      obtain ⟨index, inside, rfl⟩ := List.mem_mapIdx.mp kept
      exact Or.inr ⟨index, _, List.getElem?_eq_getElem inside, rfl⟩

theorem proper_statements (number : Nat) (tree : Tree) :
    ∀ statement ∈ tree.statements number, statement.Proper := by
  intro statement member
  rcases mem_statements member with ⟨parent, child, rfl⟩ | ⟨index, node, _, rfl⟩
  · exact proper_link parent child
  · exact proper_declaration _ node

theorem leaf_of_declaration {number position position' : Nat} {symbol symbol' : Char}
    (same : declaration number (leaf symbol position) =
      declaration number (leaf symbol' position')) :
    leaf symbol position = leaf symbol' position' := by
  simp only [declaration, Statement.node.injEq, true_and, caption] at same
  have texts := congrArg String.toList same.1
  simp only [String.toList_append, String.toList_ofList, List.append_assoc] at texts
  obtain ⟨rfl, rest⟩ := List.cons.inj texts
  have numbers := Delimited.number_injective (String.toList_inj.mp (List.append_cancel_left rest))
  rw [numbers]

/-- The statements of a tree show where they end. -/
theorem delimited_statements (number : Nat) :
    Delimited (fun tree : Tree => tree.statements number) fun _ => True := by
  intro tree other front back _ _ same
  simp only at same
  -- the first statement tells the kind of node, and so which statements of children follow
  induction tree generalizing number other front back with
  | leaf symbol position =>
      cases other with
      | leaf symbol' position' =>
          obtain ⟨top, rest⟩ := List.cons.inj same
          exact ⟨leaf_of_declaration top, rest⟩
      | concat _ _ | union _ _ | star _ =>
          have top := (List.cons.inj same).1
          simp [declaration, shape] at top
  | concat left right first second =>
      cases other with
      | concat left' right' =>
          simp only [statements, List.cons_append, List.append_assoc, List.nil_append] at same
          obtain ⟨rfl, rest⟩ := first _ _ _ _ (List.cons.inj same).2
          obtain ⟨rfl, behind⟩ := second _ _ _ _ (List.cons.inj rest).2
          exact ⟨rfl, (List.cons.inj behind).2⟩
      | leaf _ _ | union _ _ | star _ =>
          have top := (List.cons.inj same).1
          simp [declaration, shape, caption] at top
  | union left right first second =>
      cases other with
      | union left' right' =>
          simp only [statements, List.cons_append, List.append_assoc, List.nil_append] at same
          obtain ⟨rfl, rest⟩ := first _ _ _ _ (List.cons.inj same).2
          obtain ⟨rfl, behind⟩ := second _ _ _ _ (List.cons.inj rest).2
          exact ⟨rfl, (List.cons.inj behind).2⟩
      | leaf _ _ | concat _ _ | star _ =>
          have top := (List.cons.inj same).1
          simp [declaration, shape, caption] at top
  | star child below =>
      cases other with
      | star child' =>
          simp only [statements, List.cons_append, List.append_assoc, List.nil_append] at same
          obtain ⟨rfl, rest⟩ := below _ _ _ _ (List.cons.inj same).2
          exact ⟨rfl, (List.cons.inj rest).2⟩
      | leaf _ _ | concat _ _ | union _ _ =>
          have top := (List.cons.inj same).1
          simp [declaration, shape, caption] at top

def opening : List String :=
  ["digraph tree \x7b", "node [fontname = \"Helvetica\" fontsize = 10];"]

theorem settings_opening : ∀ line ∈ opening, isSetting line = true :=
  List.all_eq_true.mp (by decide)

theorem drawing_eq (tree : Tree) : tree.drawing = framed opening (tree.statements 0) := rfl

theorem linesOf_drawing (tree : Tree) :
    linesOf tree.drawing =
      opening ++ (tree.statements 0).map Statement.text ++ ["\x7d", ""] :=
  linesOf_framed settings_opening (tree.proper_statements 0)

/-- The drawing of a tree is that of no other tree. -/
theorem drawing_eq_iff (tree other : Tree) : other.drawing = tree.drawing ↔ other = tree := by
  refine ⟨fun same => ?_, congrArg drawing⟩
  have lines := congrArg linesOf same
  rw [linesOf_drawing, linesOf_drawing] at lines
  have texts := List.append_cancel_left (List.append_cancel_right lines)
  have statements : other.statements 0 = tree.statements 0 :=
    map_text_injective (other.proper_statements 0) (tree.proper_statements 0) texts
  exact (delimited_statements 0).injective trivial statements

/-- Nodes are listed in the ascending order of their addresses, which is the order that they
are met in when children are put on the work from the last to the first. -/
structure ListsNodesInOrder (tree : Tree) : Prop where
  ascending : tree.addresses.Pairwise (List.Lex (· < ·))
  complete : ∀ address, address ∈ tree.addresses ↔ ∃ node, tree.at? address = some node
  nodes : tree.addresses.map tree.at? = tree.nodes.map some
  walked : walk [tree] = tree.nodes
  rows : tree.attributes.map (fun row => (row.id, row.node)) =
    tree.nodes.mapIdx fun index node => (index + 1, node)

/-- The lines declare the nodes of the tree, each once, and link each to its children. -/
structure ShownBy (tree : Tree) (lines : List String) : Prop where
  declared : ∀ number, lines.filter (declares (nodeName number)) =
    (tree.nodes[number]?.map fun node => (declaration number node).text).toList
  linked : ∀ parent child, (link parent child).text ∈ lines ↔ tree.Child parent child
  once : ∀ parent child, lines.count (link parent child).text ≤ 1
  root : ∀ parent, (link parent 0).text ∉ lines
  parent : ∀ child, 0 < child → child < tree.nodes.length →
    ∃! parent, (link parent child).text ∈ lines
  nothingElse : ∀ line ∈ lines, line ∈ opening ++ ["\x7d", ""] ∨
    (∃ number node, tree.nodes[number]? = some node ∧ line = (declaration number node).text) ∨
    ∃ parent child, tree.Child parent child ∧ line = (link parent child).text

theorem listsNodesInOrder (tree : Tree) : tree.ListsNodesInOrder where
  ascending := tree.ascending_addresses
  complete := tree.mem_addresses_iff
  nodes := tree.map_at?_addresses
  walked := by rw [walk_eq, List.flatMap_singleton]
  rows := by
    rw [attributes, List.mapIdx_eq_zipIdx_map, List.mapIdx_eq_zipIdx_map, List.map_map]
    rfl

/-- A node is declared where its name has its attributes behind it, and nowhere else. -/
theorem filter_declares_drawing (tree : Tree) (number : Nat) :
    (linesOf tree.drawing).filter (declares (nodeName number)) =
      (tree.nodes[number]?.map fun node => (declaration number node).text).toList := by
  have nodes : (tree.statements 0).filter (!·.isArrow) = tree.nodes.mapIdx declaration := by
    rw [filter_not_isArrow_statements]
    simp only [Nat.zero_add]
  exact filter_declares_mapIdx settings_opening (tree.proper_statements 0) nodes isName_nodeStem
    number fun index node => isNode_nameAt number index node.caption node.shape

theorem link_injective {ends others : Nat × Nat}
    (same : link ends.1 ends.2 = link others.1 others.2) : ends = others := by
  obtain ⟨sources, targets⟩ := Statement.arrow.inj same
  exact Prod.ext (nameAt_injective _ sources) (nameAt_injective _ targets)

/-- The line of a link stands as often as the arrow is drawn, which is once. -/
theorem count_link (tree : Tree) (parent child : Nat) :
    (linesOf tree.drawing).count (link parent child).text =
      (tree.arrows 0).count (parent, child) := by
  rw [drawing_eq, count_framed settings_opening (tree.proper_statements 0)
    (proper_link parent child) (isArrow_link parent child), filter_isArrow_statements]
  exact List.count_map_of_injective _ _ (fun _ _ => link_injective) (parent, child)

theorem mem_link_iff (tree : Tree) (parent child : Nat) :
    (link parent child).text ∈ linesOf tree.drawing ↔ tree.Child parent child := by
  rw [← List.count_pos_iff, count_link, List.count_pos_iff, mem_arrows_iff]

theorem shownBy_drawing (tree : Tree) : tree.ShownBy (linesOf tree.drawing) where
  declared := tree.filter_declares_drawing
  linked := tree.mem_link_iff
  once := by
    intro parent child
    rw [count_link]
    exact List.nodup_iff_count_le_one.mp tree.nodup_arrows (parent, child)
  root := by
    intro parent linked
    have bounds := ((tree.mem_link_iff parent 0).mp linked).lt
    omega
  parent := by
    intro child lower upper
    rw [length_nodes] at upper
    obtain ⟨parent, member⟩ := exists_arrow lower upper
    have held := (tree.mem_arrows_iff parent child).mp member
    refine ⟨parent, (tree.mem_link_iff parent child).mpr held, ?_⟩
    intro other linked
    exact ((tree.mem_link_iff other child).mp linked).unique held
  nothingElse := by
    intro line member
    rw [linesOf_drawing, List.append_assoc, List.mem_append, List.mem_append] at member
    rcases member with before | stated | behind
    · exact Or.inl (List.mem_append_left _ before)
    · obtain ⟨statement, known, rfl⟩ := List.mem_map.mp stated
      rcases mem_statements known with ⟨parent, child, rfl⟩ | ⟨number, node, listed, rfl⟩
      · have held := (tree.mem_link_iff parent child).mp (by
          rw [linesOf_drawing]
          exact List.mem_append_left _ (List.mem_append_right _ stated))
        exact Or.inr (Or.inr ⟨parent, child, held, rfl⟩)
      · exact Or.inr (Or.inl ⟨number, node, listed, by rw [Nat.zero_add]⟩)
    · exact Or.inl (List.mem_append_right _ behind)

/-- A drawing shows the nodes of its tree under the numbers that they are listed with, and
it shows no other tree. -/
theorem drawings_show_their_trees (tree : Tree) :
    tree.ListsNodesInOrder ∧ tree.ShownBy (linesOf tree.drawing) ∧
      tree.drawn 0 = (tree.statements 0, tree.nodes.length) ∧
      ∀ other : Tree, other.drawing = tree.drawing ↔ other = tree :=
  ⟨tree.listsNodesInOrder, tree.shownBy_drawing,
    by rw [drawn_eq, Nat.zero_add, length_nodes], fun other => tree.drawing_eq_iff other⟩

end Recognizer.Tree
