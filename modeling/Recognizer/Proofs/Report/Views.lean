import Recognizer.Proofs.Automaton.Edges
import Recognizer.Proofs.Automaton.Parts
import Recognizer.Proofs.Report.Grid
import Recognizer.Proofs.Report.Lines

/-!
What is reported of an automaton is the machine that its table runs. The names number its
states, the grid has the moves in the rows and columns of its text, and the drawing has
them as lines, each with its own way through the automaton. All of them are read here as
text, and say the same as the table.
-/

namespace Recognizer

namespace Table

variable {σ : Type} [Ordered σ] (automaton : Automaton σ)

/-- A table has no moves but those of the states that it numbers. -/
theorem target_ofAutomaton_iff (index : Nat) (symbol : Char) (number : Nat) :
    (ofAutomaton automaton).target index symbol = some number ↔
      ∃ source target, automaton.numbering[index]? = some source ∧
        automaton.numbering[number]? = some target ∧ symbol ∈ automaton.alphabet ∧
          automaton.next source symbol = some target := by
  constructor
  · intro moved
    have entry :=
      ((fits_ofAutomaton automaton).target_eq_some_iff index symbol number).mp moved
    have inside := entry.1
    rw [ofAutomaton, List.length_map] at inside
    have listed := List.getElem?_eq_getElem inside
    obtain ⟨target, next, known, found⟩ :=
      (target_ofAutomaton_eq_some_iff automaton listed symbol number).mp moved
    exact ⟨_, target, listed, found, known, next⟩
  · rintro ⟨source, target, listed, found, known, next⟩
    exact (target_ofAutomaton_eq_some_iff automaton listed symbol number).mpr
      ⟨target, next, known, found⟩

end Table

namespace Automaton

open Drawing Layout Report

variable {σ : Type} [Ordered σ] (automaton : Automaton σ) (stem : String)

end Automaton

namespace Report

open Drawing Layout

/-- The arrow for a move of the table. -/
def moveArrow (stem : String) (source : Nat) (symbol : Char) (target : Nat) : Statement :=
  .labelledArrow (Automaton.nameAt stem source) (Automaton.nameAt stem target)
    (String.ofList [symbol])

def startArrow (stem : String) : Statement :=
  .arrow Automaton.startName (Automaton.nameAt stem 0)

end Report

namespace Automaton

open Drawing Layout Report

variable {σ : Type} [Ordered σ] (automaton : Automaton σ) (stem : String)

variable {automaton} in
theorem SelfContained.mem_numbering_iff (contained : automaton.SelfContained) (state : σ) :
    state ∈ automaton.numbering ↔ state ∈ automaton.states := by
  rw [automaton.mem_numbering_iff]
  exact ⟨fun known => known.elim (fun same => same ▸ contained.start) id, Or.inr⟩

section Names

end Names

section Grid

variable {stem}

variable {index : Nat} {state : σ} (listed : automaton.numbering[index]? = some state)

include listed

variable [Labelled σ]

end Grid

section Drawing

variable {stem}

/-- The arrow of an edge between states with names. -/
def edgeStatement (stem : String) (edge : σ × Char × σ) : Option Statement :=
  match automaton.name stem edge.1, automaton.name stem edge.2.2 with
  | some source, some target =>
      some (.labelledArrow source target (String.ofList [edge.2.1]))
  | _, _ => none

theorem edgeStatement_eq_some_iff (source target : σ) (symbol : Char) (statement : Statement) :
    automaton.edgeStatement stem (source, symbol, target) = some statement ↔
      ∃ index number : Nat, automaton.numbering[index]? = some source ∧
        automaton.numbering[number]? = some target ∧
          statement = moveArrow stem index symbol number := by
  simp only [← number_eq_some_iff, edgeStatement, name]
  cases automaton.number source with
  | none => simp
  | some index =>
      cases automaton.number target with
      | none => simp
      | some number => simp [moveArrow, eq_comm]

theorem moveArrow_injective {index number other reached : Nat} {symbol read : Char}
    (same : moveArrow stem index symbol number = moveArrow stem other read reached) :
    index = other ∧ symbol = read ∧ number = reached := by
  obtain ⟨sources, targets, captions⟩ := Statement.labelledArrow.inj same
  exact ⟨nameAt_injective index sources, (List.cons.inj (String.ofList_inj.mp captions)).1,
    nameAt_injective number targets⟩

theorem proper_moveArrow (named : IsName stem) (index number : Nat) (symbol : Char) :
    (moveArrow stem index symbol number).Proper :=
  ⟨isName_nameAt named index, isName_nameAt named number⟩

theorem proper_startArrow (named : IsName stem) : (startArrow stem).Proper :=
  ⟨List.all_eq_true.mp (by decide), isName_nameAt named 0⟩

theorem nodup_edgeStatements : (automaton.edgeStatements stem).Nodup := by
  -- names tell states apart, so no two edges are drawn alike
  refine List.Nodup.filterMap (f := automaton.edgeStatement stem) ?_ automaton.nodup_edges
  rintro ⟨source, symbol, target⟩ ⟨source', symbol', target'⟩ statement made also
  obtain ⟨index, number, from_listed, to_listed, rfl⟩ :=
    (automaton.edgeStatement_eq_some_iff source target symbol statement).mp made
  obtain ⟨other, reached, from_listed', to_listed', same⟩ :=
    (automaton.edgeStatement_eq_some_iff source' target' symbol' _).mp also
  obtain ⟨rfl, rfl, rfl⟩ := moveArrow_injective same
  rw [Option.some.inj (from_listed.symm.trans from_listed'),
    Option.some.inj (to_listed.symm.trans to_listed')]

theorem isArrow_of_mem_edgeStatements {statement : Statement}
    (member : statement ∈ automaton.edgeStatements stem) : statement.isArrow = true := by
  obtain ⟨⟨source, symbol, target⟩, _, made⟩ := List.mem_filterMap.mp member
  obtain ⟨index, number, _, _, rfl⟩ :=
    (automaton.edgeStatement_eq_some_iff source target symbol statement).mp made
  rfl

theorem startStatements_eq : automaton.startStatements stem = [startArrow stem] := by
  have first : automaton.number automaton.start = some 0 :=
    (automaton.number_eq_some_iff automaton.start 0).mpr rfl
  rw [startStatements, name, first]
  rfl

def opening : List String :=
  ["digraph automaton \x7b", "rankdir = LR;",
   "node [shape = circle fontname = \"Helvetica\" fontsize = 10];",
   startName ++ " [label = \"\" shape = none];"]

theorem settings_opening : ∀ line ∈ opening, isSetting line = true :=
  List.all_eq_true.mp (by decide)

section Statements

variable [Labelled σ]

/-- The node of the state with this number. -/
def stateNode (stem : String) (index : Nat) (state : σ) : Statement :=
  .node (nameAt stem index) (nameAt stem index ++ "\n" ++ label state)
    (if automaton.isAccepting state then "doublecircle" else "circle")

theorem proper_stateNode (named : IsName stem) (index : Nat) (state : σ) :
    (automaton.stateNode stem index state).Proper := by
  refine ⟨isName_nameAt named index, List.all_eq_true.mp ?_⟩
  cases automaton.isAccepting state <;> decide

theorem stateStatements_eq :
    automaton.stateStatements stem = automaton.numbering.mapIdx (automaton.stateNode stem) := by
  rw [stateStatements, named, List.mapIdx_eq_zipIdx_map, List.mapIdx_eq_zipIdx_map, List.map_map]
  rfl

theorem isArrow_of_mem_stateStatements {statement : Statement}
    (member : statement ∈ automaton.stateStatements stem) : statement.isArrow = false := by
  obtain ⟨_, _, rfl⟩ := List.mem_map.mp member
  rfl

/-- Everything between the opening and the closing line. -/
def statements (stem : String) : List Statement :=
  automaton.stateStatements stem ++ automaton.startStatements stem
    ++ automaton.edgeStatements stem

theorem drawing_eq : automaton.drawing stem = framed opening (automaton.statements stem) := rfl

theorem filter_isArrow_statements :
    (automaton.statements stem).filter Statement.isArrow =
      startArrow stem :: automaton.edgeStatements stem := by
  have states : (automaton.stateStatements stem).filter Statement.isArrow = [] :=
    List.filter_eq_nil_iff.mpr fun statement member =>
      Bool.eq_false_iff.mp (automaton.isArrow_of_mem_stateStatements member)
  have edges : (automaton.edgeStatements stem).filter Statement.isArrow =
      automaton.edgeStatements stem :=
    List.filter_eq_self.mpr fun statement => automaton.isArrow_of_mem_edgeStatements
  rw [statements, List.filter_append, List.filter_append, states, edges, startStatements_eq]
  rfl

theorem filter_not_isArrow_statements :
    (automaton.statements stem).filter (!·.isArrow) = automaton.stateStatements stem := by
  have states : (automaton.stateStatements stem).filter (!·.isArrow) =
      automaton.stateStatements stem :=
    List.filter_eq_self.mpr fun statement member => by
      rw [automaton.isArrow_of_mem_stateStatements member]
      rfl
  have edges : (automaton.edgeStatements stem).filter (!·.isArrow) = [] :=
    List.filter_eq_nil_iff.mpr fun statement member => by
      rw [automaton.isArrow_of_mem_edgeStatements member]
      decide
  rw [statements, List.filter_append, List.filter_append, states, edges, startStatements_eq,
    List.append_nil]
  exact List.append_nil _

/-- A statement is an arrow of the table or a node. -/
theorem mem_statements {statement : Statement} (member : statement ∈ automaton.statements stem) :
    statement = startArrow stem ∨ statement ∈ automaton.edgeStatements stem ∨
      ∃ index state, statement = automaton.stateNode stem index state := by
  rw [statements, List.mem_append, List.mem_append, startStatements_eq, List.mem_singleton,
    stateStatements_eq] at member
  rcases member with (node | start) | edge
  · obtain ⟨index, inside, rfl⟩ := List.mem_mapIdx.mp node
    exact Or.inr (Or.inr ⟨index, _, rfl⟩)
  · exact Or.inl start
  · exact Or.inr (Or.inl edge)

theorem proper_statements (named : IsName stem) :
    ∀ statement ∈ automaton.statements stem, statement.Proper := by
  intro statement member
  rcases automaton.mem_statements member with rfl | edge | ⟨index, state, rfl⟩
  · exact proper_startArrow named
  · obtain ⟨⟨source, symbol, target⟩, _, made⟩ := List.mem_filterMap.mp edge
    obtain ⟨index, number, _, _, rfl⟩ :=
      (automaton.edgeStatement_eq_some_iff source target symbol statement).mp made
    exact proper_moveArrow named index number symbol
  · exact automaton.proper_stateNode named index state

end Statements

section Moves

variable {automaton} (contained : automaton.SelfContained)

include contained

/-- The arrows are the moves of the table. -/
theorem mem_edgeStatements_iff (statement : Statement) :
    statement ∈ automaton.edgeStatements stem ↔ ∃ index symbol number,
      (Table.ofAutomaton automaton).target index symbol = some number ∧
        statement = moveArrow stem index symbol number := by
  have members : statement ∈ automaton.edgeStatements stem ↔
      ∃ edge ∈ automaton.edges, automaton.edgeStatement stem edge = some statement :=
    List.mem_filterMap
  rw [members]
  constructor
  · rintro ⟨⟨source, symbol, target⟩, edge, made⟩
    obtain ⟨known, moved⟩ := (automaton.mem_edges_iff source target symbol).mp edge
    obtain ⟨index, number, listed, found, rfl⟩ :=
      (automaton.edgeStatement_eq_some_iff source target symbol statement).mp made
    exact ⟨index, symbol, number, (Table.target_ofAutomaton_iff automaton index symbol number).mpr
      ⟨source, target, listed, found, contained.uses source known symbol target moved, moved⟩, rfl⟩
  · rintro ⟨index, symbol, number, moved, rfl⟩
    obtain ⟨source, target, listed, found, _, moved⟩ :=
      (Table.target_ofAutomaton_iff automaton index symbol number).mp moved
    have known := (contained.mem_numbering_iff source).mp (List.mem_of_getElem? listed)
    exact ⟨(source, symbol, target),
      (automaton.mem_edges_iff source target symbol).mpr ⟨known, moved⟩,
      (automaton.edgeStatement_eq_some_iff source target symbol _).mpr
        ⟨index, number, listed, found, rfl⟩⟩

theorem nodup_arrows : (startArrow stem :: automaton.edgeStatements stem).Nodup := by
  refine List.nodup_cons.mpr ⟨fun member => ?_, automaton.nodup_edgeStatements⟩
  obtain ⟨_, _, _, _, same⟩ := (mem_edgeStatements_iff contained _).mp member
  cases same

theorem mem_arrows_iff (index number : Nat) (symbol : Char) :
    moveArrow stem index symbol number ∈ startArrow stem :: automaton.edgeStatements stem ↔
      (Table.ofAutomaton automaton).target index symbol = some number := by
  rw [List.mem_cons, mem_edgeStatements_iff contained]
  constructor
  · rintro (start | ⟨other, read, reached, moved, same⟩)
    · cases start
    · obtain ⟨rfl, rfl, rfl⟩ := moveArrow_injective same
      exact moved
  · exact fun moved => Or.inr ⟨index, symbol, number, moved, rfl⟩

variable [Labelled σ]

omit contained in
theorem filter_declares_drawing (named : IsName stem) (index : Nat) :
    (linesOf (automaton.drawing stem)).filter (declares (nameAt stem index)) =
      (automaton.numbering[index]?.map fun state =>
        (automaton.stateNode stem index state).text).toList :=
  filter_declares_mapIdx settings_opening (automaton.proper_statements named)
    (automaton.filter_not_isArrow_statements.trans automaton.stateStatements_eq) named index
    fun number _ => isNode_nameAt index number _ _

end Moves

end Drawing

end Automaton

end Recognizer
