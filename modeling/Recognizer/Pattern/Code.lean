import Recognizer.Automaton.Construction
import Recognizer.Automaton.Minimize
import Recognizer.Automaton.Table
import Recognizer.Pattern.Definition
import Recognizer.Tree.LeafSupply

/-!
What a pattern definition compiles to: the classes of its terms, a tree, the table
of the minimal automaton, and a module as source text on one line. A failure names
the place of the offending term, or of the name when no term is to blame, and its
module refuses to compile.
-/

namespace Recognizer.Pattern

inductive Reason where
  | construction (cause : Cause)
  | noTerms (name : String)
  deriving DecidableEq, Repr

def Reason.message : Reason → String
  | .construction cause => cause.message
  | .noTerms name => "Pattern " ++ name ++ " has no terms"

structure Fault where
  reason : Reason
  place : Place
  deriving DecidableEq, Repr

def Fault.located {α : Type} (place : Place) : Except Cause α → Except Fault α
  | .ok value => .ok value
  | .error cause => .error ⟨.construction cause, place⟩

namespace Term

def characters (term : Term) : Except Fault CharacterClass :=
  Fault.located term.place <|
    match term.body with
    | .literal c => CharacterClass.empty.addChar c
    | .bracketed items => CharacterClass.ofItems items

def tree (term : Term) (supply : LeafSupply) : Except Fault (Tree × LeafSupply) := do
  let cls ← term.characters
  let (tree, rest) := supply.classTree cls
  let tree ← Fault.located term.place tree
  return (if term.repeated then .star tree else tree, rest)

end Term

/-- Capital letters become small, with `_` before all but a first one. -/
def snakeCase (name : String) : String :=
  String.ofList <| (name.toList.mapIdx fun index c =>
    if c.isUpper then
      if index = 0 then [c.toLower] else ['_', c.toLower]
    else [c]).flatten

namespace Definition

/-- The terms one after the other, joined to what comes before them. -/
def body : Option Tree → LeafSupply → List Term → Except Fault (Option Tree × LeafSupply)
  | before, supply, [] => .ok (before, supply)
  | before, supply, term :: terms => do
      let (tree, rest) ← term.tree supply
      body (some (before.elim tree fun earlier => .concat earlier tree)) rest terms

def tree (definition : Definition) : Except Fault Tree := do
  let (body, supply) ← body none .initial definition.terms
  match body with
  | none => .error ⟨.noTerms definition.name, definition.place⟩
  | some body => .ok (.concat body supply.endLeaf.1)

def table (definition : Definition) : Except Fault Table := do
  let tree ← definition.tree
  let construction ← Fault.located definition.place (Construction.ofTree tree)
  let minimal ← Fault.located definition.place construction.automaton.minimize
  return Table.ofAutomaton minimal

def moduleName (definition : Definition) : String := snakeCase definition.name

def builderCode : Except Fault Table → String
  | .ok table =>
      "followpos_core :: automaton :: DfaTable :: from_raw (" ++ table.code
        ++ ") . expect (\"generated tables are always consistent\")"
  | .error fault =>
      "compile_error ! (" ++ Quoted.text fault.reason.message ++ ") ; unimplemented ! ()"

def code (definition : Definition) : String :=
  "pub mod " ++ definition.moduleName
    ++ " \x7b lazy_static :: lazy_static ! \x7b static ref TABLE : "
    ++ "followpos_core :: automaton :: DfaTable = build_dfa () ; \x7d "
    ++ "pub fn build_dfa () -> followpos_core :: automaton :: DfaTable \x7b "
    ++ builderCode definition.table
    ++ " \x7d pub fn matches (input : & str) -> bool \x7b TABLE . matches (input) \x7d \x7d"

end Definition

end Recognizer.Pattern
