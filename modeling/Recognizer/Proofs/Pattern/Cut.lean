import Recognizer.Pattern.Code
import Recognizer.Proofs.CharacterClass.Members
import Recognizer.Proofs.Tree.Growing

/-!
What a pattern definition stands for, and the tree it becomes. A word is cut into
one piece for every term: a single character of its class, or any number of them
when the term is repeated.
-/

namespace Recognizer.Pattern

open CharacterClass (Item)

namespace Term

/-- A literal is a class of one character. -/
def items (term : Term) : List Item :=
  match term.body with
  | .literal c => [.single c]
  | .bracketed items => items

def Holds (term : Term) (c : Char) : Prop := ∃ item ∈ term.items, item.Holds c

/-- The class of a term can be made and has a character. -/
def Valid (term : Term) : Prop := (∀ item ∈ term.items, item.Valid) ∧ ∃ c, term.Holds c

def Reads (term : Term) (piece : List Char) : Prop :=
  if term.repeated then ∀ c ∈ piece, term.Holds c else ∃ c, term.Holds c ∧ piece = [c]

def language (term : Term) : Language Char := {piece | term.Reads piece}

end Term

/-- One piece for every term, in their order. -/
def Cut (terms : List Term) (word : List Char) : Prop :=
  ∃ pieces, List.Forall₂ Term.Reads terms pieces ∧ pieces.flatten = word

def cutLanguage (terms : List Term) : Language Char := {word | Cut terms word}

theorem cutLanguage_nil : cutLanguage [] = 1 := by
  ext word
  change (∃ pieces, List.Forall₂ Term.Reads [] pieces ∧ pieces.flatten = word) ↔ word = []
  simp [List.forall₂_nil_left_iff, eq_comm]

theorem cutLanguage_cons (term : Term) (terms : List Term) :
    cutLanguage (term :: terms) = term.language * cutLanguage terms := by
  ext word
  rw [Language.mem_mul]
  constructor
  · rintro ⟨pieces, read, rfl⟩
    obtain ⟨piece, rest, here, later, rfl⟩ := List.forall₂_cons_left_iff.mp read
    exact ⟨piece, here, rest.flatten, ⟨rest, later, rfl⟩, rfl⟩
  · rintro ⟨piece, here, _, ⟨rest, later, rfl⟩, rfl⟩
    exact ⟨piece :: rest, List.Forall₂.cons here later, rfl⟩

theorem Fault.located_eq_ok_iff {α : Type} {place : Place} {outcome : Except Cause α} {value : α} :
    located place outcome = .ok value ↔ outcome = .ok value := by
  cases outcome <;> simp [located]

namespace Term

open scoped Computability

theorem located_of_adds {allowed : Prop} {added : Char → Prop}
    {outcome : Except Cause CharacterClass}
    (adds : CharacterClass.empty.Adds allowed added outcome) (place : Place) :
    (allowed → ∃ cls, Fault.located place outcome = .ok cls ∧ ∀ c, c ∈ cls.chars ↔ added c) ∧
      (¬allowed → ∃ cause, Fault.located place outcome = .error ⟨.construction cause, place⟩) := by
  cases outcome with
  | ok cls =>
      refine ⟨fun _ => ⟨cls, rfl, fun c => (adds.2 c).trans ?_⟩, fun refused => ?_⟩
      · exact or_iff_right List.not_mem_nil
      · exact absurd adds.1 refused
  | error cause => exact ⟨fun allowed => absurd allowed adds, fun _ => ⟨cause, rfl⟩⟩

/-- The class of a term holds what its items hold, unless one of them is not valid. -/
theorem characters_eq (term : Term) :
    ((∀ item ∈ term.items, item.Valid) →
      ∃ cls, term.characters = .ok cls ∧ ∀ c, c ∈ cls.chars ↔ term.Holds c) ∧
    ((¬∀ item ∈ term.items, item.Valid) →
      ∃ cause, term.characters = .error ⟨.construction cause, term.place⟩) := by
  obtain ⟨body, repeated, place⟩ := term
  cases body with
  | literal c =>
      have added := located_of_adds (CharacterClass.empty.adds_addChar c) place
      simpa [items, Holds, Item.Holds, Item.Valid, characters] using added
  | bracketed items => exact located_of_adds (CharacterClass.adds_ofItems items) place

/-- A class read once, or any number of times. -/
theorem mem_language_tree {tree : Tree} (term : Term)
    (once : ∀ word, word ∈ tree.language ↔ ∃ c, term.Holds c ∧ word = [c]) :
    (if term.repeated then Tree.star tree else tree).language = term.language := by
  ext word
  change _ ↔ term.Reads word
  rw [Reads]
  cases term.repeated with
  | false => exact once word
  | true =>
      change word ∈ tree.language∗ ↔ ∀ c ∈ word, term.Holds c
      rw [Language.mem_kstar]
      constructor
      · rintro ⟨parts, rfl, each⟩ c inside
        obtain ⟨part, isPart, inPart⟩ := List.mem_flatten.mp inside
        obtain ⟨own, held, rfl⟩ := (once part).mp (each part isPart)
        exact List.mem_singleton.mp inPart ▸ held
      · intro held
        refine ⟨word.map fun c => [c], (List.flatMap_singleton' word).symm, fun part isPart => ?_⟩
        obtain ⟨c, inside, rfl⟩ := List.mem_map.mp isPart
        exact (once [c]).mpr ⟨c, held c inside, rfl⟩

theorem exists_characters (term : Term) (valid : term.Valid) :
    ∃ cls, term.characters = .ok cls ∧ cls.symbols ≠ [] ∧ ∀ c, c ∈ cls.chars ↔ term.Holds c := by
  obtain ⟨allowed, some, held⟩ := valid
  obtain ⟨cls, made, members⟩ := term.characters_eq.1 allowed
  have member := (members some).mpr held
  exact ⟨cls, made, CharacterClass.symbols_ne_nil_of_mem_chars member, members⟩

theorem tree_of_classTree {term : Term} {cls : CharacterClass} (made : term.characters = .ok cls)
    {supply rest : LeafSupply} {tree : Tree} (grown : supply.classTree cls = (.ok tree, rest)) :
    term.tree supply = .ok (if term.repeated then .star tree else tree, rest) := by
  rw [Term.tree, made]
  simp only [bind, Except.bind, grown, Fault.located]
  rfl

theorem tree_of_valid (term : Term) (valid : term.Valid) (supply : LeafSupply) :
    ∃ tree free, term.tree supply = .ok (tree, ⟨free⟩) ∧ tree.Numbered supply.next free ∧
      tree.Unmarked ∧ tree.language = term.language := by
  obtain ⟨cls, made, several, members⟩ := term.exists_characters valid
  obtain ⟨tree, grown, numbered, unmarked, once⟩ := supply.exists_classTree cls several
  refine ⟨_, _, tree_of_classTree made grown, ?_, ?_, term.mem_language_tree fun word => ?_⟩
  · split
    · exact numbered
    · exact numbered
  · split
    · exact unmarked
    · exact unmarked
  · simp only [once, members]

theorem tree_of_not_valid (term : Term) (refused : ¬term.Valid) (supply : LeafSupply) :
    ∃ cause, term.tree supply = .error ⟨.construction cause, term.place⟩ := by
  by_cases allowed : ∀ item ∈ term.items, item.Valid
  · obtain ⟨cls, made, members⟩ := term.characters_eq.1 allowed
    have none : cls.symbols = [] := by
      rw [List.eq_nil_iff_forall_not_mem]
      intro symbol inside
      exact refused ⟨allowed, symbol.char,
        (members symbol.char).mp (List.mem_map.mpr ⟨symbol, inside, rfl⟩)⟩
    refine ⟨.emptyUnion, ?_⟩
    rw [Term.tree, made]
    simp only [bind, Except.bind, supply.classTree_empty cls none, Fault.located]
  · obtain ⟨cause, failed⟩ := term.characters_eq.2 allowed
    refine ⟨cause, ?_⟩
    rw [Term.tree, failed]
    rfl

end Term

end Recognizer.Pattern
